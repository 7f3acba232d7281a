import Difs.Lib.Tlv

/-!
# Command parameters on the wire

`RepoCommandParameter` with its cached wire image. A field that is absent is `none`. The codecs
of names and delegation lists are those of the network library.
-/

namespace Difs.Command

open Tlv

namespace tlv

def Name : BlockType := ⟨7, by decide, by decide⟩

def InterestLifetime : BlockType := ⟨12, by decide, by decide⟩

def ForwardingHint : BlockType := ⟨30, by decide, by decide⟩

def RepoCommandParameter : BlockType := ⟨201, by decide, by decide⟩

def From : BlockType := ⟨202, by decide, by decide⟩

def To : BlockType := ⟨203, by decide, by decide⟩

def StartBlockId : BlockType := ⟨204, by decide, by decide⟩

def EndBlockId : BlockType := ⟨205, by decide, by decide⟩

def ProcessId : BlockType := ⟨206, by decide, by decide⟩

def RepoCommandResponse : BlockType := ⟨207, by decide, by decide⟩

def StatusCode : BlockType := ⟨208, by decide, by decide⟩

def InsertNum : BlockType := ⟨209, by decide, by decide⟩

def DeleteNum : BlockType := ⟨210, by decide, by decide⟩

def ClusterPrefix : BlockType := ⟨211, by decide, by decide⟩

end tlv

structure Codecs where
  name : Codec tlv.Name
  delegationList : Codec tlv.ForwardingHint

/-- The errors of the commands carry a text, those of the network library do not matter here. -/
inductive Error where
  | command (what : String)
  | tlv
deriving DecidableEq

structure ParameterFields (C : Codecs) where
  mNodePrefix : Option C.delegationList.Value := none
  mName : Option C.name.Value := none
  mFrom : Option Block := none
  mTo : Option Block := none
  mStartBlockId : Option UInt64 := none
  mEndBlockId : Option UInt64 := none
  mProcessId : Option UInt64 := none
  mInterestLifetime : Option Int64 := none
  mClusterPrefix : Option Block := none

structure RepoCommandParameter (C : Codecs) extends ParameterFields C where
  mWire : Option Block := none

variable {C : Codecs}

namespace RepoCommandParameter

def setNodePrefix (p : RepoCommandParameter C) (nodePrefix : C.delegationList.Value) : RepoCommandParameter C :=
  { p with mNodePrefix := some nodePrefix, mWire := none }

def setFrom (p : RepoCommandParameter C) (b : Block) : RepoCommandParameter C :=
  { p with mFrom := some b, mWire := none }

def setTo (p : RepoCommandParameter C) (b : Block) : RepoCommandParameter C :=
  { p with mTo := some b, mWire := none }

def setName (p : RepoCommandParameter C) (name : C.name.Value) : RepoCommandParameter C :=
  { p with mName := some name, mWire := none }

def setStartBlockId (p : RepoCommandParameter C) (startBlockId : UInt64) : RepoCommandParameter C :=
  { p with mStartBlockId := some startBlockId, mWire := none }

def setEndBlockId (p : RepoCommandParameter C) (endBlockId : UInt64) : RepoCommandParameter C :=
  { p with mEndBlockId := some endBlockId, mWire := none }

def setProcessId (p : RepoCommandParameter C) (processId : UInt64) : RepoCommandParameter C :=
  { p with mProcessId := some processId, mWire := none }

/-- The lifetime is a signed count of milliseconds. -/
def setInterestLifetime (p : RepoCommandParameter C) (interestLifetime : Int64) : RepoCommandParameter C :=
  { p with mInterestLifetime := some interestLifetime, mWire := none }

def setClusterPrefix (p : RepoCommandParameter C) (clusterPrefix : Block) : RepoCommandParameter C :=
  { p with mClusterPrefix := some clusterPrefix, mWire := none }

end RepoCommandParameter

namespace ParameterFields

/-- The last field is written first. -/
def wireEncodeTo (p : ParameterFields C) (encoder : Encoder) : Encoder :=
  let encoder := encoder.prependSome p.mClusterPrefix Encoder.prependBlock
  let encoder := encoder.prependSome p.mProcessId (fun e m => e.prependInteger tlv.ProcessId m)
  let encoder := encoder.prependSome p.mEndBlockId (fun e m => e.prependInteger tlv.EndBlockId m)
  let encoder := encoder.prependSome p.mStartBlockId (fun e m => e.prependInteger tlv.StartBlockId m)
  let encoder := encoder.prependSome p.mInterestLifetime
    (fun e lifetime => e.prependInteger tlv.InterestLifetime lifetime.toUInt64)
  let encoder := encoder.prependSome p.mName (fun e name => e.prependBlock (C.name.encode name))
  let encoder := encoder.prependSome p.mFrom Encoder.prependBlock
  let encoder := encoder.prependSome p.mTo Encoder.prependBlock
  let encoder := encoder.prependSome p.mNodePrefix (fun e hint => e.prependBlock (C.delegationList.encode hint))
  encoder.close tlv.RepoCommandParameter

def decodeFields (p : ParameterFields C) (es : List Block) : Option (ParameterFields C) := do
  let name ← decodeField es tlv.Name C.name.decode p.mName
  let fromBlock ← decodeField es tlv.From some p.mFrom
  let toBlock ← decodeField es tlv.To some p.mTo
  let nodePrefix ← decodeField es tlv.ForwardingHint C.delegationList.decode p.mNodePrefix
  let startBlockId ← decodeField es tlv.StartBlockId (fun b => readNonNegativeInteger b.value) p.mStartBlockId
  let endBlockId ← decodeField es tlv.EndBlockId (fun b => readNonNegativeInteger b.value) p.mEndBlockId
  let processId ← decodeField es tlv.ProcessId (fun b => readNonNegativeInteger b.value) p.mProcessId
  let interestLifetime ← decodeField es tlv.InterestLifetime
    (fun b => (readNonNegativeInteger b.value).map UInt64.toInt64) p.mInterestLifetime
  let clusterPrefix ← decodeField es tlv.ClusterPrefix some p.mClusterPrefix
  return {
    mNodePrefix := nodePrefix
    mName := name
    mFrom := fromBlock
    mTo := toBlock
    mStartBlockId := startBlockId
    mEndBlockId := endBlockId
    mProcessId := processId
    mInterestLifetime := interestLifetime
    mClusterPrefix := clusterPrefix }

end ParameterFields

namespace RepoCommandParameter

/-- There is no block when the length does not fit its field. -/
def wireEncode (p : RepoCommandParameter C) : Option Block × RepoCommandParameter C :=
  match p.mWire with
  | some wire => (some wire, p)
  | none =>
    let wire := toBlock (p.wireEncodeTo {}).buffer
    (wire, { p with mWire := wire })

def wireDecode (p : RepoCommandParameter C) (wire : Block) : Except Error (RepoCommandParameter C) :=
  match elements wire.value with
  | none => .error .tlv
  | some es =>
    if wire.type ≠ tlv.RepoCommandParameter then
      .error (.command "Requested decoding of RepoCommandParameter, but Block is of different type")
    else
      match p.decodeFields es with
      | none => .error .tlv
      | some fields => .ok { fields with mWire := some wire }

end RepoCommandParameter

/-! ### The encoding of the fields -/

namespace ParameterFields

/-- The blocks of the fields in the order of the wire. -/
def fieldBlocks (p : ParameterFields C) : List (BlockType × Option Block) :=
  [(tlv.ForwardingHint, p.mNodePrefix.map C.delegationList.encode),
    (tlv.To, p.mTo.map id),
    (tlv.From, p.mFrom.map id),
    (tlv.Name, p.mName.map C.name.encode),
    (tlv.InterestLifetime, p.mInterestLifetime.map (fun t => integerBlock tlv.InterestLifetime t.toUInt64)),
    (tlv.StartBlockId, p.mStartBlockId.map (integerBlock tlv.StartBlockId)),
    (tlv.EndBlockId, p.mEndBlockId.map (integerBlock tlv.EndBlockId)),
    (tlv.ProcessId, p.mProcessId.map (integerBlock tlv.ProcessId)),
    (tlv.ClusterPrefix, p.mClusterPrefix.map id)]

def blocks (p : ParameterFields C) : List Block := present p.fieldBlocks

/-- The blocks that are fields themselves have the types of their fields. -/
structure OwnTypes (p : ParameterFields C) : Prop where
  fromBlock : ∀ b ∈ p.mFrom, b.type = tlv.From
  toBlock : ∀ b ∈ p.mTo, b.type = tlv.To
  clusterPrefix : ∀ b ∈ p.mClusterPrefix, b.type = tlv.ClusterPrefix

variable {p : ParameterFields C}

theorem wireEncodeTo_eq (p : ParameterFields C) :
    p.wireEncodeTo {} = (Encoder.ofBlocks p.blocks).close tlv.RepoCommandParameter := by
  have hempty : ({} : Encoder) = Encoder.ofBlocks (present []) := rfl
  have hinteger (type : BlockType) (e : Encoder) (m : UInt64) :
      e.prependInteger type m = e.prependBlock (integerBlock type m) := Encoder.prependInteger_eq e type m
  have hblock (e : Encoder) (b : Block) : e.prependBlock b = e.prependBlock (id b) := rfl
  unfold wireEncodeTo blocks fieldBlocks
  dsimp only
  rw [hempty, Encoder.prependSome_ofBlocks hblock _ tlv.ClusterPrefix,
    Encoder.prependSome_ofBlocks (hinteger tlv.ProcessId) _ tlv.ProcessId,
    Encoder.prependSome_ofBlocks (hinteger tlv.EndBlockId) _ tlv.EndBlockId,
    Encoder.prependSome_ofBlocks (hinteger tlv.StartBlockId) _ tlv.StartBlockId,
    Encoder.prependSome_ofBlocks (fun e t => hinteger tlv.InterestLifetime e t.toUInt64) _ tlv.InterestLifetime,
    Encoder.prependSome_ofBlocks (fun e name => rfl) _ tlv.Name,
    Encoder.prependSome_ofBlocks hblock _ tlv.From,
    Encoder.prependSome_ofBlocks hblock _ tlv.To,
    Encoder.prependSome_ofBlocks (fun e hint => rfl) _ tlv.ForwardingHint]

theorem toBlock_wireEncodeTo {wire : Block} :
    toBlock (p.wireEncodeTo {}).buffer = some wire ↔
      wire.type = tlv.RepoCommandParameter ∧ wire.value = p.blocks.flatMap Block.wire := by
  rw [wireEncodeTo_eq]
  exact Encoder.toBlock_close

lemma nodup_fieldBlocks (p : ParameterFields C) : (p.fieldBlocks.map Prod.fst).Nodup := by
  have htypes : p.fieldBlocks.map Prod.fst = [tlv.ForwardingHint, tlv.To, tlv.From, tlv.Name, tlv.InterestLifetime,
    tlv.StartBlockId, tlv.EndBlockId, tlv.ProcessId, tlv.ClusterPrefix] := rfl
  rw [htypes]
  decide

lemma OwnTypes.fieldBlocks (h : p.OwnTypes) : ∀ field ∈ p.fieldBlocks, ∀ b ∈ field.2, b.type = field.1 := by
  unfold ParameterFields.fieldBlocks
  simp only [List.forall_mem_cons, Option.mem_def, Option.map_eq_some_iff, forall_exists_index, and_imp,
    forall_apply_eq_imp_iff₂, integerBlock, C.delegationList.type_encode, C.name.type_encode, implies_true, true_and,
    id_eq, List.not_mem_nil, IsEmpty.forall_iff, and_true]
  exact ⟨h.toBlock, h.fromBlock, h.clusterPrefix⟩

lemma decodeField_blocks {α : Type} (h : p.OwnTypes) {type : BlockType} {decode : Block → Option α}
    (field : Option α) (encode : α → Block) (hcodec : ∀ a, decode (encode a) = some a)
    (hfield : (type, field.map encode) ∈ p.fieldBlocks) : decodeField p.blocks type decode none = some field :=
  decodeField_present h.fieldBlocks (nodup_fieldBlocks p) field encode hcodec hfield

theorem decodeFields_blocks (h : p.OwnTypes) : decodeFields {} p.blocks = some p := by
  have hinteger (type : BlockType) (m : UInt64) : readNonNegativeInteger (integerBlock type m).value = some m :=
    readNonNegativeInteger_nonNegativeInteger m
  have hlifetime (t : Int64) :
      (readNonNegativeInteger (integerBlock tlv.InterestLifetime t.toUInt64).value).map UInt64.toInt64 = some t := by
    rw [hinteger, Option.map_some]
    rfl
  unfold decodeFields
  rw [decodeField_blocks h p.mName _ C.name.decode_encode (by simp [fieldBlocks]),
    decodeField_blocks h p.mFrom id (fun _ => rfl) (by simp [fieldBlocks]),
    decodeField_blocks h p.mTo id (fun _ => rfl) (by simp [fieldBlocks]),
    decodeField_blocks h p.mNodePrefix _ C.delegationList.decode_encode (by simp [fieldBlocks]),
    decodeField_blocks h p.mStartBlockId _ (hinteger tlv.StartBlockId) (by simp [fieldBlocks]),
    decodeField_blocks h p.mEndBlockId _ (hinteger tlv.EndBlockId) (by simp [fieldBlocks]),
    decodeField_blocks h p.mProcessId _ (hinteger tlv.ProcessId) (by simp [fieldBlocks]),
    decodeField_blocks h p.mInterestLifetime _ hlifetime (by simp [fieldBlocks]),
    decodeField_blocks h p.mClusterPrefix id (fun _ => rfl) (by simp [fieldBlocks])]
  rfl

theorem of_decodeFields {es : List Block} (h : decodeFields {} es = some p) :
    p.OwnTypes ∧ (p.blocks.flatMap Block.wire).length ≤ (es.flatMap Block.wire).length := by
  unfold decodeFields at h
  simp only [Option.bind_eq_bind, Option.bind_eq_some_iff, Option.pure_def, Option.some.injEq] at h
  obtain ⟨name, hname, fromBlock, hfrom, toBlock, hto, nodePrefix, hhint, startBlockId, hstart, endBlockId, hend,
    processId, hprocess, interestLifetime, hlifetime, clusterPrefix, hcluster, rfl⟩ := h
  have hblock (type : BlockType) (b a : Block) (_ : b.type = type) (ha : some b = some a) :
      (id a).wire.length ≤ b.wire.length := by
    rw [← Option.some.inj ha]
    exact le_rfl
  have hcodec {type : BlockType} (c : Codec type) (b : Block) (v : c.Value) (htype : b.type = type)
      (hv : c.decode b = some v) : (c.encode v).wire.length ≤ b.wire.length := by
    rw [c.encode_decode b v htype hv]
  have hinteger (type : BlockType) (b : Block) (m : UInt64) (htype : b.type = type)
      (hm : readNonNegativeInteger b.value = some m) : (integerBlock type m).wire.length ≤ b.wire.length := by
    rw [← htype]
    exact length_integerBlock_le hm
  have hmilliseconds (b : Block) (t : Int64) (htype : b.type = tlv.InterestLifetime)
      (ht : (readNonNegativeInteger b.value).map UInt64.toInt64 = some t) :
      (integerBlock tlv.InterestLifetime t.toUInt64).wire.length ≤ b.wire.length := by
    obtain ⟨m, hm, rfl⟩ := Option.map_eq_some_iff.mp ht
    exact hinteger tlv.InterestLifetime b m htype hm
  constructor
  · constructor
    · intro b hb
      obtain ⟨b', -, htype, hsome⟩ := of_decodeField hfrom hb
      rw [← Option.some.inj hsome, htype]
    · intro b hb
      obtain ⟨b', -, htype, hsome⟩ := of_decodeField hto hb
      rw [← Option.some.inj hsome, htype]
    · intro b hb
      obtain ⟨b', -, htype, hsome⟩ := of_decodeField hcluster hb
      rw [← Option.some.inj hsome, htype]
  · apply length_present_le (nodup_fieldBlocks _)
    unfold fieldBlocks
    simp only [List.forall_mem_cons, List.not_mem_nil, IsEmpty.forall_iff, implies_true, and_true]
    exact ⟨length_le_of_decodeField _ hhint (hcodec C.delegationList), length_le_of_decodeField _ hto (hblock tlv.To),
      length_le_of_decodeField _ hfrom (hblock tlv.From), length_le_of_decodeField _ hname (hcodec C.name),
      length_le_of_decodeField _ hlifetime hmilliseconds, length_le_of_decodeField _ hstart (hinteger tlv.StartBlockId),
      length_le_of_decodeField _ hend (hinteger tlv.EndBlockId),
      length_le_of_decodeField _ hprocess (hinteger tlv.ProcessId),
      length_le_of_decodeField _ hcluster (hblock tlv.ClusterPrefix)⟩

end ParameterFields

/-! ### Objects and their wire images -/

inductive Call (C : Codecs) where
  | setNodePrefix (nodePrefix : C.delegationList.Value)
  | setFrom (b : Block)
  | setTo (b : Block)
  | setName (name : C.name.Value)
  | setStartBlockId (startBlockId : UInt64)
  | setEndBlockId (endBlockId : UInt64)
  | setProcessId (processId : UInt64)
  | setInterestLifetime (interestLifetime : Int64)
  | setClusterPrefix (clusterPrefix : Block)
  | wireEncode

namespace Call

def apply (p : RepoCommandParameter C) : Call C → RepoCommandParameter C
  | setNodePrefix nodePrefix => p.setNodePrefix nodePrefix
  | setFrom b => p.setFrom b
  | setTo b => p.setTo b
  | setName name => p.setName name
  | setStartBlockId startBlockId => p.setStartBlockId startBlockId
  | setEndBlockId endBlockId => p.setEndBlockId endBlockId
  | setProcessId processId => p.setProcessId processId
  | setInterestLifetime interestLifetime => p.setInterestLifetime interestLifetime
  | setClusterPrefix clusterPrefix => p.setClusterPrefix clusterPrefix
  | wireEncode => p.wireEncode.2

/-- The blocks that are fields themselves are given with the types of their fields. -/
def OwnType : Call C → Prop
  | setFrom b => b.type = tlv.From
  | setTo b => b.type = tlv.To
  | setClusterPrefix b => b.type = tlv.ClusterPrefix
  | _ => True

/-- The last value that the calls set. -/
def lastOf {α : Type} (calls : List (Call C)) (value : Call C → Option α) : Option α :=
  (calls.filterMap value).getLast?

def lastSet (calls : List (Call C)) : ParameterFields C where
  mNodePrefix := lastOf calls (fun | setNodePrefix nodePrefix => some nodePrefix | _ => none)
  mName := lastOf calls (fun | setName name => some name | _ => none)
  mFrom := lastOf calls (fun | setFrom b => some b | _ => none)
  mTo := lastOf calls (fun | setTo b => some b | _ => none)
  mStartBlockId := lastOf calls (fun | setStartBlockId startBlockId => some startBlockId | _ => none)
  mEndBlockId := lastOf calls (fun | setEndBlockId endBlockId => some endBlockId | _ => none)
  mProcessId := lastOf calls (fun | setProcessId processId => some processId | _ => none)
  mInterestLifetime := lastOf calls (fun | setInterestLifetime interestLifetime => some interestLifetime | _ => none)
  mClusterPrefix := lastOf calls (fun | setClusterPrefix clusterPrefix => some clusterPrefix | _ => none)

/-- A further call sets its own value, if any. -/
lemma lastOf_snoc {α : Type} (calls : List (Call C)) (call : Call C) (value : Call C → Option α) :
    lastOf (calls ++ [call]) value = (value call).or (lastOf calls value) := by
  unfold lastOf
  rw [List.filterMap_append, List.getLast?_append]
  cases h : value call <;> simp [h]

end Call

namespace RepoCommandParameter

def afterCalls (calls : List (Call C)) : RepoCommandParameter C := calls.foldl Call.apply {}

/-- A wire image that is kept is the one that the fields have. -/
def Cached (p : RepoCommandParameter C) : Prop :=
  ∀ wire, p.mWire = some wire → toBlock (p.wireEncodeTo {}).buffer = some wire

variable {p q : RepoCommandParameter C} {calls : List (Call C)} {wire : Block}

lemma Cached.wireEncode_eq (h : p.Cached) : p.wireEncode.1 = toBlock (p.wireEncodeTo {}).buffer := by
  unfold wireEncode
  split
  · rename_i wire hwire
    exact (h wire hwire).symm
  · rfl

lemma fields_wireEncode (p : RepoCommandParameter C) : p.wireEncode.2.toParameterFields = p.toParameterFields := by
  unfold wireEncode
  split <;> rfl

lemma Cached.apply (h : p.Cached) (call : Call C) : (call.apply p).Cached := by
  cases call with
  | wireEncode =>
    intro wire hwire
    have hfields : (p.wireEncode.2.wireEncodeTo {}) = p.wireEncodeTo {} := by rw [fields_wireEncode]
    rw [Call.apply] at hwire ⊢
    rw [hfields]
    unfold RepoCommandParameter.wireEncode at hwire
    split at hwire
    · exact h wire hwire
    · exact hwire
  | _ =>
    intro wire hwire
    simp [Call.apply, setNodePrefix, setFrom, setTo, setName, setStartBlockId, setEndBlockId, setProcessId,
      setInterestLifetime, setClusterPrefix] at hwire

lemma afterCalls_snoc (calls : List (Call C)) (call : Call C) :
    afterCalls (calls ++ [call]) = call.apply (afterCalls calls) := List.foldl_concat ..

theorem cached_afterCalls (calls : List (Call C)) : (afterCalls calls).Cached := by
  induction calls using List.reverseRecOn with
  | nil =>
    intro wire hwire
    simp [afterCalls] at hwire
  | append_singleton calls call ih =>
    rw [afterCalls_snoc]
    exact ih.apply call

theorem fields_afterCalls (calls : List (Call C)) : (afterCalls calls).toParameterFields = Call.lastSet calls := by
  induction calls using List.reverseRecOn with
  | nil => rfl
  | append_singleton calls call ih =>
    rw [afterCalls_snoc]
    cases call with
    | wireEncode =>
      rw [Call.apply, fields_wireEncode, ih]
      simp only [Call.lastSet, Call.lastOf_snoc, Option.none_or]
    | _ =>
      simp only [Call.apply, setNodePrefix, setFrom, setTo, setName, setStartBlockId, setEndBlockId, setProcessId,
        setInterestLifetime, setClusterPrefix, ih, Call.lastSet, Call.lastOf_snoc, Option.none_or, Option.some_or]

theorem ownTypes_lastSet (h : ∀ call ∈ calls, call.OwnType) : (Call.lastSet calls).OwnTypes := by
  have hlast {α : Type} {value : Call C → Option α} {a : α} (ha : Call.lastOf calls value = some a) :
      ∃ call ∈ calls, value call = some a := List.mem_filterMap.mp (List.mem_of_getLast? ha)
  constructor
  -- each of the fields was set by a setter of the sequence
  all_goals
    intro b hb
    obtain ⟨call, hcall, hvalue⟩ := hlast hb
    have hown := h call hcall
    cases call <;> simp at hvalue
    exact hvalue ▸ hown

lemma wireDecode_eq_ok :
    p.wireDecode wire = .ok q ↔ ∃ es fields, elements wire.value = some es ∧ wire.type = tlv.RepoCommandParameter ∧
      p.decodeFields es = some fields ∧ q = { fields with mWire := some wire } := by
  unfold wireDecode
  cases elements wire.value with
  | none => simp
  | some es =>
    by_cases htype : wire.type = tlv.RepoCommandParameter
    · cases hfields : p.decodeFields es with
      | none => simp [htype, hfields]
      | some fields => simp [htype, hfields, eq_comm]
    · simp [htype]

/-- Blocks of the fields are accepted, and the fields are found in them. -/
theorem wireDecode_of_toBlock (h : p.OwnTypes) (hwire : toBlock (p.wireEncodeTo {}).buffer = some wire) :
    wireDecode {} wire = .ok { p with mWire := some wire } := by
  obtain ⟨htype, hvalue⟩ := ParameterFields.toBlock_wireEncodeTo.mp hwire
  rw [wireDecode_eq_ok]
  exact ⟨p.blocks, p.toParameterFields, elements_eq_some.mpr hvalue, htype, ParameterFields.decodeFields_blocks h, rfl⟩

lemma exists_toBlock (h : (p.blocks.flatMap Block.wire).length < 2 ^ 64) :
    ∃ wire, toBlock (p.wireEncodeTo {}).buffer = some wire :=
  ⟨⟨tlv.RepoCommandParameter, p.blocks.flatMap Block.wire, h⟩, ParameterFields.toBlock_wireEncodeTo.mpr ⟨rfl, rfl⟩⟩

lemma wireEncode_isSome_iff :
    (toBlock (p.wireEncodeTo {}).buffer).isSome ↔ (p.blocks.flatMap Block.wire).length < 2 ^ 64 := by
  rw [Option.isSome_iff_exists]
  constructor
  · rintro ⟨wire, hwire⟩
    rw [← (ParameterFields.toBlock_wireEncodeTo.mp hwire).2]
    exact wire.length_lt
  · exact exists_toBlock

/-- The wire image of the fields is the block that is decoded, whatever was encoded before. An
encoding fails only where the fields have more bytes than a length can say. -/
theorem parameter_round_trip (C : Codecs) :
    (∀ calls : List (Call C), (∀ call ∈ calls, call.OwnType) →
      ((afterCalls calls).wireEncode.1.isSome ↔ ((Call.lastSet calls).blocks.flatMap Block.wire).length < 2 ^ 64) ∧
      ∀ wire, (afterCalls calls).wireEncode.1 = some wire →
        ∃ q : RepoCommandParameter C, wireDecode {} wire = .ok q ∧ q.toParameterFields = Call.lastSet calls) ∧
    (∀ (wire : Block) (p : RepoCommandParameter C), wireDecode {} wire = .ok p →
      ∃ (again : Block) (q : RepoCommandParameter C), ({ p with mWire := none } : RepoCommandParameter C).wireEncode.1 =
        some again ∧ wireDecode {} again = .ok q ∧ q.toParameterFields = p.toParameterFields) := by
  constructor
  · intro calls htypes
    have hfields := fields_afterCalls calls
    have hown := ownTypes_lastSet htypes
    rw [(cached_afterCalls calls).wireEncode_eq]
    refine ⟨?_, ?_⟩
    · rw [wireEncode_isSome_iff, hfields]
    · intro wire hwire
      rw [← hfields] at hown
      exact ⟨_, wireDecode_of_toBlock hown hwire, hfields⟩
  · intro wire p hp
    obtain ⟨es, fields, hes, -, hdecode, rfl⟩ := wireDecode_eq_ok.mp hp
    obtain ⟨hown, hle⟩ := ParameterFields.of_decodeFields hdecode
    have hlength : (fields.blocks.flatMap Block.wire).length < 2 ^ 64 := by
      have hwire := wire.length_lt
      rw [elements_eq_some.mp hes] at hwire
      omega
    obtain ⟨again, hagain⟩ := exists_toBlock (p := { fields with mWire := none }) hlength
    exact ⟨again, _, hagain, wireDecode_of_toBlock (p := { fields with mWire := none }) hown hagain, rfl⟩

/-- Names and delegation lists are their elements. -/
def elementCodecs : Codecs := ⟨elementsCodec tlv.Name, elementsCodec tlv.ForwardingHint⟩

def nameABC : elementCodecs.name.Value :=
  ⟨⟨tlv.Name, [0x08, 0x01, 0x61, 0x08, 0x01, 0x62, 0x08, 0x01, 0x63], by decide⟩, by decide⟩

def insertCalls : List (Call elementCodecs) :=
  [.setName nameABC, .setStartBlockId 7, .wireEncode, .setStartBlockId 1, .setEndBlockId 100, .setProcessId 1234567890]

def insertWire : Block where
  type := tlv.RepoCommandParameter
  value := [0x07, 0x09, 0x08, 0x01, 0x61, 0x08, 0x01, 0x62, 0x08, 0x01, 0x63, 0xCC, 0x01, 0x01, 0xCD, 0x01, 0x64,
    0xCE, 0x04, 0x49, 0x96, 0x02, 0xD2]
  length_lt := by decide

theorem parameter_round_trip_insert :
    ∃ q : RepoCommandParameter elementCodecs, wireDecode {} insertWire = .ok q ∧
      q.toParameterFields = Call.lastSet insertCalls :=
  ((parameter_round_trip elementCodecs).1 insertCalls (by simp [insertCalls, Call.OwnType])).2 insertWire
    (by decide +kernel)

end RepoCommandParameter

end Difs.Command
