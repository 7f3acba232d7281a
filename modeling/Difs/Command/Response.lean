import Difs.Command.Parameter
import Difs.Lib.EventRun

/-!
# Command responses on the wire

`RepoCommandResponse` with its cached wire image. `setCode` hands the code to the base class and
leaves the image as it is; the other setters drop the image.
-/

namespace Difs.Command

open Tlv EventRun

structure ResponseFields where
  statusCode : Option UInt32 := none
  mProcessId : Option UInt64 := none
  mStartBlockId : Option UInt64 := none
  mEndBlockId : Option UInt64 := none
  mInsertNum : Option UInt64 := none
  mDeleteNum : Option UInt64 := none
deriving DecidableEq

structure RepoCommandResponse extends ResponseFields where
  text : String := ""
  mWire : Option Block := none
deriving DecidableEq

namespace RepoCommandResponse

def create (code : UInt32) (text : String) : RepoCommandResponse := { statusCode := some code, text := text }

def setCode (r : RepoCommandResponse) (statusCode : UInt32) : RepoCommandResponse :=
  { r with statusCode := some statusCode }

def setProcessId (r : RepoCommandResponse) (processId : UInt64) : RepoCommandResponse :=
  { r with mProcessId := some processId, mWire := none }

def setStartBlockId (r : RepoCommandResponse) (startBlockId : UInt64) : RepoCommandResponse :=
  { r with mStartBlockId := some startBlockId, mWire := none }

def setEndBlockId (r : RepoCommandResponse) (endBlockId : UInt64) : RepoCommandResponse :=
  { r with mEndBlockId := some endBlockId, mWire := none }

def setInsertNum (r : RepoCommandResponse) (insertNum : UInt64) : RepoCommandResponse :=
  { r with mInsertNum := some insertNum, mWire := none }

def setDeleteNum (r : RepoCommandResponse) (deleteNum : UInt64) : RepoCommandResponse :=
  { r with mDeleteNum := some deleteNum, mWire := none }

end RepoCommandResponse

namespace ResponseFields

def wireEncodeTo (r : ResponseFields) (encoder : Encoder) : Except Error Encoder :=
  let encoder := encoder.prependSome r.mDeleteNum (fun e m => e.prependInteger tlv.DeleteNum m)
  let encoder := encoder.prependSome r.mInsertNum (fun e m => e.prependInteger tlv.InsertNum m)
  let encoder := encoder.prependSome r.mEndBlockId (fun e m => e.prependInteger tlv.EndBlockId m)
  let encoder := encoder.prependSome r.mStartBlockId (fun e m => e.prependInteger tlv.StartBlockId m)
  match r.statusCode with
  | none => .error (.command "required field StatusCode is missing")
  | some code =>
    let encoder := encoder.prependInteger tlv.StatusCode code.toUInt64
    let encoder := encoder.prependSome r.mProcessId (fun e m => e.prependInteger tlv.ProcessId m)
    .ok (encoder.close tlv.RepoCommandResponse)

def readNumber (b : Block) : Option UInt64 := readNonNegativeInteger b.value

/-- An element that is no integer is an error. -/
def readField {α : Type} (field : Option α) : Except Error α :=
  match field with
  | none => .error .tlv
  | some a => .ok a

/-- The insert and delete numbers are read last, and not at all where the code is missing. -/
def decodeFields (es : List Block) : Except Error ResponseFields := do
  let startBlockId ← readField (decodeField es tlv.StartBlockId readNumber none)
  let endBlockId ← readField (decodeField es tlv.EndBlockId readNumber none)
  let processId ← readField (decodeField es tlv.ProcessId readNumber none)
  let statusCode ← readField (decodeField es tlv.StatusCode (fun b => (readNumber b).map UInt64.toUInt32) none)
  if statusCode.isNone then .error (.command "required field StatusCode is missing")
  else
    let insertNum ← readField (decodeField es tlv.InsertNum readNumber none)
    let deleteNum ← readField (decodeField es tlv.DeleteNum readNumber none)
    return {
      statusCode := statusCode
      mProcessId := processId
      mStartBlockId := startBlockId
      mEndBlockId := endBlockId
      mInsertNum := insertNum
      mDeleteNum := deleteNum }

end ResponseFields

namespace RepoCommandResponse

def wireEncode (r : RepoCommandResponse) : Except Error Block × RepoCommandResponse :=
  match r.mWire with
  | some wire => (.ok wire, r)
  | none =>
    match r.wireEncodeTo {} with
    | .error e => (.error e, r)
    | .ok encoder =>
      match toBlock encoder.buffer with
      | none => (.error .tlv, r)
      | some wire => (.ok wire, { r with mWire := some wire })

/-- All flags are dropped first, so nothing of the object stays but its text. -/
def wireDecode (r : RepoCommandResponse) (wire : Block) : Except Error RepoCommandResponse :=
  match elements wire.value with
  | none => .error .tlv
  | some es =>
    if wire.type ≠ tlv.RepoCommandResponse then .error (.command "RepoCommandResponse malformed")
    else
      match ResponseFields.decodeFields es with
      | .error e => .error e
      | .ok fields => .ok { fields with text := r.text, mWire := some wire }

end RepoCommandResponse

/-! ### The encoding of the fields -/

namespace ResponseFields

/-- The blocks of the fields in the order of the wire. -/
def fieldBlocks (r : ResponseFields) : List (BlockType × Option Block) :=
  [(tlv.ProcessId, r.mProcessId.map (integerBlock tlv.ProcessId)),
    (tlv.StatusCode, r.statusCode.map (fun code => integerBlock tlv.StatusCode code.toUInt64)),
    (tlv.StartBlockId, r.mStartBlockId.map (integerBlock tlv.StartBlockId)),
    (tlv.EndBlockId, r.mEndBlockId.map (integerBlock tlv.EndBlockId)),
    (tlv.InsertNum, r.mInsertNum.map (integerBlock tlv.InsertNum)),
    (tlv.DeleteNum, r.mDeleteNum.map (integerBlock tlv.DeleteNum))]

def blocks (r : ResponseFields) : List Block := present r.fieldBlocks

variable {r r' : ResponseFields}

lemma nodup_fieldBlocks (r : ResponseFields) : (r.fieldBlocks.map Prod.fst).Nodup := by
  have htypes : r.fieldBlocks.map Prod.fst = [tlv.ProcessId, tlv.StatusCode, tlv.StartBlockId, tlv.EndBlockId,
    tlv.InsertNum, tlv.DeleteNum] := rfl
  rw [htypes]
  decide

lemma integer_of_fieldBlocks (r : ResponseFields) :
    ∀ field ∈ r.fieldBlocks, ∀ b ∈ field.2, ∃ m, b = integerBlock field.1 m := by
  unfold fieldBlocks
  simp only [List.forall_mem_cons, Option.mem_def, Option.map_eq_some_iff, forall_exists_index, and_imp,
    forall_apply_eq_imp_iff₂, List.not_mem_nil, IsEmpty.forall_iff, implies_true, and_true]
  simp

lemma type_of_fieldBlocks (r : ResponseFields) : ∀ field ∈ r.fieldBlocks, ∀ b ∈ field.2, b.type = field.1 := by
  intro field hfield b hb
  obtain ⟨m, rfl⟩ := r.integer_of_fieldBlocks field hfield b hb
  rfl

lemma length_blocks_lt (r : ResponseFields) : (r.blocks.flatMap Block.wire).length < 2 ^ 64 := by
  have hwire : ∀ n ∈ r.blocks.map (fun b => b.wire.length), n ≤ 26 := by
    intro n hn
    obtain ⟨b, hb, rfl⟩ := List.mem_map.mp hn
    obtain ⟨field, hfield, hsome⟩ := List.mem_filterMap.mp hb
    obtain ⟨m, rfl⟩ := r.integer_of_fieldBlocks field hfield b hsome
    exact length_integerBlock_wire_le field.1 m
  have hlength : r.blocks.length ≤ 6 := List.length_filterMap_le _ _
  have hsum := List.sum_le_card_nsmul _ _ hwire
  rw [List.length_map, smul_eq_mul] at hsum
  rw [List.length_flatMap]
  omega

/-- The wire image that the fields have. -/
def image (r : ResponseFields) : Block := ⟨tlv.RepoCommandResponse, r.blocks.flatMap Block.wire, r.length_blocks_lt⟩

theorem wireEncodeTo_eq (h : r.statusCode.isSome) :
    r.wireEncodeTo {} = .ok ((Encoder.ofBlocks r.blocks).close tlv.RepoCommandResponse) := by
  have hempty : ({} : Encoder) = Encoder.ofBlocks (present []) := rfl
  have hinteger (type : BlockType) (e : Encoder) (m : UInt64) :
      e.prependInteger type m = e.prependBlock (integerBlock type m) := Encoder.prependInteger_eq e type m
  obtain ⟨code, hcode⟩ := Option.isSome_iff_exists.mp h
  have hstatus (e : Encoder) : e.prependInteger tlv.StatusCode code.toUInt64 =
      e.prependSome r.statusCode (fun e code => e.prependInteger tlv.StatusCode code.toUInt64) := by
    rw [hcode]
    rfl
  unfold wireEncodeTo blocks fieldBlocks
  dsimp only
  rw [hempty, Encoder.prependSome_ofBlocks (hinteger tlv.DeleteNum) _ tlv.DeleteNum,
    Encoder.prependSome_ofBlocks (hinteger tlv.InsertNum) _ tlv.InsertNum,
    Encoder.prependSome_ofBlocks (hinteger tlv.EndBlockId) _ tlv.EndBlockId,
    Encoder.prependSome_ofBlocks (hinteger tlv.StartBlockId) _ tlv.StartBlockId]
  split
  · rename_i hnone
    rw [hnone] at hcode
    cases hcode
  · rename_i code' hsome
    rw [hcode, Option.some.injEq] at hsome
    rw [← hsome, hstatus, Encoder.prependSome_ofBlocks (fun e code => hinteger tlv.StatusCode e code.toUInt64) _
      tlv.StatusCode, Encoder.prependSome_ofBlocks (hinteger tlv.ProcessId) _ tlv.ProcessId]

lemma readField_bind_eq_ok {α β : Type} {field : Option α} {f : α → Except Error β} {b : β} :
    (readField field >>= f) = .ok b ↔ ∃ a, field = some a ∧ f a = .ok b := by
  cases field with
  | none => exact iff_of_false nofun nofun
  | some a =>
    simp only [Option.some.injEq, exists_eq_left']
    rfl

lemma decodeFields_eq_ok {es : List Block} {fields : ResponseFields} : decodeFields es = .ok fields ↔
    (decodeField es tlv.StartBlockId readNumber none = some fields.mStartBlockId ∧
      decodeField es tlv.EndBlockId readNumber none = some fields.mEndBlockId ∧
      decodeField es tlv.ProcessId readNumber none = some fields.mProcessId ∧
      decodeField es tlv.StatusCode (fun b => (readNumber b).map UInt64.toUInt32) none = some fields.statusCode ∧
      decodeField es tlv.InsertNum readNumber none = some fields.mInsertNum ∧
      decodeField es tlv.DeleteNum readNumber none = some fields.mDeleteNum) ∧ fields.statusCode.isSome := by
  unfold decodeFields
  simp only [readField_bind_eq_ok]
  constructor
  · rintro ⟨startBlockId, hstart, endBlockId, hend, processId, hprocess, statusCode, hcode, h⟩
    by_cases hnone : statusCode.isNone
    · rw [if_pos hnone] at h
      cases h
    · rw [if_neg hnone] at h
      simp only [readField_bind_eq_ok] at h
      obtain ⟨insertNum, hinsert, deleteNum, hdelete, hfields⟩ := h
      rw [← Except.ok.inj hfields]
      exact ⟨⟨hstart, hend, hprocess, hcode, hinsert, hdelete⟩, by simpa [Option.isSome_iff_ne_none] using hnone⟩
  · rintro ⟨⟨hstart, hend, hprocess, hcode, hinsert, hdelete⟩, hsome⟩
    refine ⟨_, hstart, _, hend, _, hprocess, _, hcode, ?_⟩
    rw [if_neg (by simpa [Option.isSome_iff_ne_none] using hsome)]
    simp only [readField_bind_eq_ok]
    exact ⟨_, hinsert, _, hdelete, rfl⟩

theorem decodeFields_blocks {r : ResponseFields} (h : r.statusCode.isSome) : decodeFields r.blocks = .ok r := by
  have hinteger (type : BlockType) (m : UInt64) : readNumber (integerBlock type m) = some m :=
    readNonNegativeInteger_nonNegativeInteger m
  have hcode (code : UInt32) :
      (readNumber (integerBlock tlv.StatusCode code.toUInt64)).map UInt64.toUInt32 = some code := by
    rw [hinteger, Option.map_some, UInt32.toUInt32_toUInt64]
  have hfield {α : Type} {type : BlockType} {decode : Block → Option α} (field : Option α) (encode : α → Block)
      (hcodec : ∀ a, decode (encode a) = some a) (hmem : (type, field.map encode) ∈ r.fieldBlocks) :
      decodeField r.blocks type decode none = some field :=
    decodeField_present r.type_of_fieldBlocks r.nodup_fieldBlocks field encode hcodec hmem
  apply decodeFields_eq_ok.mpr
  refine ⟨⟨hfield r.mStartBlockId _ (hinteger tlv.StartBlockId) (by simp [fieldBlocks]),
    hfield r.mEndBlockId _ (hinteger tlv.EndBlockId) (by simp [fieldBlocks]),
    hfield r.mProcessId _ (hinteger tlv.ProcessId) (by simp [fieldBlocks]),
    hfield r.statusCode _ hcode (by simp [fieldBlocks]),
    hfield r.mInsertNum _ (hinteger tlv.InsertNum) (by simp [fieldBlocks]),
    hfield r.mDeleteNum _ (hinteger tlv.DeleteNum) (by simp [fieldBlocks])⟩, h⟩

end ResponseFields

/-! ### What an encoding returns -/

namespace RepoCommandResponse

variable {r : RepoCommandResponse}

lemma toBlock_image {f : ResponseFields} :
    toBlock ((Encoder.ofBlocks f.blocks).close tlv.RepoCommandResponse).buffer = some f.image :=
  Encoder.toBlock_close.mpr ⟨rfl, rfl⟩

lemma wireEncode_of_none (h : r.mWire = none) (hcode : r.statusCode.isSome) :
    r.wireEncode = (.ok r.image, { r with mWire := some r.image }) := by
  unfold wireEncode
  rw [h]
  dsimp only
  rw [ResponseFields.wireEncodeTo_eq hcode]
  dsimp only
  rw [toBlock_image]

lemma wireEncode_of_some {wire : Block} (h : r.mWire = some wire) : r.wireEncode = (.ok wire, r) := by
  unfold wireEncode
  rw [h]

theorem wireDecode_image {f : ResponseFields} (hcode : f.statusCode.isSome) :
    r.wireDecode f.image = .ok { f with text := r.text, mWire := some f.image } := by
  have helements : elements f.image.value = some f.blocks := elements_eq_some.mpr rfl
  have htype : ¬ f.image.type ≠ tlv.RepoCommandResponse := fun h => h rfl
  unfold wireDecode
  rw [helements]
  dsimp only
  rw [if_neg htype, ResponseFields.decodeFields_blocks hcode]

/-- The bytes that `wireEncode` returns say what the fields are. -/
def Current (r : RepoCommandResponse) : Prop :=
  ∃ wire q, r.wireEncode.1 = .ok wire ∧ wireDecode {} wire = .ok q ∧ q.toResponseFields = r.toResponseFields

lemma current_of_none (h : r.mWire = none) (hcode : r.statusCode.isSome) : Current r := by
  refine ⟨r.image, _, ?_, wireDecode_image hcode, rfl⟩
  rw [wireEncode_of_none h hcode]

lemma current_iff_of_image {f : ResponseFields} (hcode : f.statusCode.isSome) (h : r.mWire = some f.image) :
    Current r ↔ f = r.toResponseFields := by
  unfold Current
  rw [wireEncode_of_some h]
  constructor
  · intro hcurrent
    obtain ⟨wire, q, hwire, hdecode, hfields⟩ := hcurrent
    rw [← Except.ok.inj hwire, wireDecode_image hcode] at hdecode
    rw [← hfields, ← Except.ok.inj hdecode]
  · rintro rfl
    exact ⟨_, _, rfl, wireDecode_image hcode, rfl⟩

end RepoCommandResponse

/-! ### Sequences of calls -/

namespace Response

inductive Call where
  | setCode (statusCode : UInt32)
  | setProcessId (processId : UInt64)
  | setStartBlockId (startBlockId : UInt64)
  | setEndBlockId (endBlockId : UInt64)
  | setInsertNum (insertNum : UInt64)
  | setDeleteNum (deleteNum : UInt64)
  | wireEncode
deriving DecidableEq

namespace Call

def apply (r : RepoCommandResponse) : Call → RepoCommandResponse
  | setCode statusCode => r.setCode statusCode
  | setProcessId processId => r.setProcessId processId
  | setStartBlockId startBlockId => r.setStartBlockId startBlockId
  | setEndBlockId endBlockId => r.setEndBlockId endBlockId
  | setInsertNum insertNum => r.setInsertNum insertNum
  | setDeleteNum deleteNum => r.setDeleteNum deleteNum
  | wireEncode => r.wireEncode.2

/-- The calls after which a kept wire image is still kept. -/
def KeepsWire : Call → Prop
  | setCode _ => True
  | wireEncode => True
  | _ => False

def newCode : Call → Option UInt32
  | setCode statusCode => some statusCode
  | _ => none

end Call

def callStep (r : RepoCommandResponse) (call : Call) : Option RepoCommandResponse := some (call.apply r)

/-- Every encoding in a sequence of calls returns the current fields. -/
def NeverStale (r : RepoCommandResponse) (calls : List Call) : Prop :=
  Meets callStep (fun s call => call = .wireEncode → s.Current) r calls

def codeAfter (code : UInt32) (calls : List Call) : UInt32 := (calls.filterMap Call.newCode).getLastD code

/-- At each encoding before the first setter other than `setCode` the code is `kept`. -/
def EncodesAs (kept code : UInt32) (calls : List Call) : Prop :=
  ∀ mid post, calls = mid ++ .wireEncode :: post → (∀ call ∈ mid, call.KeepsWire) → codeAfter code mid = kept

/-- Two encodings with no setter but `setCode` between them have the same code. -/
def CodesAgree (code : UInt32) (calls : List Call) : Prop :=
  ∀ pre post, calls = pre ++ .wireEncode :: post → EncodesAs (codeAfter code pre) (codeAfter code pre) post

variable {r : RepoCommandResponse} {code kept : UInt32} {call : Call} {calls : List Call}

lemma neverStale_cons :
    NeverStale r (call :: calls) ↔ (call = .wireEncode → r.Current) ∧ NeverStale (call.apply r) calls := by
  simp only [NeverStale, Meets, callStep, Option.some.injEq, forall_eq']

lemma codeAfter_cons (code : UInt32) (call : Call) (calls : List Call) :
    codeAfter code (call :: calls) = codeAfter (call.newCode.getD code) calls := by
  unfold codeAfter
  cases h : call.newCode with
  | none => rw [List.filterMap_cons_none h, Option.getD_none]
  | some c => rw [List.filterMap_cons_some h, List.getLastD_cons, Option.getD_some]

lemma encodesAs_cons : EncodesAs kept code (call :: calls) ↔
    (call = .wireEncode → code = kept) ∧ (call.KeepsWire → EncodesAs kept (call.newCode.getD code) calls) := by
  constructor
  · intro h
    constructor
    · rintro rfl
      exact h [] calls rfl (by simp)
    · intro hkeeps mid post heq hmid
      rw [← codeAfter_cons]
      apply h (call :: mid) post
      · rw [heq, List.cons_append]
      · exact List.forall_mem_cons.mpr ⟨hkeeps, hmid⟩
  · intro h mid post heq hmid
    cases mid with
    | nil => exact h.1 (List.cons.inj heq).1
    | cons call' mid =>
      obtain ⟨rfl, hcalls⟩ := List.cons.inj heq
      rw [List.forall_mem_cons] at hmid
      rw [codeAfter_cons]
      exact h.2 hmid.1 mid post hcalls hmid.2

lemma codesAgree_cons : CodesAgree code (call :: calls) ↔
    (call = .wireEncode → EncodesAs code code calls) ∧ CodesAgree (call.newCode.getD code) calls := by
  constructor
  · intro h
    constructor
    · rintro rfl
      exact h [] calls rfl
    · intro pre post heq
      rw [← codeAfter_cons]
      exact h (call :: pre) post (by rw [heq, List.cons_append])
  · intro h pre post heq
    cases pre with
    | nil =>
      obtain ⟨rfl, rfl⟩ := List.cons.inj heq
      exact h.1 rfl
    | cons call' pre =>
      obtain ⟨rfl, hcalls⟩ := List.cons.inj heq
      rw [codeAfter_cons]
      exact h.2 pre post hcalls

lemma neverStale_wireEncode : NeverStale r (.wireEncode :: calls) ↔ r.Current ∧ NeverStale r.wireEncode.2 calls := by
  rw [neverStale_cons, imp_iff_right rfl]
  rfl

lemma encodesAs_wireEncode :
    EncodesAs kept code (.wireEncode :: calls) ↔ code = kept ∧ EncodesAs kept code calls := by
  have hkeeps : Call.KeepsWire .wireEncode := trivial
  rw [encodesAs_cons, imp_iff_right rfl, imp_iff_right hkeeps]
  rfl

lemma codesAgree_wireEncode :
    CodesAgree code (.wireEncode :: calls) ↔ EncodesAs code code calls ∧ CodesAgree code calls := by
  rw [codesAgree_cons, imp_iff_right rfl]
  rfl

lemma neverStale_setter (h : call ≠ .wireEncode) : NeverStale r (call :: calls) ↔ NeverStale (call.apply r) calls := by
  rw [neverStale_cons]
  exact and_iff_right (fun heq => absurd heq h)

lemma encodesAs_setter (h : call ≠ .wireEncode) :
    EncodesAs kept code (call :: calls) ↔ (call.KeepsWire → EncodesAs kept (call.newCode.getD code) calls) := by
  rw [encodesAs_cons]
  exact and_iff_right (fun heq => absurd heq h)

lemma codesAgree_setter (h : call ≠ .wireEncode) :
    CodesAgree code (call :: calls) ↔ CodesAgree (call.newCode.getD code) calls := by
  rw [codesAgree_cons]
  exact and_iff_right (fun heq => absurd heq h)

lemma Call.apply_of_not_keepsWire (h : ¬ call.KeepsWire) (r : RepoCommandResponse) :
    (call.apply r).mWire = none ∧ (call.apply r).statusCode = r.statusCode ∧ call.newCode = none := by
  cases call with
  | setCode c => exact absurd trivial h
  | wireEncode => exact absurd trivial h
  | _ => exact ⟨rfl, rfl, rfl⟩

/-- The image that a response keeps is the image of its fields, but for the code. -/
structure Keeps (r : RepoCommandResponse) (kept code : UInt32) : Prop where
  code_eq : r.statusCode = some code
  wire_eq : r.mWire = some ({ r.toResponseFields with statusCode := some kept } : ResponseFields).image

lemma Keeps.current_iff (h : Keeps r kept code) : r.Current ↔ code = kept := by
  rw [RepoCommandResponse.current_iff_of_image rfl h.wire_eq]
  have hcode := h.code_eq
  obtain ⟨⟨status, processId, startBlockId, endBlockId, insertNum, deleteNum⟩, text, wire⟩ := r
  dsimp only at hcode
  rw [hcode, ResponseFields.mk.injEq]
  simp only [Option.some.injEq, and_true]
  exact eq_comm

lemma Keeps.wireEncode (h : Keeps r kept code) : r.wireEncode.2 = r := by
  rw [RepoCommandResponse.wireEncode_of_some h.wire_eq]

lemma Keeps.setCode (h : Keeps r kept code) (c : UInt32) : Keeps (r.setCode c) kept c := ⟨rfl, h.wire_eq⟩

lemma keeps_wireEncode (hwire : r.mWire = none) (hcode : r.statusCode = some code) :
    Keeps r.wireEncode.2 code code := by
  rw [RepoCommandResponse.wireEncode_of_none hwire (by rw [hcode]; rfl)]
  refine ⟨hcode, ?_⟩
  rw [← hcode]

/-- With no image kept only later encodings matter; with one kept the codes up to the next setter do. -/
theorem neverStale_cases (calls : List Call) :
    ∀ (r : RepoCommandResponse) (code : UInt32),
      (r.mWire = none → r.statusCode = some code → (NeverStale r calls ↔ CodesAgree code calls)) ∧
      ∀ kept, Keeps r kept code → (NeverStale r calls ↔ EncodesAs kept code calls ∧ CodesAgree code calls) := by
  induction calls with
  | nil =>
    intro r code
    simp [NeverStale, Meets, CodesAgree, EncodesAs]
  | cons call calls ih =>
    intro r code
    by_cases hencode : call = .wireEncode
    · rw [hencode]
      constructor
      · intro hwire hcode
        have hcurrent := RepoCommandResponse.current_of_none hwire (by rw [hcode]; rfl)
        rw [neverStale_wireEncode, codesAgree_wireEncode, (ih _ code).2 code (keeps_wireEncode hwire hcode)]
        exact and_iff_right hcurrent
      · intro kept hkeeps
        rw [neverStale_wireEncode, encodesAs_wireEncode, codesAgree_wireEncode, hkeeps.current_iff, hkeeps.wireEncode,
          (ih r code).2 kept hkeeps]
        constructor
        · rintro ⟨rfl, hencodes, hagree⟩
          exact ⟨⟨rfl, hencodes⟩, hencodes, hagree⟩
        · rintro ⟨⟨rfl, hencodes⟩, -, hagree⟩
          exact ⟨rfl, hencodes, hagree⟩
    · rw [neverStale_setter hencode, codesAgree_setter hencode]
      by_cases hdrops : ¬ call.KeepsWire
      · obtain ⟨hwire, hstatus, hnew⟩ := Call.apply_of_not_keepsWire hdrops r
        rw [hnew, Option.getD_none]
        constructor
        · intro _ hcode
          exact (ih _ code).1 hwire (hstatus.trans hcode)
        · intro kept hkeeps
          rw [encodesAs_setter hencode, (ih _ code).1 hwire (hstatus.trans hkeeps.code_eq)]
          exact (and_iff_right (fun h => absurd h hdrops)).symm
      · cases call with
        | wireEncode => exact absurd rfl hencode
        | setCode c =>
          constructor
          · intro hwire _
            exact (ih _ c).1 hwire rfl
          · intro kept hkeeps
            rw [encodesAs_setter hencode, imp_iff_right (not_not.mp hdrops)]
            exact (ih _ c).2 kept (hkeeps.setCode c)
        | _ => exact absurd id hdrops

theorem neverStale_create_iff (code : UInt32) (text : String) (calls : List Call) :
    NeverStale (.create code text) calls ↔ CodesAgree code calls :=
  (neverStale_cases calls (.create code text) code).1 rfl rfl

/-! ### Round trips and rejections -/

/-- The response after setters, before it is encoded for the first time. -/
def afterCalls (code : UInt32) (text : String) (calls : List Call) : RepoCommandResponse :=
  calls.foldl Call.apply (.create code text)

def lastOf {α : Type} (calls : List Call) (value : Call → Option α) : Option α := (calls.filterMap value).getLast?

/-- The last values that were set. The code is there from the beginning. -/
def lastSet (code : UInt32) (calls : List Call) : ResponseFields where
  statusCode := some (codeAfter code calls)
  mProcessId := lastOf calls (fun | .setProcessId processId => some processId | _ => none)
  mStartBlockId := lastOf calls (fun | .setStartBlockId startBlockId => some startBlockId | _ => none)
  mEndBlockId := lastOf calls (fun | .setEndBlockId endBlockId => some endBlockId | _ => none)
  mInsertNum := lastOf calls (fun | .setInsertNum insertNum => some insertNum | _ => none)
  mDeleteNum := lastOf calls (fun | .setDeleteNum deleteNum => some deleteNum | _ => none)

def fieldTypes : List BlockType :=
  [tlv.StartBlockId, tlv.EndBlockId, tlv.ProcessId, tlv.StatusCode, tlv.InsertNum, tlv.DeleteNum]

lemma lastOf_snoc {α : Type} (calls : List Call) (call : Call) (value : Call → Option α) :
    lastOf (calls ++ [call]) value = (value call).or (lastOf calls value) := by
  unfold lastOf
  rw [List.filterMap_append, List.getLast?_append]
  cases h : value call <;> simp [h]

lemma codeAfter_snoc (code : UInt32) (calls : List Call) (call : Call) :
    codeAfter code (calls ++ [call]) = call.newCode.getD (codeAfter code calls) := by
  unfold codeAfter
  rw [List.filterMap_append, List.getLastD_eq_getLast?, List.getLastD_eq_getLast?, List.getLast?_append]
  cases h : call.newCode <;> simp [h]

lemma afterCalls_snoc (code : UInt32) (text : String) (calls : List Call) (call : Call) :
    afterCalls code text (calls ++ [call]) = call.apply (afterCalls code text calls) := List.foldl_concat ..

/-- A setter changes its own field only, and keeps an image that was not made yet absent. -/
lemma afterCalls_eq {text : String} (h : ∀ call ∈ calls, call ≠ .wireEncode) :
    afterCalls code text calls = { lastSet code calls with text := text } := by
  induction calls using List.reverseRecOn with
  | nil => rfl
  | append_singleton calls call ih =>
    have hcall : call ≠ .wireEncode := h call (List.mem_append_right _ List.mem_cons_self)
    rw [afterCalls_snoc, ih (fun c hc => h c (List.mem_append_left _ hc))]
    cases call with
    | wireEncode => exact absurd rfl hcall
    | _ =>
      simp only [Call.apply, RepoCommandResponse.setCode, RepoCommandResponse.setProcessId,
        RepoCommandResponse.setStartBlockId, RepoCommandResponse.setEndBlockId, RepoCommandResponse.setInsertNum,
        RepoCommandResponse.setDeleteNum, lastSet, lastOf_snoc, codeAfter_snoc, Call.newCode, Option.none_or,
        Option.some_or, Option.getD_none, Option.getD_some]

lemma readNumber_eq_none {b : Block} : ResponseFields.readNumber b = none ↔ b.value.length ∉ [1, 2, 4, 8] := by
  unfold ResponseFields.readNumber readNonNegativeInteger
  by_cases hlength : b.value.length ∈ [1, 2, 4, 8]
  · rw [if_pos hlength]
    exact iff_of_false (Option.some_ne_none _) (not_not.mpr hlength)
  · rw [if_neg hlength]
    exact iff_of_true rfl hlength

lemma decodeField_number_eq_none {es : List Block} (type : BlockType) :
    decodeField es type ResponseFields.readNumber none = none ↔
      ∃ b, find es type = some b ∧ b.value.length ∉ [1, 2, 4, 8] := by
  rw [decodeField_eq_none]
  simp only [readNumber_eq_none]

lemma decodeField_code_eq_none {es : List Block} :
    decodeField es tlv.StatusCode (fun b => (ResponseFields.readNumber b).map UInt64.toUInt32) none = none ↔
      ∃ b, find es tlv.StatusCode = some b ∧ b.value.length ∉ [1, 2, 4, 8] := by
  rw [decodeField_eq_none]
  simp only [Option.map_eq_none_iff, readNumber_eq_none]

/-- The reading of an element that is there leaves no field out. -/
lemma isNone_of_decodeField {es : List Block} {type : BlockType} {decode : Block → Option α} {field : Option α}
    (h : decodeField es type decode none = some field) : field.isNone ↔ find es type = none := by
  constructor
  · intro hnone
    rw [Option.isNone_iff_eq_none.mp hnone] at h
    exact find_eq_none_of_decodeField h
  · intro hfind
    unfold decodeField at h
    rw [hfind] at h
    rw [← Option.some.inj h]
    rfl

lemma decodeFields_ok_iff {es : List Block} : (∃ fields, ResponseFields.decodeFields es = .ok fields) ↔
    find es tlv.StatusCode ≠ none ∧
      ∀ type ∈ fieldTypes, ¬ ∃ b, find es type = some b ∧ b.value.length ∉ [1, 2, 4, 8] := by
  simp only [ResponseFields.decodeFields_eq_ok]
  constructor
  · rintro ⟨fields, ⟨hstart, hend, hprocess, hcode, hinsert, hdelete⟩, hsome⟩
    constructor
    · intro hfind
      rw [← isNone_of_decodeField hcode] at hfind
      simp [Option.isNone_iff_eq_none.mp hfind] at hsome
    · have hvalid {type : BlockType} {field : Option UInt64}
          (hfield : decodeField es type ResponseFields.readNumber none = some field) :
          ¬ ∃ b, find es type = some b ∧ b.value.length ∉ [1, 2, 4, 8] := by
        rw [← decodeField_number_eq_none, hfield]
        exact Option.some_ne_none field
      simp only [fieldTypes, List.forall_mem_cons, List.not_mem_nil, IsEmpty.forall_iff, implies_true, and_true]
      refine ⟨hvalid hstart, hvalid hend, hvalid hprocess, ?_, hvalid hinsert, hvalid hdelete⟩
      rw [← decodeField_code_eq_none, hcode]
      exact Option.some_ne_none _
  · rintro ⟨hfind, hvalid⟩
    have hsome (type : BlockType) (htype : type ∈ fieldTypes) : ∃ field,
        decodeField es type ResponseFields.readNumber none = some field := by
      apply Option.ne_none_iff_exists'.mp
      intro hfield
      exact hvalid type htype ((decodeField_number_eq_none type).mp hfield)
    obtain ⟨startBlockId, hstart⟩ := hsome tlv.StartBlockId (by decide)
    obtain ⟨endBlockId, hend⟩ := hsome tlv.EndBlockId (by decide)
    obtain ⟨processId, hprocess⟩ := hsome tlv.ProcessId (by decide)
    obtain ⟨insertNum, hinsert⟩ := hsome tlv.InsertNum (by decide)
    obtain ⟨deleteNum, hdelete⟩ := hsome tlv.DeleteNum (by decide)
    obtain ⟨statusCode, hcode⟩ := Option.ne_none_iff_exists'.mp
      (fun hfield => hvalid tlv.StatusCode (by decide) (decodeField_code_eq_none.mp hfield))
    refine ⟨⟨statusCode, processId, startBlockId, endBlockId, insertNum, deleteNum⟩,
      ⟨hstart, hend, hprocess, hcode, hinsert, hdelete⟩, ?_⟩
    rw [Option.isSome_iff_ne_none, ne_eq, ← Option.isNone_iff_eq_none, isNone_of_decodeField hcode]
    exact hfind

lemma wireDecode_error_iff {wire : Block} {es : List Block} (h : elements wire.value = some es) :
    (∃ e, r.wireDecode wire = .error e) ↔ wire.type ≠ tlv.RepoCommandResponse ∨ find es tlv.StatusCode = none ∨
      ∃ type ∈ fieldTypes, ∃ b, find es type = some b ∧ b.value.length ∉ [1, 2, 4, 8] := by
  unfold RepoCommandResponse.wireDecode
  rw [h]
  dsimp only
  by_cases htype : wire.type ≠ tlv.RepoCommandResponse
  · rw [if_pos htype]
    exact iff_of_true ⟨_, rfl⟩ (Or.inl htype)
  · rw [if_neg htype, or_iff_right htype]
    have hok : (¬ ∃ fields, ResponseFields.decodeFields es = .ok fields) ↔ find es tlv.StatusCode = none ∨
        ∃ type ∈ fieldTypes, ∃ b, find es type = some b ∧ b.value.length ∉ [1, 2, 4, 8] := by
      rw [decodeFields_ok_iff, not_and_or, not_not]
      simp only [not_forall, not_not, exists_prop]
    rw [← hok]
    cases ResponseFields.decodeFields es with
    | error e => exact iff_of_true ⟨_, rfl⟩ nofun
    | ok fields =>
      refine iff_of_false ?_ (fun hnone => hnone ⟨fields, rfl⟩)
      rintro ⟨e, he⟩
      cases he

/-- What the setters left is what is read back, whatever the reading object was before. A block of
elements is rejected for its type, for a missing code, or for a number of a length that is none. -/
theorem response_round_trip :
    (∀ (code : UInt32) (text : String) (calls : List Call) (r : RepoCommandResponse),
      (∀ call ∈ calls, call ≠ .wireEncode) →
        ∃ wire q, (afterCalls code text calls).wireEncode.1 = .ok wire ∧ r.wireDecode wire = .ok q ∧
          q.toResponseFields = lastSet code calls) ∧
    (∀ (wire : Block) (es : List Block) (r : RepoCommandResponse), elements wire.value = some es →
      ((∃ e, r.wireDecode wire = .error e) ↔ wire.type ≠ tlv.RepoCommandResponse ∨ find es tlv.StatusCode = none ∨
        ∃ type ∈ fieldTypes, ∃ b, find es type = some b ∧ b.value.length ∉ [1, 2, 4, 8])) := by
  constructor
  · intro code text calls r hcalls
    have heq : afterCalls code text calls = { lastSet code calls with text := text } := afterCalls_eq hcalls
    have hcode : (lastSet code calls).statusCode.isSome := rfl
    refine ⟨(lastSet code calls).image, _, ?_, RepoCommandResponse.wireDecode_image hcode, rfl⟩
    rw [heq, RepoCommandResponse.wireEncode_of_none rfl hcode]
  · intro wire es r hes
    exact wireDecode_error_iff hes

def insertedCalls : List Call := [.setProcessId 1234567890, .setInsertNum 100, .setStartBlockId 1, .setEndBlockId 100]

/-- A response with a number of three bytes. -/
def longNumber : Block where
  type := tlv.RepoCommandResponse
  value := [0xD0, 0x01, 0xC8, 0xD1, 0x03, 0x01, 0x02, 0x03]
  length_lt := by decide

theorem response_round_trip_inserted :
    (∃ wire q, (afterCalls 200 "" insertedCalls).wireEncode.1 = .ok wire ∧
      (RepoCommandResponse.create 404 "").wireDecode wire = .ok q ∧ q.toResponseFields = lastSet 200 insertedCalls) ∧
    ∃ e, (RepoCommandResponse.create 404 "").wireDecode longNumber = .error e := by
  have hes : elements longNumber.value = some [⟨tlv.StatusCode, [0xC8], by decide⟩,
      ⟨tlv.InsertNum, [0x01, 0x02, 0x03], by decide⟩] := by decide
  constructor
  · exact response_round_trip.1 200 "" insertedCalls (.create 404 "") (by decide)
  · apply (response_round_trip.2 longNumber _ (.create 404 "") hes).mpr
    exact Or.inr (Or.inr ⟨tlv.InsertNum, by decide, _, rfl, by decide⟩)

end Response

end Difs.Command
