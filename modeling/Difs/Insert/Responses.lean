import Difs.Command.Response
import Difs.Insert.Keys

/-!
# The stored response of an insert process

The calls that the handlers of the write handle make on the response object of a process, from
the insert command on. Each check encodes the object; the other handlers only set its fields.
The object of a process follows the process map of the write handle through every history.
-/

namespace Difs

open EventRun Command.Response

/-- What can happen to a process. An insert without segments is a single one; `late` says that
the process has waited longer than it should. -/
inductive ProcessStep where
  | insert (processId : UInt64) (segments : Option (UInt64 × Option UInt64))
  | onSegmentData (inserted late : Bool)
  | handleCheckCommand (late : Bool)

def afterCalls (r : Command.RepoCommandResponse) (calls : List Call) : Command.RepoCommandResponse :=
  calls.foldl Call.apply r

namespace ProcessStep

def insertCalls (processId : UInt64) (segments : Option (UInt64 × Option UInt64)) : List Call :=
  let ids : List Call := match segments with
    | none => []
    | some (startBlockId, endBlockId) => .setStartBlockId startBlockId :: (endBlockId.map .setEndBlockId).toList
  [.setCode 100, .setProcessId processId, .setInsertNum 0] ++ ids ++ [.wireEncode, .wireEncode, .setCode 300]

def countCalls (r : Command.RepoCommandResponse) (inserted : Bool) : List Call :=
  if inserted then [.setInsertNum (r.mInsertNum.getD 0 + 1)] else []

/-- The code of a process whose segments have all been inserted, or that has waited too long. -/
def endCalls (r : Command.RepoCommandResponse) (late : Bool) : List Call :=
  match r.mEndBlockId with
  | none => if late then [.setCode 405] else []
  | some endBlockId =>
    let nSegments := endBlockId - r.mStartBlockId.getD 0 + 1
    if r.mInsertNum.getD 0 ≥ nSegments then [.setCode 200] else []

def extendCalls (r : Command.RepoCommandResponse) (late : Bool) : List Call :=
  if r.mEndBlockId.isNone && late then [.setCode 405] else []

def calls (r : Command.RepoCommandResponse) : ProcessStep → List Call
  | insert processId segments => insertCalls processId segments
  | onSegmentData inserted late =>
    let counted := countCalls r inserted
    counted ++ endCalls (afterCalls r counted) late
  | handleCheckCommand late => extendCalls r late ++ [.wireEncode]

def step (r : Command.RepoCommandResponse) (s : ProcessStep) : Option Command.RepoCommandResponse :=
  some (afterCalls r (s.calls r))

/-- The response that a check sends has the fields that the process has. -/
def ChecksCurrent (r : Command.RepoCommandResponse) (steps : List ProcessStep) : Prop :=
  Meets step (fun s step => ∀ late, step = handleCheckCommand late → (afterCalls s (extendCalls s late)).Current)
    r steps

/-- All the calls of a history, one handler after the other. -/
def historyCalls : Command.RepoCommandResponse → List ProcessStep → List Call
  | _, [] => []
  | r, s :: steps => s.calls r ++ historyCalls (afterCalls r (s.calls r)) steps

lemma afterCalls_historyCalls_snoc (steps : List ProcessStep) (s : ProcessStep) (r : Command.RepoCommandResponse) :
    afterCalls r (historyCalls r (steps ++ [s])) =
      afterCalls (afterCalls r (historyCalls r steps)) (s.calls (afterCalls r (historyCalls r steps))) := by
  induction steps generalizing r with
  | nil => simp [historyCalls, afterCalls]
  | cons first steps ih =>
    have happend (a b : List Call) : afterCalls r (a ++ b) = afterCalls (afterCalls r a) b := List.foldl_append ..
    rw [List.cons_append, historyCalls, happend, ih, historyCalls, happend]

end ProcessStep

variable {r : Command.RepoCommandResponse}

lemma neverStale_append (a b : List Call) (r : Command.RepoCommandResponse) :
    NeverStale r (a ++ b) ↔ NeverStale r a ∧ NeverStale (afterCalls r a) b := by
  induction a generalizing r with
  | nil =>
    rw [List.nil_append]
    exact (and_iff_right trivial).symm
  | cons call a ih =>
    rw [List.cons_append, neverStale_cons, neverStale_cons, ih, and_assoc]
    rfl

lemma neverStale_setters {setters : List Call} (h : .wireEncode ∉ setters) (r : Command.RepoCommandResponse) :
    NeverStale r setters := by
  induction setters generalizing r with
  | nil => trivial
  | cons call setters ih =>
    rw [List.mem_cons, not_or] at h
    rw [neverStale_setter (fun heq => h.1 heq.symm)]
    exact ih h.2 _

namespace ProcessStep

/-- An insert encodes right after it has set a number, so its own reply is never stale. -/
lemma neverStale_insert (processId : UInt64) (segments : Option (UInt64 × Option UInt64))
    (r : Command.RepoCommandResponse) : NeverStale r (insertCalls processId segments) := by
  have hends {s : Command.RepoCommandResponse} (hwire : s.mWire = none) (hcode : s.statusCode = some 100) :
      NeverStale s [.wireEncode, .wireEncode, .setCode 300] := by
    have hsetter : (Call.setCode 300) ≠ .wireEncode := by simp
    have hnil : EncodesAs 100 300 [] := by
      intro mid post heq
      simp at heq
    rw [(neverStale_cases _ s 100).1 hwire hcode, codesAgree_wireEncode, codesAgree_wireEncode, encodesAs_wireEncode,
      encodesAs_setter hsetter, codesAgree_setter hsetter]
    refine ⟨⟨rfl, fun _ => hnil⟩, fun _ => hnil, ?_⟩
    intro pre post heq
    simp at heq
  unfold insertCalls
  dsimp only
  rw [neverStale_append]
  constructor
  · apply neverStale_setters
    cases segments with
    | none => simp
    | some range => cases h : range.2 <;> simp [h]
  · cases segments with
    | none => exact hends rfl rfl
    | some range =>
      obtain ⟨startBlockId, endBlockId⟩ := range
      cases endBlockId with
      | none => exact hends rfl rfl
      | some e => exact hends rfl rfl

lemma neverStale_calls_iff (r : Command.RepoCommandResponse) (s : ProcessStep) :
    NeverStale r (s.calls r) ↔ ∀ late, s = handleCheckCommand late → (afterCalls r (extendCalls r late)).Current := by
  cases s with
  | insert processId segments =>
    simp only [calls, neverStale_insert, reduceCtorEq, IsEmpty.forall_iff, implies_true]
  | onSegmentData inserted late =>
    have hsetters : Call.wireEncode ∉ (onSegmentData inserted late).calls r := by
      unfold calls countCalls endCalls
      dsimp only
      rw [List.mem_append, not_or]
      constructor
      · split_ifs <;> simp
      · split
        · split_ifs <;> simp
        · split_ifs <;> simp
    simp only [neverStale_setters hsetters, reduceCtorEq, IsEmpty.forall_iff, implies_true]
  | handleCheckCommand late =>
    have hsetters : Call.wireEncode ∉ extendCalls r late := by
      unfold extendCalls
      split_ifs <;> simp
    rw [calls, neverStale_append, and_iff_right (neverStale_setters hsetters r), neverStale_wireEncode]
    simp only [handleCheckCommand.injEq, forall_eq', and_iff_left_iff_imp]
    intro _
    trivial

theorem checksCurrent_iff (steps : List ProcessStep) (r : Command.RepoCommandResponse) :
    ChecksCurrent r steps ↔ NeverStale r (historyCalls r steps) := by
  induction steps generalizing r with
  | nil => exact Iff.rfl
  | cons s steps ih =>
    rw [historyCalls, neverStale_append, neverStale_calls_iff, ← ih]
    simp only [ChecksCurrent, Meets, step, Option.some.injEq, forall_eq']

end ProcessStep

/-! ### The process map -/

section ProcessMap

variable {L : NameLibrary} {sha1 : String → String}

/-- An object holds the fields of a response. -/
structure Stored (o : Command.RepoCommandResponse) (response : RepoCommandResponse) : Prop where
  code : (o.statusCode.getD 0).toNat = response.code
  processId : o.mProcessId = response.processId
  startBlockId : o.mStartBlockId = response.startBlockId
  endBlockId : o.mEndBlockId = response.endBlockId
  insertNum : o.mInsertNum = response.insertNum

variable {o : Command.RepoCommandResponse} {h : WriteHandle L} {processId : UInt64}

lemma fields_wireEncode (o : Command.RepoCommandResponse) : o.wireEncode.2.toResponseFields = o.toResponseFields := by
  unfold Command.RepoCommandResponse.wireEncode
  split
  · rfl
  · split
    · rfl
    · split <;> rfl

lemma Stored.of_fields {o' : Command.RepoCommandResponse} {response : RepoCommandResponse} (ho : Stored o response)
    (hfields : o'.toResponseFields = o.toResponseFields) : Stored o' response := by
  obtain ⟨hcode, hprocess, hstart, hend, hinsert⟩ := ho
  constructor <;> rw [hfields] <;> assumption

/-- After both encodings the object has the fields that it had before them, and the code 300. -/
lemma stored_ends {setters : List Call} {response : RepoCommandResponse} (ho : Stored (afterCalls o setters) response) :
    Stored (afterCalls o (setters ++ [.wireEncode, .wireEncode, .setCode 300])) { response with code := 300 } := by
  have hfields : (afterCalls o setters).wireEncode.2.wireEncode.2.toResponseFields =
      (afterCalls o setters).toResponseFields := by
    rw [fields_wireEncode, fields_wireEncode]
  have hends := ho.of_fields hfields
  rw [afterCalls, List.foldl_append]
  exact ⟨rfl, hends.processId, hends.startBlockId, hends.endBlockId, hends.insertNum⟩

theorem stored_processSingleInsertCommand (parameter : RepoCommandParameter L)
    (ho : Stored o (h.process processId).response) :
    Stored (afterCalls o (ProcessStep.insertCalls processId none))
      ((h.processSingleInsertCommand parameter processId).handle.process processId).response := by
  have hset : Stored (afterCalls o [.setCode 100, .setProcessId processId, .setInsertNum 0])
      { (h.process processId).response with code := 100, processId := some processId, insertNum := some 0 } :=
    ⟨rfl, rfl, ho.startBlockId, ho.endBlockId, rfl⟩
  have hprocess : ((h.processSingleInsertCommand parameter processId).handle.process processId).response =
      { (h.process processId).response with code := 300, processId := some processId, insertNum := some 0 } := by
    simp [WriteHandle.processSingleInsertCommand, WriteHandle.process, WriteHandle.setProcess]
  rw [hprocess]
  exact stored_ends hset

lemma segInit_response (h : WriteHandle L) (parameter : RepoCommandParameter L) (now : ℕ) :
    ((h.segInit processId parameter now).handle.process processId).response = (h.process processId).response := by
  unfold WriteHandle.segInit
  dsimp only
  rw [WriteHandle.process_setProcess]
  split <;> rfl

lemma writeManifest_response (h : WriteHandle L) (keySpace : KeySpaceHandle) :
    ((h.writeManifest sha1 keySpace processId).handle.process processId).response = (h.process processId).response := by
  unfold WriteHandle.writeManifest
  dsimp only
  split <;> rw [WriteHandle.process_setProcess]

/-- The reply of the client to the Interest for the object changes no field of the response. -/
lemma onDataValidated_response (h : WriteHandle L) (keySpace : KeySpaceHandle) (nodePrefix : Option (List String))
    (json : Option InfoJson) (now : ℕ) :
    ((h.onDataValidated sha1 keySpace nodePrefix json processId now).handle.process processId).response =
      (h.process processId).response := by
  unfold WriteHandle.onDataValidated
  cases hp : h.mProcesses processId with
  | none => rfl
  | some process =>
    have hresponse : (h.process processId).response = process.response := by rw [WriteHandle.process, hp]; rfl
    cases json with
    | none => rfl
    | some json =>
      dsimp only
      split_ifs
      all_goals simp only [segInit_response, writeManifest_response, WriteHandle.process_setProcess, hresponse]
      all_goals rfl

/-- The blocks that a segmented insert is for; there are none if the last comes before the first. -/
def segmentsOf (parameter : RepoCommandParameter L) : Option (UInt64 × Option UInt64) :=
  if parameter.hasEndBlockId then
    let startBlockId := if parameter.hasStartBlockId then parameter.startBlockId else 0
    if startBlockId > parameter.endBlockId then none else some (startBlockId, some parameter.endBlockId)
  else some (parameter.startBlockId, none)

theorem stored_processSegmentedInsertCommand {parameter : RepoCommandParameter L} (now : ℕ)
    {segments : UInt64 × Option UInt64} (hsegments : segmentsOf parameter = some segments)
    (ho : Stored o (h.process processId).response) :
    Stored (afterCalls o (ProcessStep.insertCalls processId (some segments)))
      ((h.processSegmentedInsertCommand parameter processId now).handle.process processId).response := by
  unfold segmentsOf at hsegments
  unfold WriteHandle.processSegmentedInsertCommand
  dsimp only
  by_cases hend : parameter.hasEndBlockId
  · rw [if_pos hend] at hsegments ⊢
    dsimp only at hsegments ⊢
    generalize (if parameter.hasStartBlockId = true then parameter.startBlockId else 0) = startBlockId at hsegments ⊢
    by_cases hrange : startBlockId > parameter.endBlockId
    · rw [if_pos hrange] at hsegments
      simp at hsegments
    · rw [if_neg hrange] at hsegments ⊢
      rw [← Option.some.inj hsegments]
      dsimp only
      rw [segInit_response, WriteHandle.process_setProcess]
      have hset : Stored (afterCalls o [.setCode 100, .setProcessId processId, .setInsertNum 0,
          .setStartBlockId startBlockId, .setEndBlockId parameter.endBlockId])
          { (h.process processId).response with
            code := 100, processId := some processId, insertNum := some 0
            startBlockId := some startBlockId, endBlockId := some parameter.endBlockId } := ⟨rfl, rfl, rfl, rfl, rfl⟩
      exact stored_ends hset
  · rw [if_neg hend] at hsegments ⊢
    rw [← Option.some.inj hsegments]
    dsimp only
    rw [segInit_response, WriteHandle.process_setProcess]
    have hset : Stored (afterCalls o [.setCode 100, .setProcessId processId, .setInsertNum 0,
        .setStartBlockId parameter.startBlockId])
        { (h.process processId).response with
          code := 100, processId := some processId, insertNum := some 0
          startBlockId := some parameter.startBlockId } := ⟨rfl, rfl, rfl, ho.endBlockId, rfl⟩
    exact stored_ends hset

lemma handle_of_no_segments {parameter : RepoCommandParameter L} {now : ℕ} (hsegments : segmentsOf parameter = none) :
    (h.processSegmentedInsertCommand parameter processId now).handle = h := by
  unfold segmentsOf at hsegments
  unfold WriteHandle.processSegmentedInsertCommand
  by_cases hend : parameter.hasEndBlockId
  · rw [if_pos hend] at hsegments ⊢
    dsimp only at hsegments ⊢
    generalize (if parameter.hasStartBlockId = true then parameter.startBlockId else 0) = startBlockId at hsegments ⊢
    by_cases hrange : startBlockId > parameter.endBlockId
    · rw [if_pos hrange]
    · rw [if_neg hrange] at hsegments
      cases hsegments
  · rw [if_neg hend] at hsegments
    simp at hsegments

theorem stored_handleCheckCommand {process : ProcessInfo L} (now : ℕ) (hprocess : h.mProcesses processId = some process)
    (ho : Stored o process.response) :
    Stored (afterCalls o (ProcessStep.calls o (.handleCheckCommand (now > process.noEndTime))))
      ((h.handleCheckCommand processId now).handle.process processId).response := by
  have hend := ho.endBlockId
  have hextend : Stored (afterCalls o (ProcessStep.extendCalls o (now > process.noEndTime)))
      ((h.handleCheckCommand processId now).handle.process processId).response := by
    unfold WriteHandle.handleCheckCommand ProcessStep.extendCalls
    rw [hprocess, hend]
    dsimp only
    by_cases hnone : process.response.endBlockId.isNone
    · rw [if_pos hnone, hnone, Bool.true_and]
      unfold WriteHandle.extendNoEndTime
      by_cases hlate : now > process.noEndTime
      · rw [if_pos hlate, if_pos (decide_eq_true hlate)]
        simp only [WriteHandle.process, WriteHandle.setProcess, Function.update_self, Option.getD_some]
        exact ⟨rfl, ho.processId, ho.startBlockId, ho.endBlockId, ho.insertNum⟩
      · rw [if_neg hlate, if_neg (by simpa using hlate)]
        simp only [WriteHandle.process, WriteHandle.setProcess, Function.update_self, Option.getD_some]
        exact ho
    · rw [if_neg hnone, if_neg (by simp [hnone])]
      simp only [WriteHandle.process, hprocess, Option.getD_some]
      exact ho
  unfold ProcessStep.calls afterCalls
  rw [List.foldl_append]
  exact hextend.of_fields (fields_wireEncode _)

theorem stored_onSegmentData {process : ProcessInfo L} (store : DataStore L sha1) (data : Data L) (now : ℕ)
    (hprocess : h.mProcesses processId = some process) (ho : Stored o process.response) :
    Stored (afterCalls o (ProcessStep.calls o (.onSegmentData (store.insertData data).2 (now > process.noEndTime))))
      ((h.onSegmentData store data processId now).1.handle.process processId).response := by
  have hcount : Stored (afterCalls o (ProcessStep.countCalls o (store.insertData data).2))
      (process.response.countInsert (store.insertData data).2) := by
    unfold ProcessStep.countCalls RepoCommandResponse.countInsert RepoCommandResponse.getInsertNum
    rw [ho.insertNum]
    by_cases hinserted : (store.insertData data).2
    · rw [if_pos hinserted, if_pos hinserted]
      exact ⟨ho.code, ho.processId, ho.startBlockId, ho.endBlockId, rfl⟩
    · rw [if_neg hinserted, if_neg hinserted]
      exact ho
  unfold ProcessStep.calls
  dsimp only
  have happend (a b : List Call) : afterCalls o (a ++ b) = afterCalls (afterCalls o a) b := List.foldl_append ..
  rw [happend]
  generalize afterCalls o (ProcessStep.countCalls o (store.insertData data).2) = o' at hcount
  obtain ⟨hcode, hid, hstart, hend, hinsert⟩ := hcount
  unfold WriteHandle.onSegmentData ProcessStep.endCalls
  simp only [hprocess, hstart, hend, hinsert]
  generalize process.response.countInsert (store.insertData data).2 = response at *
  cases hlast : response.endBlockId with
  | none =>
    simp only [Option.isNone_none, if_true]
    by_cases hlate : now > process.noEndTime
    · rw [if_pos hlate, if_pos (decide_eq_true hlate)]
      simp only [WriteHandle.process, WriteHandle.setProcess, Function.update_self, Option.getD_some]
      exact ⟨rfl, hid, hstart, hend.trans hlast, hinsert⟩
    · rw [if_neg hlate, if_neg (by simpa using hlate)]
      simp only [WriteHandle.process, WriteHandle.setProcess, Function.update_self, Option.getD_some]
      exact ⟨hcode, hid, hstart, hend, hinsert⟩
  | some e =>
    simp only [Option.isNone_some, Bool.false_eq_true, if_false, RepoCommandResponse.getEndBlockId,
      RepoCommandResponse.getStartBlockId, RepoCommandResponse.getInsertNum, hlast, Option.getD_some]
    by_cases hall : response.insertNum.getD 0 ≥ e - response.startBlockId.getD 0 + 1
    · rw [if_pos hall, if_pos hall]
      simp only [WriteHandle.process, WriteHandle.setProcess, Function.update_self, Option.getD_some]
      exact ⟨rfl, hid, hstart, hend.trans hlast, hinsert⟩
    · rw [if_neg hall, if_neg hall]
      simp only [WriteHandle.process, WriteHandle.setProcess, Function.update_self, Option.getD_some]
      exact ⟨hcode, hid, hstart, hend, hinsert⟩

/-! ### Histories of a process -/

/-- The calls of the write handle for one process. -/
inductive ProcessEvent (L : NameLibrary) where
  | processSingleInsertCommand (parameter : RepoCommandParameter L)
  | processSegmentedInsertCommand (parameter : RepoCommandParameter L) (now : ℕ)
  | onDataValidated (keySpace : KeySpaceHandle) (nodePrefix : Option (List String)) (json : Option InfoJson) (now : ℕ)
  | onSegmentData (data : Data L) (now : ℕ)
  | handleCheckCommand (now : ℕ)
  | deleteProcess

/-- The handle and its store, with what has happened to the process since it was made. -/
structure ProcessHistory (L : NameLibrary) (sha1 : String → String) where
  handle : WriteHandle L
  store : DataStore L sha1
  steps : List ProcessStep := []

namespace ProcessHistory

/-- Only a process that exists takes a segment or a check. -/
def next (processId : UInt64) (s : ProcessHistory L sha1) : ProcessEvent L → ProcessHistory L sha1
  | .processSingleInsertCommand parameter =>
    { s with
      handle := (s.handle.processSingleInsertCommand parameter processId).handle
      steps := s.steps ++ [.insert processId none] }
  | .processSegmentedInsertCommand parameter now =>
    { s with
      handle := (s.handle.processSegmentedInsertCommand parameter processId now).handle
      steps := s.steps ++ ((segmentsOf parameter).map (fun r => .insert processId (some r))).toList }
  | .onDataValidated keySpace nodePrefix json now =>
    { s with handle := (s.handle.onDataValidated sha1 keySpace nodePrefix json processId now).handle }
  | .onSegmentData data now =>
    { handle := (s.handle.onSegmentData s.store data processId now).1.handle
      store := (s.handle.onSegmentData s.store data processId now).2
      steps := s.steps ++ ((s.handle.mProcesses processId).map
        (fun process => .onSegmentData (s.store.insertData data).2 (now > process.noEndTime))).toList }
  | .handleCheckCommand now =>
    { s with
      handle := (s.handle.handleCheckCommand processId now).handle
      steps := s.steps ++ ((s.handle.mProcesses processId).map
        (fun process => .handleCheckCommand (now > process.noEndTime))).toList }
  | .deleteProcess => { s with handle := s.handle.deleteProcess processId, steps := [] }

/-- The object in the process map. -/
def object (s : ProcessHistory L sha1) : Command.RepoCommandResponse :=
  afterCalls {} (ProcessStep.historyCalls {} s.steps)

/-- The object has the fields of the process, and the first thing that happened to it was an insert. -/
structure Follows (processId : UInt64) (s : ProcessHistory L sha1) : Prop where
  stored : Stored s.object (s.handle.process processId).response
  first : s.steps = [] ∨ ∃ segments rest, s.steps = .insert processId segments :: rest
  absent : s.steps = [] → s.handle.mProcesses processId = none

lemma object_snoc (s : ProcessHistory L sha1) (step : ProcessStep) (handle : WriteHandle L) (store : DataStore L sha1) :
    object { handle := handle, store := store, steps := s.steps ++ [step] : ProcessHistory L sha1 } =
      afterCalls s.object (step.calls s.object) := ProcessStep.afterCalls_historyCalls_snoc s.steps step {}

lemma Follows.start (h : WriteHandle L) (store : DataStore L sha1) :
    Follows processId { handle := h.deleteProcess processId, store := store : ProcessHistory L sha1 } where
  stored := by
    have hnone : (h.deleteProcess processId).process processId = {} := by
      simp [WriteHandle.process, WriteHandle.deleteProcess]
    rw [hnone]
    exact ⟨rfl, rfl, rfl, rfl, rfl⟩
  first := Or.inl rfl
  absent _ := by simp [WriteHandle.deleteProcess]

lemma Follows.first_snoc {s : ProcessHistory L sha1} (hs : Follows processId s) (step : ProcessStep)
    (hstep : s.steps = [] → ∃ segments, step = .insert processId segments) :
    ∃ segments rest, s.steps ++ [step] = .insert processId segments :: rest := by
  obtain hnil | ⟨segments, rest, hcons⟩ := hs.first
  · obtain ⟨segments, rfl⟩ := hstep hnil
    exact ⟨segments, [], by rw [hnil, List.nil_append]⟩
  · exact ⟨segments, rest ++ [step], by rw [hcons, List.cons_append]⟩

/-- A step of the process is one step of its object. -/
lemma Follows.snoc {s : ProcessHistory L sha1} (hs : Follows processId s) {step : ProcessStep}
    {handle : WriteHandle L} {store : DataStore L sha1}
    (hstored : Stored (afterCalls s.object (step.calls s.object)) (handle.process processId).response)
    (hstep : s.steps = [] → ∃ segments, step = .insert processId segments) :
    Follows processId { handle := handle, store := store, steps := s.steps ++ [step] : ProcessHistory L sha1 } where
  stored := by rwa [object_snoc]
  first := Or.inr (hs.first_snoc step hstep)
  absent hnil := by simp at hnil

/-- A process that is in the map has had its insert, and the object has its fields. -/
lemma Follows.of_process {s : ProcessHistory L sha1} (hs : Follows processId s) {process : ProcessInfo L}
    (hp : s.handle.mProcesses processId = some process) : Stored s.object process.response ∧ s.steps ≠ [] := by
  constructor
  · have hstored := hs.stored
    rwa [WriteHandle.process, hp] at hstored
  · intro hnil
    rw [hs.absent hnil] at hp
    cases hp

theorem Follows.next {s : ProcessHistory L sha1} (hs : Follows processId s) (event : ProcessEvent L) :
    Follows processId (s.next processId event) := by
  cases event with
  | processSingleInsertCommand parameter =>
    exact hs.snoc (stored_processSingleInsertCommand parameter hs.stored) (fun _ => ⟨none, rfl⟩)
  | processSegmentedInsertCommand parameter now =>
    unfold ProcessHistory.next
    dsimp only
    cases hsegments : segmentsOf parameter with
    | none =>
      rw [Option.map_none, Option.toList_none, List.append_nil, handle_of_no_segments hsegments]
      exact hs
    | some segments =>
      exact hs.snoc (stored_processSegmentedInsertCommand now hsegments hs.stored) (fun _ => ⟨some segments, rfl⟩)
  | onDataValidated keySpace nodePrefix json now =>
    refine ⟨?_, hs.first, fun hnil => ?_⟩
    · change Stored s.object _
      rw [ProcessHistory.next, onDataValidated_response]
      exact hs.stored
    · unfold ProcessHistory.next WriteHandle.onDataValidated
      rw [hs.absent hnil]
      exact hs.absent hnil
  | onSegmentData data now =>
    unfold ProcessHistory.next
    dsimp only
    cases hp : s.handle.mProcesses processId with
    | none =>
      have hidle : s.handle.onSegmentData s.store data processId now =
          ({ handle := s.handle, stopped := true }, s.store) := by
        unfold WriteHandle.onSegmentData
        rw [hp]
      rw [hidle, Option.map_none, Option.toList_none, List.append_nil]
      exact hs
    | some process =>
      obtain ⟨hstored, hsteps⟩ := hs.of_process hp
      exact hs.snoc (stored_onSegmentData s.store data now hp hstored) (fun hnil => absurd hnil hsteps)
  | handleCheckCommand now =>
    unfold ProcessHistory.next
    dsimp only
    cases hp : s.handle.mProcesses processId with
    | none =>
      have hidle : (s.handle.handleCheckCommand processId now).handle = s.handle := by
        unfold WriteHandle.handleCheckCommand
        rw [hp]
      rw [hidle, Option.map_none, Option.toList_none, List.append_nil]
      exact hs
    | some process =>
      obtain ⟨hstored, hsteps⟩ := hs.of_process hp
      exact hs.snoc (stored_handleCheckCommand now hp hstored) (fun hnil => absurd hnil hsteps)
  | deleteProcess => exact Follows.start s.handle s.store

theorem Follows.run {s : ProcessHistory L sha1} (hs : Follows processId s) (events : List (ProcessEvent L)) :
    Follows processId (events.foldl (ProcessHistory.next processId) s) := by
  induction events generalizing s with
  | nil => exact hs
  | cons event events ih => exact ih (hs.next event)

end ProcessHistory

lemma checksCurrent_insert_iff (segments : Option (UInt64 × Option UInt64)) (steps : List ProcessStep) :
    ProcessStep.ChecksCurrent {} (.insert processId segments :: steps) ↔
      CodesAgree 100 (ProcessStep.historyCalls {} (.insert processId segments :: steps)) := by
  rw [ProcessStep.checksCurrent_iff]
  obtain ⟨rest, hrest⟩ : ∃ rest, ProcessStep.historyCalls {} (.insert processId segments :: steps) =
      .setCode 100 :: rest := ⟨_, rfl⟩
  have hsetter : (Call.setCode 100) ≠ .wireEncode := by simp
  rw [hrest, neverStale_setter hsetter, codesAgree_setter hsetter]
  exact neverStale_create_iff 100 "" rest

/-- A response sends its current fields from every encoding exactly when no two encodings with
nothing but new codes between them have different codes. For the response of a process the
encodings that can go wrong are those of the checks; in every history of the write handle its
object has the fields of the process. -/
theorem response_current_iff (code : UInt32) (text : String) (calls : List Call) (processId : UInt64)
    (segments : Option (UInt64 × Option UInt64)) (steps : List ProcessStep) (h : WriteHandle L)
    (store : DataStore L sha1) (events : List (ProcessEvent L)) :
    (NeverStale (.create code text) calls ↔ CodesAgree code calls) ∧
      (ProcessStep.ChecksCurrent {} (.insert processId segments :: steps) ↔
        CodesAgree 100 (ProcessStep.historyCalls {} (.insert processId segments :: steps))) ∧
      let s : ProcessHistory L sha1 := events.foldl (ProcessHistory.next processId)
        { handle := h.deleteProcess processId, store := store }
      Stored s.object (s.handle.process processId).response ∧
        (ProcessStep.ChecksCurrent {} s.steps ↔ CodesAgree 100 (ProcessStep.historyCalls {} s.steps)) := by
  have hstart : ProcessHistory.Follows processId { handle := h.deleteProcess processId, store := store } :=
    ProcessHistory.Follows.start h store
  have hfollows := hstart.run events
  refine ⟨neverStale_create_iff code text calls, checksCurrent_insert_iff segments steps, hfollows.stored, ?_⟩
  obtain hnil | ⟨first, rest, hcons⟩ := hfollows.first
  · rw [hnil]
    have hcalls : ProcessStep.historyCalls {} [] = [] := rfl
    refine iff_of_true trivial ?_
    rw [hcalls]
    intro pre post heq
    simp at heq
  · rw [hcons]
    exact checksCurrent_insert_iff first rest

end ProcessMap

/-- The status on the wire. -/
def statusSent (r : Command.RepoCommandResponse) : Option UInt32 :=
  match r.wireEncode.1 with
  | .error _ => none
  | .ok wire =>
    match Command.RepoCommandResponse.wireDecode {} wire with
    | .error _ => none
    | .ok q => q.statusCode

/-- The response of a single insert from the time its Interest is under way. -/
def fetching : Command.RepoCommandResponse := afterCalls {} (ProcessStep.insertCalls 7 none)

/-- The same response before it is encoded. -/
def acceptedResponse : Command.RepoCommandResponse := afterCalls {} [.setCode 100, .setProcessId 7, .setInsertNum 0]

lemma fetching_eq : fetching = acceptedResponse.wireEncode.2.wireEncode.2.setCode 300 := rfl

/-- A check right after a single insert is answered with 100, while the code is 300. -/
theorem check_sends_stale_code :
    ¬ NeverStale (.create 100 "") [.wireEncode, .setCode 300, .wireEncode] ∧
    ¬ ProcessStep.ChecksCurrent {} [.insert 7 none, .handleCheckCommand false] ∧
    fetching.statusCode = some 300 ∧ statusSent fetching = some 100 := by
  have hstale : ¬ NeverStale (.create 100 "") [.wireEncode, .setCode 300, .wireEncode] := by
    rw [neverStale_create_iff, codesAgree_wireEncode]
    intro h
    have hkeeps : ∀ call ∈ [Call.setCode 300], call.KeepsWire := List.forall_mem_singleton.mpr trivial
    have hsame : (300 : UInt32) = 100 := h.1 [.setCode 300] [] rfl hkeeps
    exact absurd hsame (by decide)
  have hcurrent : ¬ fetching.Current := by
    have hkeeps : Keeps (acceptedResponse.wireEncode.2.wireEncode.2.setCode 300) 100 300 := by
      have hfirst : Keeps acceptedResponse.wireEncode.2 100 100 := keeps_wireEncode rfl rfl
      rw [hfirst.wireEncode]
      exact hfirst.setCode 300
    rw [fetching_eq, hkeeps.current_iff]
    decide
  refine ⟨hstale, ?_, by decide +kernel, by decide +kernel⟩
  intro h
  exact hcurrent ((h.2 _ rfl).1 false rfl)

end Difs
