import Difs.Insert.WriteNode

/-!
# Counts

Every process counts the segments that were stored for it. What a step of a write node does to the
counts and to the store.
-/

namespace Difs

open EventRun WriteHandle

variable {L : NameLibrary} {sha1 : String → String}

/-- There are no new processes, and all have the counts they had. -/
def SameCounts (h t : WriteHandle L) : Prop :=
  ∀ processId process', t.mProcesses processId = some process' → ∃ process, h.mProcesses processId = some process ∧
    process'.response.getInsertNum = process.response.getInsertNum

section Handlers

variable {h t : WriteHandle L} {processId x : UInt64} {process process' : ProcessInfo L} {now : ℕ}
  {keySpace : KeySpaceHandle} {nodePrefix : Option (List String)} {json : Option InfoJson}

lemma SameCounts.of_eq (hm : t.mProcesses = h.mProcesses) : SameCounts h t := by
  intro processId process' hp
  rw [hm] at hp
  exact ⟨process', hp, rfl⟩

lemma SameCounts.of_update (hm : t.mProcesses = Function.update h.mProcesses processId (some process'))
    (hp : h.mProcesses processId = some process)
    (hcount : process'.response.getInsertNum = process.response.getInsertNum) : SameCounts h t := by
  intro x other hx
  rw [hm] at hx
  by_cases hxp : x = processId
  · rw [hxp, Function.update_self, Option.some_inj] at hx
    rw [hxp, ← hx]
    exact ⟨process, hp, hcount⟩
  · rw [Function.update_of_ne hxp] at hx
    exact ⟨other, hx, rfl⟩

lemma sameCounts_deleteProcess (h : WriteHandle L) (processId : UInt64) : SameCounts h (h.deleteProcess processId) := by
  intro x process' hx
  change Function.update h.mProcesses processId none x = some process' at hx
  by_cases hxp : x = processId
  · rw [hxp, Function.update_self] at hx
    cases hx
  · rw [Function.update_of_ne hxp] at hx
    exact ⟨process', hx, rfl⟩

/-- The announcement of an object leaves the response of its process as it is. -/
lemma sameCounts_onDataValidated
    (hthrew : (h.onDataValidated sha1 keySpace nodePrefix json processId now).threw = false) :
    SameCounts h (h.onDataValidated sha1 keySpace nodePrefix json processId now).handle := by
  unfold onDataValidated at hthrew ⊢
  cases hp : h.mProcesses processId with
  | none => exact .of_eq rfl
  | some process =>
    cases json with
    | none => exact .of_eq rfl
    | some json =>
      simp only [hp] at hthrew ⊢
      generalize hannounced : announced process h.mRepoPrefix (.fromInfoJson json) = process₁ at hthrew ⊢
      have hresponse : process₁.response = process.response := by
        rw [← hannounced]
        rfl
      by_cases hms : process₁.manifestSent
      · simp only [hms, if_true, Bool.false_eq_true, if_false]
        obtain ⟨process', hm, -, hr⟩ := segInit_setProcess h processId process₁
          { name := L.ofUri (Manifest.fromInfoJson json).mName, nodePrefix := nodePrefix, hasStartBlockId := true } now
        exact .of_update hm hp (by rw [hr, hresponse])
      · simp only [hms, Bool.false_eq_true, if_false] at hthrew ⊢
        unfold writeManifest at hthrew ⊢
        simp only [process_setProcess] at hthrew ⊢
        cases hrepo : keySpace.getManifestStorage
            ((newManifest { process₁ with manifestSent := true }).getHash sha1) with
        | none =>
          simp only [hrepo, if_true] at hthrew
          cases hthrew
        | some repo =>
          simp only [Bool.false_eq_true, if_false]
          obtain ⟨process', hm, -, hr⟩ := segInit_setProcess
            (h.setProcess processId { process₁ with manifestSent := true }) processId
            { process₁ with
              manifestSent := true, manifest := some (newManifest { process₁ with manifestSent := true }) }
            { name := L.ofUri (Manifest.fromInfoJson json).mName, nodePrefix := nodePrefix, hasStartBlockId := true }
            now
          exact .of_update (hm.trans (Function.update_idem _ _ _)) hp (by rw [hr, hresponse])

lemma sameCounts_handleCheckCommand (h : WriteHandle L) (processId : UInt64) (now : ℕ) :
    SameCounts h (h.handleCheckCommand processId now).handle := by
  unfold handleCheckCommand
  cases hp : h.mProcesses processId with
  | none => exact .of_eq rfl
  | some process =>
    dsimp only
    split
    · refine .of_update rfl hp ?_
      unfold extendNoEndTime
      split <;> rfl
    · exact .of_eq rfl

/-- A process that is started has counted nothing, and the others are as they were. -/
def StartsAtZero (h : WriteHandle L) (processId : UInt64) (o : WriteOutcome L) : Prop :=
  ∀ x process', o.handle.mProcesses x = some process' →
    if x = processId ∧ WriteNode.starts o then process'.response.getInsertNum = 0 else h.mProcesses x = some process'

lemma StartsAtZero.of_eq {o : WriteOutcome L} (hm : o.handle.mProcesses = h.mProcesses)
    (hstarts : WriteNode.starts o = false) : StartsAtZero h processId o := by
  intro x process' hx
  rw [hm] at hx
  rw [if_neg (fun h => by simp [hstarts] at h)]
  exact hx

lemma StartsAtZero.of_update {o : WriteOutcome L}
    (hm : o.handle.mProcesses = Function.update h.mProcesses processId (some process)) (hstarts : WriteNode.starts o)
    (hcount : process.response.getInsertNum = 0) : StartsAtZero h processId o := by
  intro x process' hx
  rw [hm] at hx
  by_cases hxp : x = processId
  · rw [hxp, Function.update_self, Option.some_inj] at hx
    rw [if_pos ⟨hxp, hstarts⟩, ← hx]
    exact hcount
  · rw [Function.update_of_ne hxp] at hx
    rw [if_neg (fun h => hxp h.1)]
    exact hx

lemma startsAtZero_processSegmentedInsertCommand (h : WriteHandle L) (parameter : RepoCommandParameter L)
    (processId : UInt64) (now : ℕ) :
    StartsAtZero h processId (h.processSegmentedInsertCommand parameter processId now) := by
  have hsegInit : ∀ (process : ProcessInfo L) (done : RepoCommandResponse), done.code = 100 →
      process.response.getInsertNum = 0 → StartsAtZero h processId
        { (h.setProcess processId process).segInit processId parameter now with done := some done } := by
    intro process done hdone hcount
    obtain ⟨process', hm, -, hr⟩ := segInit_setProcess h processId process parameter now
    exact .of_update hm (by simp [WriteNode.starts, hdone]) (by rw [hr, hcount])
  unfold processSegmentedInsertCommand
  dsimp only
  by_cases hend : parameter.hasEndBlockId
  · rw [if_pos hend]
    by_cases hgt : (if parameter.hasStartBlockId then parameter.startBlockId else 0) > parameter.endBlockId
    · rw [if_pos hgt]
      exact .of_eq rfl (by simp [WriteNode.starts, negativeReply])
    · rw [if_neg hgt]
      exact hsegInit _ _ rfl rfl
  · rw [if_neg hend]
    exact hsegInit _ _ rfl rfl

lemma startsAtZero_onFindResponse (h : WriteHandle L) (found : Bool) (parameter : RepoCommandParameter L)
    (processId : UInt64) (now : ℕ) :
    StartsAtZero h processId (h.onFindResponse found parameter processId now) := by
  have hstart : StartsAtZero h processId (if parameter.hasStartBlockId || parameter.hasEndBlockId then
      h.processSegmentedInsertCommand parameter processId now
      else h.processSingleInsertCommand parameter processId) := by
    split
    · exact startsAtZero_processSegmentedInsertCommand h parameter processId now
    · exact .of_update rfl (by simp [WriteNode.starts, processSingleInsertCommand]) rfl
  unfold onFindResponse
  dsimp only
  split
  · exact .of_eq rfl (by simp [WriteNode.starts, negativeReply])
  · split
    · exact hstart
    · exact hstart

/-- The response of a process that has got a segment counts it where it was inserted. -/
lemma counts_onSegmentData {store : DataStore L sha1} {data : Data L}
    (hx : (h.onSegmentData store data processId now).1.handle.mProcesses x = some process') :
    ∃ process, h.mProcesses x = some process ∧ process'.response.getInsertNum =
      process.response.getInsertNum + if x = processId ∧ (store.insertData data).2 then 1 else 0 := by
  have hcounted : ∀ process : ProcessInfo L, (process.response.countInsert (store.insertData data).2).getInsertNum =
      process.response.getInsertNum + if (store.insertData data).2 then 1 else 0 := by
    intro process
    unfold RepoCommandResponse.countInsert
    split_ifs
    · rfl
    · exact (UInt64.add_zero _).symm
  cases hp : h.mProcesses processId with
  | none =>
    rw [onSegmentData_none hp] at hx
    refine ⟨process', hx, ?_⟩
    have hne : x ≠ processId := by
      rintro rfl
      rw [hp] at hx
      cases hx
    rw [if_neg (fun hxp => hne hxp.1), UInt64.add_zero]
  | some process =>
    obtain ⟨process₁, hm, hcount⟩ : ∃ process₁, (h.onSegmentData store data processId now).1.handle.mProcesses =
        Function.update h.mProcesses processId (some process₁) ∧ process₁.response.getInsertNum =
          (process.response.countInsert (store.insertData data).2).getInsertNum := by
      by_cases hc : CompletesRange store process data
      · obtain ⟨process₁, hm, -, -, hresponse⟩ := onSegmentData_completes now hp hc
        exact ⟨process₁, hm, by rw [hresponse]; rfl⟩
      · obtain ⟨process₁, hm, -, -, hresponse | ⟨-, hresponse⟩⟩ := onSegmentData_open now hp hc
        · exact ⟨process₁, hm, by rw [hresponse]⟩
        · exact ⟨process₁, hm, by rw [hresponse]; rfl⟩
    rw [hm] at hx
    by_cases hxp : x = processId
    · rw [hxp, Function.update_self, Option.some_inj] at hx
      simp only [hxp, true_and]
      exact ⟨process, hp, by rw [← hx, hcount, hcounted]⟩
    · rw [Function.update_of_ne hxp] at hx
      exact ⟨process', hx, by rw [if_neg (fun h => hxp h.1), UInt64.add_zero]⟩

/-! ### Answers -/

/-- A command is refused, or answered with the id of the process that was started. -/
lemma done_onFindResponse {found : Bool} {parameter : RepoCommandParameter L} {response : RepoCommandResponse}
    (hdone : (h.onFindResponse found parameter processId now).done = some response) : 400 ≤ response.code ∨
      WriteNode.starts (h.onFindResponse found parameter processId now) ∧ response.processId = some processId := by
  unfold onFindResponse processSegmentedInsertCommand processSingleInsertCommand at hdone ⊢
  dsimp only at hdone ⊢
  split_ifs at hdone ⊢
  all_goals
    cases hdone
    simp [WriteNode.starts, negativeReply]

/-- A check is answered with the count of its process, or there is no such process. -/
lemma done_handleCheckCommand {response : RepoCommandResponse}
    (hdone : (h.handleCheckCommand processId now).done = some response) : 400 ≤ response.code ∨
      ∃ process, h.mProcesses processId = some process ∧
        response.getInsertNum = process.response.getInsertNum := by
  unfold handleCheckCommand at hdone
  cases hp : h.mProcesses processId with
  | none =>
    rw [hp] at hdone
    cases hdone
    exact Or.inl (by decide)
  | some process =>
    simp only [hp] at hdone
    refine Or.inr ⟨process, rfl, ?_⟩
    split at hdone
    · cases hdone
      unfold extendNoEndTime
      split <;> rfl
    · cases hdone
      rfl

end Handlers

/-! ### Steps -/

section Steps

variable {n t : WriteNode L sha1} {e : WriteEvent L}

/-- The segment is stored that a process got. -/
def WriteNode.storeAfter (n : WriteNode L sha1) : WriteEvent L → DataStore L sha1
  | .segment processId data _ =>
    if (n.handle.mProcesses processId).isSome then (n.store.insertData data).1 else n.store
  | _ => n.store

/-- What a step adds to the count of a process. -/
def WriteNode.countFor (n : WriteNode L sha1) (processId : UInt64) : WriteEvent L → UInt64
  | .segment x data _ => if processId = x ∧ (n.store.insertData data).2 then 1 else 0
  | _ => 0

/-- The process of a command that the step has accepted. -/
def WriteNode.StartedBy (n : WriteNode L sha1) (processId : UInt64) : WriteEvent L → Prop
  | .data (.find _ _ _ _ _ parameter) content _ drawn now =>
    processId = drawn ∧ WriteNode.starts (n.handle.onFindResponse (content ≠ .empty) parameter drawn now)
  | _ => False

def WriteNode.objectsAfter (n : WriteNode L sha1) : WriteEvent L → UInt64 → Option L.Name
  | .data (.find _ _ _ _ _ parameter) content _ drawn now =>
    if WriteNode.starts (n.handle.onFindResponse (content ≠ .empty) parameter drawn now) then
      Function.update n.objects drawn (some parameter.name)
    else n.objects
  | _ => n.objects

structure Counting (n t : WriteNode L sha1) (e : WriteEvent L) : Prop where
  objects : t.objects = n.objectsAfter e
  store : t.store = n.storeAfter e
  started : ∀ processId process', t.handle.mProcesses processId = some process' → n.StartedBy processId e →
    process'.response.getInsertNum = 0
  count : ∀ processId process', t.handle.mProcesses processId = some process' → ¬ n.StartedBy processId e →
    ∃ process, n.handle.mProcesses processId = some process ∧
      process'.response.getInsertNum = process.response.getInsertNum + n.countFor processId e

/-- A step that gets no segment and starts no process. -/
lemma Counting.of_sameCounts (hobjects : n.objectsAfter e = n.objects) (hstore : n.storeAfter e = n.store)
    (hcount : ∀ processId, n.countFor processId e = 0) (hstarted : ∀ processId, ¬ n.StartedBy processId e)
    (ht : t.objects = n.objects ∧ t.store = n.store) (hsame : SameCounts n.handle t.handle) : Counting n t e where
  objects := ht.1.trans hobjects.symm
  store := ht.2.trans hstore.symm
  started processId process' hx hs := absurd hs (hstarted processId)
  count processId process' hx _ := by
    obtain ⟨process, hp, heq⟩ := hsame processId process' hx
    refine ⟨process, hp, ?_⟩
    rw [heq, hcount, UInt64.add_zero]

lemma records_after {o : WriteOutcome L} (h : n.after o = some t) :
    t.objects = n.objects ∧ t.store = n.store ∧ t.handle = o.handle := by
  obtain ⟨-, rfl⟩ := after_eq_some h
  exact ⟨rfl, rfl, rfl⟩

lemma onData_counting {i : WriteInterest L} {content : WriteContent} {valid : Bool} {processId : UInt64} {now : ℕ}
    (h : n.onData content valid processId now i = some t) : Counting n t (.data i content valid processId now) := by
  cases i with
  | find repo hash findId lifetime interest parameter =>
    change n.onFindData content parameter processId now = some t at h
    unfold WriteNode.onFindData at h
    obtain ⟨hobjects, hstore, hhandle⟩ := records_after h
    refine ⟨hobjects, hstore, ?_, ?_⟩
    · rintro x process' hx ⟨hxp, hstarts⟩
      rw [hhandle] at hx
      have hzero := startsAtZero_onFindResponse _ _ _ _ _ x process' hx
      rwa [if_pos ⟨hxp, hstarts⟩] at hzero
    · intro x process' hx hstarted
      rw [hhandle] at hx
      have hold := startsAtZero_onFindResponse _ _ _ _ _ x process' hx
      rw [if_neg (fun ⟨hxp, hstarts⟩ => hstarted ⟨hxp, hstarts⟩)] at hold
      exact ⟨process', hold, (UInt64.add_zero _).symm⟩
  | object name nodePrefix lifetime bound =>
    cases valid with
    | true =>
      change n.onObjectData name nodePrefix content bound now = some t at h
      unfold WriteNode.onObjectData at h
      obtain ⟨hthrew, -⟩ := after_eq_some h
      obtain ⟨hobjects, hstore, hhandle⟩ := records_after h
      refine .of_sameCounts rfl rfl (fun _ => rfl) (fun _ => id) ⟨hobjects, hstore⟩ ?_
      rw [hhandle]
      exact sameCounts_onDataValidated hthrew
    | false =>
      cases h
      exact .of_sameCounts rfl rfl (fun _ => rfl) (fun _ => id) ⟨rfl, rfl⟩ (.of_eq rfl)
  | create manifestRepo hash clusterPrefix lifetime createId =>
    cases h
    exact .of_sameCounts rfl rfl (fun _ => rfl) (fun _ => id) ⟨rfl, rfl⟩ (.of_eq rfl)

lemma onTimeout_counting {i : WriteInterest L} (h : n.onTimeout i = some t) : Counting n t (.timeout i) := by
  cases i with
  | object name nodePrefix lifetime processId =>
    obtain ⟨hobjects, hstore, hhandle⟩ := records_after h
    refine .of_sameCounts rfl rfl (fun _ => rfl) (fun _ => id) ⟨hobjects, hstore⟩ ?_
    rw [hhandle]
    exact sameCounts_deleteProcess n.handle processId
  | find repo hash findId lifetime interest parameter =>
    cases h
    exact .of_sameCounts rfl rfl (fun _ => rfl) (fun _ => id) ⟨rfl, rfl⟩ (.of_eq rfl)
  | create manifestRepo hash clusterPrefix lifetime createId =>
    cases h
    exact .of_sameCounts rfl rfl (fun _ => rfl) (fun _ => id) ⟨rfl, rfl⟩ (.of_eq rfl)

/-- All that a step does to the counts and the store. -/
theorem writeStep_counting (h : writeStep n e = some t) : Counting n t e := by
  cases e with
  | keySpace keySpace =>
    cases h
    exact .of_sameCounts rfl rfl (fun _ => rfl) (fun _ => id) ⟨rfl, rfl⟩ (.of_eq rfl)
  | insert interest parameter =>
    obtain ⟨hobjects, hstore, hhandle⟩ := records_after h
    refine .of_sameCounts rfl rfl (fun _ => rfl) (fun _ => id) ⟨hobjects, hstore⟩ (.of_eq ?_)
    rw [hhandle, handleInsertCommand_handle]
  | data i content valid processId now =>
    simp only [writeStep, Option.ite_none_right_eq_some] at h
    have hcounting := onData_counting h.2
    exact ⟨hcounting.objects, hcounting.store, hcounting.started, hcounting.count⟩
  | timeout i =>
    simp only [writeStep, Option.ite_none_right_eq_some] at h
    have hcounting := onTimeout_counting h.2
    exact ⟨hcounting.objects, hcounting.store, hcounting.started, hcounting.count⟩
  | segment processId data now =>
    simp only [writeStep, Option.ite_none_right_eq_some] at h
    obtain ⟨hobjects, hstore, hhandle⟩ := records_after h.2
    refine ⟨hobjects, ?_, fun _ _ _ => False.elim, ?_⟩
    · rw [hstore, WriteNode.storeAfter]
      cases hp : n.handle.mProcesses processId with
      | none =>
        rw [onSegmentData_none hp]
        rfl
      | some process => exact onSegmentData_store hp
    · intro x process' hx _
      rw [hhandle] at hx
      exact counts_onSegmentData hx
  | segmentTimeout processId =>
    simp only [writeStep, Option.ite_none_right_eq_some] at h
    obtain ⟨hobjects, hstore, hhandle⟩ := records_after h.2
    refine .of_sameCounts rfl rfl (fun _ => rfl) (fun _ => id) ⟨hobjects, hstore⟩ (.of_eq ?_)
    rw [hhandle]
    rfl
  | check processId now =>
    obtain ⟨hobjects, hstore, hhandle⟩ := records_after h
    refine .of_sameCounts rfl rfl (fun _ => rfl) (fun _ => id) ⟨hobjects, hstore⟩ ?_
    rw [hhandle]
    exact sameCounts_handleCheckCommand n.handle processId now
  | info processId =>
    obtain ⟨hobjects, hstore, hhandle⟩ := records_after h
    refine .of_sameCounts rfl rfl (fun _ => rfl) (fun _ => id) ⟨hobjects, hstore⟩ (.of_eq ?_)
    rw [hhandle, (handleInfoCommand_outcome sha1 n.handle processId).1]
  | deleteProcess processId =>
    simp only [writeStep, Option.ite_none_right_eq_some] at h
    cases h.2
    exact .of_sameCounts rfl rfl (fun _ => rfl) (fun _ => id) ⟨rfl, rfl⟩ (sameCounts_deleteProcess n.handle processId)

end Steps

end Difs
