import Difs.Command.Validation
import Difs.Delete.DeleteHandle
import Difs.Lib.EventRun

/-!
# The assertions of the getters

The handlers of insert, insert check and delete with the getters that they call, and the callbacks
of the Interests that they send. What they do is what the handlers without assertions do.
-/

namespace Difs

namespace AssertedHandle

variable {L : NameLibrary} (sha1 : String → String)

/-! ### The write handle -/

def segInit (h : WriteHandle L) (processId : UInt64) (parameter : CommandParameter L) (now : ℕ) :
    Asserted RepoParameterField (WriteOutcome L) := do
  let process := h.process processId
  let startBlockId ← parameter.getStartBlockId
  let (initialCredit, process) ← if parameter.hasEndBlockId then do
      let endBlockId ← parameter.getEndBlockId
      let firstBlockId ← parameter.getStartBlockId
      let lastBlockId ← parameter.getEndBlockId
      pure (min h.mCredit (endBlockId - firstBlockId + 1), { process with endBlockId := toInt lastBlockId })
    else pure (h.mCredit, { process with noEndTime := now + h.mNoEndTimeout })
  return {
    handle := h.setProcess processId process
    fetchers := [⟨L.appendSegment parameter.name startBlockId, parameter.nodePrefix, initialCredit,
      h.mInterestLifetime, processId⟩] }

def handleInsertCommand (h : WriteHandle L) (keySpace : KeySpaceHandle) (interest : ℕ)
    (repoParameter : CommandParameter L) : Asserted RepoParameterField (WriteOutcome L) :=
  match repoParameter.name.getLast? with
  | none => pure { handle := h, threw := true }
  | some difsKey =>
    let hash := sha1 (WriteHandle.checkedText difsKey)
    match keySpace.getManifestStorage hash with
    | none => pure { handle := h, threw := true }
    | some repo => do
      let processId ← repoParameter.getProcessId
      return {
        handle := h
        sent := [.find repo hash processId h.mInterestLifetime interest repoParameter.toRepoCommandParameter] }

def processSegmentedInsertCommand (h : WriteHandle L) (parameter : CommandParameter L) (processId : UInt64) (now : ℕ) :
    Asserted RepoParameterField (WriteOutcome L) :=
  let process := h.process processId
  if parameter.hasEndBlockId then do
    let startBlockId ← if parameter.hasStartBlockId then parameter.getStartBlockId else pure 0
    let endBlockId ← parameter.getEndBlockId
    if startBlockId > endBlockId then
      return { handle := h, done := some (WriteHandle.negativeReply "Malformed Command" 403) }
    else
      let response := { process.response with
        code := 100, processId := some processId, insertNum := some 0
        startBlockId := some startBlockId, endBlockId := some endBlockId }
      let o ← segInit (h.setProcess processId { process with response := { response with code := 300 } })
        processId parameter now
      return { o with done := some response }
  else do
    let startBlockId ← parameter.getStartBlockId
    let response := { process.response with
      code := 100, processId := some processId, insertNum := some 0
      startBlockId := some startBlockId }
    let o ← segInit (h.setProcess processId { process with response := { response with code := 300 } })
      processId parameter now
    return { o with done := some response }

def onFindResponse (h : WriteHandle L) (found : Bool) (repoParameter : CommandParameter L) (processId : UInt64)
    (now : ℕ) : Asserted RepoParameterField (WriteOutcome L) :=
  if found then pure { handle := h, done := some (WriteHandle.negativeReply "Manifest already exists" 403) }
  else do
    let o ← if repoParameter.hasStartBlockId || repoParameter.hasEndBlockId then
        processSegmentedInsertCommand h repoParameter processId now
      else pure (h.processSingleInsertCommand repoParameter.toRepoCommandParameter processId)
    if repoParameter.hasInterestLifetime then
      let interestLifetime ← repoParameter.getInterestLifetime
      return { o with handle := { o.handle with mInterestLifetime := interestLifetime } }
    else return o

def onDataValidated (h : WriteHandle L) (keySpace : KeySpaceHandle) (nodePrefix : Option (List String))
    (json : Option InfoJson) (processId : UInt64) (now : ℕ) : Asserted RepoParameterField (WriteOutcome L) :=
  match h.mProcesses processId with
  | none => pure { handle := h }
  | some process =>
    match json with
    | none => pure { handle := h, threw := true }
    | some json =>
      let manifest := Manifest.fromInfoJson json
      let process := WriteHandle.announced process h.mRepoPrefix manifest
      let o := if process.manifestSent then { handle := h.setProcess processId process }
        else (h.setProcess processId { process with manifestSent := true }).writeManifest sha1 keySpace processId
      if o.threw then pure o
      else do
        let parameter : CommandParameter L :=
          { name := L.ofUri manifest.mName, nodePrefix := nodePrefix, hasStartBlockId := true, hasName := true }
        let started ← segInit o.handle processId parameter now
        return { started with sent := o.sent }

def handleCheckCommand (h : WriteHandle L) (repoParameter : CommandParameter L) (now : ℕ) :
    Asserted RepoParameterField (WriteOutcome L) := do
  let processId ← repoParameter.getProcessId
  return h.handleCheckCommand processId now

/-! ### The delete handle -/

def handleDeleteCommand (h : DeleteHandle L) (interest : ReceivedInterest L) (repoParameter : CommandParameter L)
    (keySpace : KeySpaceHandle) : Asserted RepoParameterField (Option (DeleteReaction L)) := do
  let processId ← repoParameter.getProcessId
  return h.handleDeleteCommand sha1 interest repoParameter.name processId keySpace

def positiveReply (parameter : CommandParameter L) (statusCode nDeletedData : ℕ) :
    Asserted RepoParameterField DeleteResponse :=
  if parameter.hasProcessId then do
    let processId ← parameter.getProcessId
    return { code := statusCode, text := "Deletion Successful", processId := some processId
             deleteNum := some nDeletedData }
  else return { code := 403, text := "Malformed Command" }

def onDeleteManifestCommandResponse (h : DeleteHandle L) (code : ℕ) (repoParameter : CommandParameter L)
    (processId : UInt64) : Asserted RepoParameterField (DeleteReaction L) := do
  let response ← if code = 200 then positiveReply repoParameter 200 1
    else pure (DeleteHandle.negativeReply 404 "Manifest not found")
  return { node := h.eraseProcess processId, output := [.done response] }

/-! ### Without assertions -/

variable {sha1} (h : WriteHandle L) (p : CommandParameter L)

theorem value_segInit (processId : UInt64) (now : ℕ) :
    (segInit h processId p now).value = h.segInit processId p.toRepoCommandParameter now := by
  unfold segInit WriteHandle.segInit
  cases hend : p.hasEndBlockId <;> rfl

theorem value_handleInsertCommand (keySpace : KeySpaceHandle) (interest : ℕ) :
    (handleInsertCommand sha1 h keySpace interest p).value =
      h.handleInsertCommand sha1 keySpace interest p.toRepoCommandParameter := by
  unfold handleInsertCommand WriteHandle.handleInsertCommand
  cases p.name.getLast? with
  | none => rfl
  | some difsKey =>
    dsimp only
    cases keySpace.getManifestStorage (sha1 (WriteHandle.checkedText difsKey)) <;> rfl

theorem value_processSegmentedInsertCommand (processId : UInt64) (now : ℕ) :
    (processSegmentedInsertCommand h p processId now).value =
      h.processSegmentedInsertCommand p.toRepoCommandParameter processId now := by
  unfold processSegmentedInsertCommand WriteHandle.processSegmentedInsertCommand
  cases p.hasStartBlockId <;>
    simp only [Asserted.value_bind, Asserted.value_ite, Asserted.value_pure, value_segInit] <;> rfl

theorem value_onFindResponse (found : Bool) (processId : UInt64) (now : ℕ) :
    (onFindResponse h found p processId now).value = h.onFindResponse found p.toRepoCommandParameter processId now := by
  unfold onFindResponse WriteHandle.onFindResponse
  cases p.hasStartBlockId || p.hasEndBlockId <;>
    simp only [Asserted.value_bind, Asserted.value_ite, Asserted.value_pure,
      value_processSegmentedInsertCommand] <;> rfl

theorem value_onDataValidated (keySpace : KeySpaceHandle) (nodePrefix : Option (List String)) (json : Option InfoJson)
    (processId : UInt64) (now : ℕ) : (onDataValidated sha1 h keySpace nodePrefix json processId now).value =
      h.onDataValidated sha1 keySpace nodePrefix json processId now := by
  unfold onDataValidated WriteHandle.onDataValidated
  cases h.mProcesses processId with
  | none => rfl
  | some process =>
    cases json with
    | none => rfl
    | some json =>
      simp only [Asserted.value_bind, Asserted.value_ite, Asserted.value_pure, value_segInit]

theorem value_handleCheckCommand (now : ℕ) :
    (handleCheckCommand h p now).value = h.handleCheckCommand p.processId now := rfl

theorem value_handleDeleteCommand (h : DeleteHandle L) (interest : ReceivedInterest L) (keySpace : KeySpaceHandle) :
    (handleDeleteCommand sha1 h interest p keySpace).value =
      h.handleDeleteCommand sha1 interest p.name p.processId keySpace := rfl

/-- What the delete handle keeps of a parameter. -/
def deleteParameter (p : CommandParameter L) : DeleteParameter L :=
  ⟨p.name, if p.hasProcessId then some p.processId else none⟩

theorem value_onDeleteManifestCommandResponse (h : DeleteHandle L) (code : ℕ) (processId : UInt64) :
    (onDeleteManifestCommandResponse h code p processId).value =
      h.onDeleteManifestCommandResponse code (deleteParameter p) processId := by
  unfold onDeleteManifestCommandResponse DeleteHandle.onDeleteManifestCommandResponse
  by_cases hcode : code = 200
  · unfold positiveReply DeleteHandle.positiveReply deleteParameter
    simp only [if_pos hcode]
    cases p.hasProcessId <;> rfl
  · simp only [if_neg hcode]
    rfl

end AssertedHandle

/-! ### The code that runs for a command -/

inductive CommandVerb where
  | insert
  | insertCheck
  | delete
deriving DecidableEq

/-- A handler or a callback that may run next, with the parameter that is bound to it. -/
inductive CommandCode (L : NameLibrary) where
  | insert (repoParameter : CommandParameter L)
  | find (repoParameter : CommandParameter L)
  | object (processId : UInt64)
  | insertCheck (repoParameter : CommandParameter L)
  | delete (repoParameter : CommandParameter L)
  | deleteManifest (repoParameter : CommandParameter L) (processId : UInt64)

/-- What the code finds when it runs: the handle in any state, and what came for it. A timeout
reads no parameter. -/
inductive CodeEvent (L : NameLibrary) where
  | insert (h : WriteHandle L) (keySpace : KeySpaceHandle) (interest : ℕ)
  | find (h : WriteHandle L) (found : Bool) (processId : UInt64) (now : ℕ)
  | object (h : WriteHandle L) (keySpace : KeySpaceHandle) (nodePrefix : Option (List String)) (json : Option InfoJson)
      (now : ℕ)
  | insertCheck (h : WriteHandle L) (now : ℕ)
  | delete (h : DeleteHandle L) (interest : ReceivedInterest L) (keySpace : KeySpaceHandle)
  | deleteManifest (h : DeleteHandle L) (code : ℕ)

/-- The code that is left to run, and the assertions that failed so far. -/
structure CommandRun (L : NameLibrary) where
  code : Option (CommandCode L)
  failed : List RepoParameterField := []

namespace CommandRun

variable {L : NameLibrary} (sha1 : String → String)

def next {α : Type} (r : CommandRun L) (result : Asserted RepoParameterField α) (code : α → Option (CommandCode L)) :
    CommandRun L where
  code := code result.value
  failed := r.failed ++ result.failed

/-- A callback runs only when its Interest was sent. -/
def step (r : CommandRun L) (event : CodeEvent L) : Option (CommandRun L) :=
  match r.code, event with
  | some (.insert p), .insert h keySpace interest =>
    some (r.next (AssertedHandle.handleInsertCommand sha1 h keySpace interest p)
      (fun o => if o.sent.isEmpty then none else some (.find p)))
  | some (.find p), .find h found processId now =>
    some (r.next (AssertedHandle.onFindResponse h found p processId now)
      (fun o => if o.sent.isEmpty then none else some (.object processId)))
  | some (.object processId), .object h keySpace nodePrefix json now =>
    some (r.next (AssertedHandle.onDataValidated sha1 h keySpace nodePrefix json processId now) (fun _ => none))
  | some (.insertCheck p), .insertCheck h now =>
    some (r.next (AssertedHandle.handleCheckCommand h p now) (fun _ => none))
  | some (.delete p), .delete h interest keySpace =>
    some (r.next (AssertedHandle.handleDeleteCommand sha1 h interest p keySpace)
      (fun reaction => reaction.map (fun _ => .deleteManifest p p.processId)))
  | some (.deleteManifest p processId), .deleteManifest h code =>
    some (r.next (AssertedHandle.onDeleteManifestCommandResponse h code p processId) (fun _ => none))
  | _, _ => none

end CommandRun

namespace CommandVerb

variable {L : NameLibrary}

def command : CommandVerb → RepoCommand L
  | insert => RepoCommand.insertCommand
  | insertCheck => RepoCommand.insertCheckCommand
  | delete => RepoCommand.deleteCommand

def code (p : CommandParameter L) : CommandVerb → CommandCode L
  | insert => .insert p
  | insertCheck => .insertCheck p
  | delete => .delete p

end CommandVerb

namespace CommandRun

variable {L : NameLibrary} {sha1 : String → String} {p : CommandParameter L} {r t : CommandRun L}
  {events : List (CodeEvent L)}

/-- The key space has a storage for the manifest of an insert. -/
def Routed (sha1 : String → String) (keySpace : KeySpaceHandle) (p : CommandParameter L) : Prop :=
  ∃ difsKey repo, p.name.getLast? = some difsKey ∧
    keySpace.getManifestStorage (sha1 (WriteHandle.checkedText difsKey)) = some repo

lemma failed_handleInsertCommand_of_routed {h : WriteHandle L} {keySpace : KeySpaceHandle} {interest : ℕ}
    (hrouted : Routed sha1 keySpace p) (hprocess : p.hasProcessId = false) :
    (AssertedHandle.handleInsertCommand sha1 h keySpace interest p).failed = [.processId] := by
  obtain ⟨difsKey, repo, hkey, hrepo⟩ := hrouted
  unfold AssertedHandle.handleInsertCommand
  rw [hkey]
  dsimp only
  rw [hrepo]
  simp [CommandParameter.getProcessId, hprocess]

/-- Without a storage the handler throws before it reads the process id. -/
lemma handleInsertCommand_of_not_routed {h : WriteHandle L} {keySpace : KeySpaceHandle} {interest : ℕ}
    (hrouted : ¬ Routed sha1 keySpace p) :
    AssertedHandle.handleInsertCommand sha1 h keySpace interest p = pure { handle := h, threw := true } := by
  unfold AssertedHandle.handleInsertCommand
  cases hkey : p.name.getLast? with
  | none => rfl
  | some difsKey =>
    dsimp only
    cases hrepo : keySpace.getManifestStorage (sha1 (WriteHandle.checkedText difsKey)) with
    | none => rfl
    | some repo => exact absurd ⟨difsKey, repo, hkey, hrepo⟩ hrouted

lemma failed_getProcessId (h : p.hasProcessId = true) : p.getProcessId.failed = [] := by
  simp [CommandParameter.getProcessId, h]

/-- The parameter that is made of a manifest starts at block 0 and has no end. -/
lemma failed_onDataValidated (h : WriteHandle L) (keySpace : KeySpaceHandle) (nodePrefix : Option (List String))
    (json : Option InfoJson) (processId : UInt64) (now : ℕ) :
    (AssertedHandle.onDataValidated sha1 h keySpace nodePrefix json processId now).failed = [] := by
  unfold AssertedHandle.onDataValidated
  cases h.mProcesses processId with
  | none => rfl
  | some process =>
    cases json with
    | none => rfl
    | some json =>
      dsimp only
      rw [Asserted.failed_ite]
      split_ifs
      all_goals rfl

lemma failed_onDeleteManifestCommandResponse (h : DeleteHandle L) (code : ℕ) (p : CommandParameter L)
    (processId : UInt64) : (AssertedHandle.onDeleteManifestCommandResponse h code p processId).failed = [] := by
  unfold AssertedHandle.onDeleteManifestCommandResponse
  by_cases hcode : code = 200
  · have hreply : (AssertedHandle.positiveReply p 200 1).failed = [] := by
      unfold AssertedHandle.positiveReply CommandParameter.getProcessId
      cases p.hasProcessId <;> rfl
    simp only [if_pos hcode, Asserted.failed_bind, hreply]
    rfl
  · simp only [if_neg hcode]
    rfl

lemma failed_prefix_run (hrun : EventRun.run (step sha1) r events = some t) : r.failed <+: t.failed := by
  apply EventRun.reachable_invariant (I := fun t => r.failed <+: t.failed) _ List.prefix_rfl ⟨events, hrun⟩
  intro u event v hu hstep
  apply hu.trans
  unfold step at hstep
  split at hstep <;> cases hstep <;> exact List.prefix_append _ _

/-- The code that is left reads only what is there. -/
def Safe (r : CommandRun L) : Prop :=
  r.failed = [] ∧ match r.code with
    | some (.insert _) => False
    | some (.find _) => False
    | some (.insertCheck p) => p.hasProcessId = true
    | some (.delete p) => p.hasProcessId = true
    | _ => True

lemma Safe.step {event : CodeEvent L} {r' : CommandRun L} (h : r.Safe) (hstep : r.step sha1 event = some r') :
    r'.Safe := by
  obtain ⟨hfailed, hcode⟩ := h
  unfold CommandRun.step at hstep
  split at hstep
  · next p h keySpace interest heq =>
    rw [heq] at hcode
    exact hcode.elim
  · next p h found processId now heq =>
    rw [heq] at hcode
    exact hcode.elim
  · next processId h keySpace nodePrefix json now heq =>
    cases hstep
    refine ⟨?_, trivial⟩
    unfold next
    rw [hfailed, failed_onDataValidated, List.append_nil]
  · next p h now heq =>
    rw [heq] at hcode
    cases hstep
    refine ⟨?_, trivial⟩
    unfold next AssertedHandle.handleCheckCommand
    dsimp only
    rw [hfailed, Asserted.failed_bind, failed_getProcessId hcode]
    rfl
  · next p h interest keySpace heq =>
    rw [heq] at hcode
    cases hstep
    constructor
    · unfold next AssertedHandle.handleDeleteCommand
      dsimp only
      rw [hfailed, Asserted.failed_bind, failed_getProcessId hcode]
      rfl
    · unfold next
      dsimp only
      cases (AssertedHandle.handleDeleteCommand sha1 h interest p keySpace).value <;> trivial
  · next p processId h code heq =>
    cases hstep
    refine ⟨?_, trivial⟩
    unfold next
    rw [hfailed, failed_onDeleteManifestCommandResponse, List.append_nil]
  · cases hstep

lemma Safe.run (h : r.Safe) (hrun : EventRun.run (CommandRun.step sha1) r events = some t) : t.Safe :=
  EventRun.reachable_invariant (fun _ _ _ hu hstep => Safe.step hu hstep) h ⟨events, hrun⟩

/-- The handler of an insert is the first code that runs for it, and the only one that reads the process id. -/
lemma insert_failed_iff {event : CodeEvent L} (hprocess : p.hasProcessId = false)
    (hstep : step sha1 ⟨some (.insert p), []⟩ event = some r) (hrun : EventRun.run (step sha1) r events = some t) :
    t.failed = [] ↔ ∀ h keySpace interest, event = .insert h keySpace interest → ¬ Routed sha1 keySpace p := by
  cases event with
  | insert h keySpace interest =>
    cases hstep
    by_cases hrouted : Routed sha1 keySpace p
    · refine iff_of_false ?_ (fun hnone => hnone h keySpace interest rfl hrouted)
      intro hnil
      have hprefix := failed_prefix_run hrun
      rw [hnil, List.prefix_nil] at hprefix
      unfold next at hprefix
      rw [failed_handleInsertCommand_of_routed hrouted hprocess] at hprefix
      cases hprefix
    · refine iff_of_true ?_ ?_
      · rw [handleInsertCommand_of_not_routed hrouted] at hrun
        exact (Safe.run ⟨rfl, trivial⟩ hrun).1
      · rintro _ _ _ heq
        cases heq
        exact hrouted
  | find => cases hstep
  | object => cases hstep
  | insertCheck => cases hstep
  | delete => cases hstep
  | deleteManifest => cases hstep

/-- No code that runs for an accepted command reads a field that is absent, unless the handler of an
insert comes to the process id, which an insert never has. -/
theorem reads_present_iff (verb : CommandVerb) (haccepts : (verb.command : RepoCommand L).Accepts p)
    (hrun : EventRun.run (step sha1) ⟨some (verb.code p), []⟩ events = some t) : t.failed = [] ↔
      ∀ h keySpace interest, events.head? = some (.insert h keySpace interest) → ¬ Routed sha1 keySpace p := by
  cases events with
  | nil =>
    cases hrun
    exact iff_of_true rfl nofun
  | cons event rest =>
    obtain ⟨u, hu, hrest⟩ := EventRun.run_cons_eq_some.mp hrun
    rw [List.head?_cons]
    simp only [Option.some_inj]
    cases verb with
    | insert => exact insert_failed_iff (RepoCommand.insert_hasProcessId haccepts) hu hrest
    | insertCheck =>
      refine iff_of_true (Safe.run ⟨rfl, RepoCommand.insertCheck_hasProcessId haccepts⟩ hrun).1 ?_
      rintro _ _ _ rfl
      cases hu
    | delete =>
      refine iff_of_true (Safe.run ⟨rfl, RepoCommand.delete_hasProcessId haccepts⟩ hrun).1 ?_
      rintro _ _ _ rfl
      cases hu

/-- A delete of the film, with the answer of the node that has its manifest. -/
def filmDeletion : CommandParameter plainNames :=
  { name := [film], hasName := true, processId := 7, hasProcessId := true }

def filmDeletionEvents : List (CodeEvent plainNames) :=
  [.delete {} ⟨0, [film]⟩ exampleKeySpace, .deleteManifest {} 200]

theorem film_deletion_reads_present : ∃ t, EventRun.run (step archiveDigest) ⟨some (.delete filmDeletion), []⟩
    filmDeletionEvents = some t ∧ t.failed = [] := by
  have hends : (EventRun.run (step archiveDigest) ⟨some (.delete filmDeletion), []⟩
      filmDeletionEvents).isSome = true := by
    decide +kernel
  obtain ⟨t, hrun⟩ := Option.isSome_iff_exists.mp hends
  have haccepts : (CommandVerb.delete.command : RepoCommand plainNames).Accepts filmDeletion := rfl
  exact ⟨t, hrun, (reads_present_iff .delete haccepts hrun).mpr nofun⟩

def filmInsertion : CommandParameter plainNames := { name := [film], hasName := true }

/-- The handler of an insert reads the process id that its command must not have. -/
theorem film_insertion_reads_absent :
    ¬ ∀ (verb : CommandVerb) (p : CommandParameter plainNames) (events : List (CodeEvent plainNames))
      (t : CommandRun plainNames), verb.command.Accepts p →
        EventRun.run (step archiveDigest) ⟨some (verb.code p), []⟩ events = some t → t.failed = [] := by
  intro h
  have hfails : (EventRun.run (step archiveDigest) ⟨some (.insert filmInsertion), []⟩
      [.insert exampleHandle exampleKeySpace 0]).any (fun t => t.failed ≠ []) = true := by
    decide +kernel
  obtain ⟨t, hrun, hfailed⟩ := (Option.any_eq_true _ _).mp hfails
  exact of_decide_eq_true hfailed (h .insert filmInsertion _ t rfl hrun)

end CommandRun

end Difs
