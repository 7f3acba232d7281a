import Difs.Insert.Segments

/-!
# Runs of the write handle

A write handle among its clients, the nodes that it asks and its fetchers, which answer in any
order and with any content. The single and the segmented insert keep their processes in one map,
under ids that are drawn at random.
-/

namespace Difs

open EventRun WriteHandle

variable {L : NameLibrary} {sha1 : String → String}

/-- A manifest, the object whose announcement it was built from, and the key space at that time. -/
structure BuiltManifest (L : NameLibrary) where
  processId : UInt64
  object : L.Name
  manifest : Manifest
  keySpace : KeySpaceHandle

/-- The write handle with the key space of its node, its store and what its handlers wait for.
All Interests sent, the objects of the processes and the manifests built are read by no handler. -/
structure WriteNode (L : NameLibrary) (sha1 : String → String) where
  keySpace : KeySpaceHandle
  handle : WriteHandle L
  store : DataStore L sha1
  pending : List (WriteInterest L) := []
  fetching : List UInt64 := []
  deferred : List UInt64 := []
  sent : List (WriteInterest L) := []
  objects : UInt64 → Option L.Name := fun _ => none
  built : List (BuiltManifest L) := []

inductive WriteContent where
  | empty
  | info (json : InfoJson)
  | other
deriving DecidableEq, Repr

def WriteContent.json : WriteContent → Option InfoJson
  | .info json => some json
  | _ => none

/-- `valid` is the verdict of the validator, `processId` the random id that is drawn. -/
inductive WriteEvent (L : NameLibrary) where
  | keySpace (keySpace : KeySpaceHandle)
  | insert (interest : ℕ) (parameter : RepoCommandParameter L)
  | data (i : WriteInterest L) (content : WriteContent) (valid : Bool) (processId : UInt64) (now : ℕ)
  | timeout (i : WriteInterest L)
  | segment (processId : UInt64) (data : Data L) (now : ℕ)
  | segmentTimeout (processId : UInt64)
  | check (processId : UInt64) (now : ℕ)
  | info (processId : UInt64)
  | deleteProcess (processId : UInt64)

namespace WriteNode

/-- A handler that throws ends the run. -/
def after (n : WriteNode L sha1) (o : WriteOutcome L) : Option (WriteNode L sha1) :=
  if o.threw then none
  else
    some { n with
      handle := o.handle
      pending := n.pending ++ o.sent
      fetching := n.fetching ++ o.fetchers.map SegmentFetch.processId
      deferred := n.deferred ++ o.deferred
      sent := n.sent ++ o.sent }

/-- A command that starts a process is answered with the code 100. -/
def starts (o : WriteOutcome L) : Bool := o.done.any (fun response => response.code = 100)

def onFindData (n : WriteNode L sha1) (content : WriteContent) (repoParameter : RepoCommandParameter L)
    (processId : UInt64) (now : ℕ) : Option (WriteNode L sha1) :=
  let o := n.handle.onFindResponse (content ≠ .empty) repoParameter processId now
  let objects := if starts o then Function.update n.objects processId (some repoParameter.name) else n.objects
  { n with objects := objects }.after o

/-- The manifest that was built is the one whose create is sent. -/
def builtBy (n : WriteNode L sha1) (name : L.Name) (processId : UInt64) (o : WriteOutcome L) : List (BuiltManifest L) :=
  if o.sent = [] then []
  else (o.handle.process processId).manifest.toList.map (fun manifest => ⟨processId, name, manifest, n.keySpace⟩)

def onObjectData (n : WriteNode L sha1) (name : L.Name) (nodePrefix : Option (List String)) (content : WriteContent)
    (processId : UInt64) (now : ℕ) : Option (WriteNode L sha1) :=
  let o := n.handle.onDataValidated sha1 n.keySpace nodePrefix content.json processId now
  { n with built := n.built ++ n.builtBy name processId o }.after o

/-- `onCreateCommandResponse` does nothing. -/
def onData (n : WriteNode L sha1) (content : WriteContent) (valid : Bool) (processId : UInt64) (now : ℕ) :
    WriteInterest L → Option (WriteNode L sha1)
  | .find _ _ _ _ _ parameter => n.onFindData content parameter processId now
  | .object name nodePrefix _ bound =>
    if valid then n.onObjectData name nodePrefix content bound now else some n
  | .create _ _ _ _ _ => some n

def onTimeout (n : WriteNode L sha1) : WriteInterest L → Option (WriteNode L sha1)
  | .object _ _ _ processId => n.after (n.handle.onTimeout processId)
  | _ => some n

end WriteNode

/-- Fetchers deliver segments also after they were stopped. -/
def writeStep (n : WriteNode L sha1) : WriteEvent L → Option (WriteNode L sha1)
  | .keySpace keySpace => some { n with keySpace := keySpace }
  | .insert interest parameter => n.after (n.handle.handleInsertCommand sha1 n.keySpace interest parameter)
  | .data i content valid processId now =>
    if i ∈ n.pending then { n with pending := n.pending.erase i }.onData content valid processId now i else none
  | .timeout i => if i ∈ n.pending then { n with pending := n.pending.erase i }.onTimeout i else none
  | .segment processId data now =>
    if processId ∈ n.fetching then
      let (o, store) := n.handle.onSegmentData n.store data processId now
      { n with store := store }.after o
    else none
  | .segmentTimeout processId =>
    if processId ∈ n.fetching then n.after (n.handle.onSegmentTimeout processId) else none
  | .check processId now => n.after (n.handle.handleCheckCommand processId now)
  | .info processId => n.after (n.handle.handleInfoCommand sha1 processId)
  | .deleteProcess processId =>
    if processId ∈ n.deferred then
      some { n with handle := n.handle.deleteProcess processId, deferred := n.deferred.erase processId }
    else none

/-- A handle that has seen nothing yet, with any settings and any store. -/
def writeStart (keySpace : KeySpaceHandle) (settings : WriteHandle L) (store : DataStore L sha1) :
    WriteNode L sha1 where
  keySpace := keySpace
  handle := { settings with mProcesses := fun _ => none }
  store := store

/-- The create of a manifest is sent to the node that the key space names for its hash. -/
def CreateSent (n : WriteNode L sha1) (b : BuiltManifest L) : Prop :=
  ∃ repo clusterPrefix lifetime, b.keySpace.getManifestStorage (b.manifest.getHash sha1) = some repo ∧
    .create repo (b.manifest.getHash sha1) clusterPrefix lifetime b.processId ∈ n.sent

/-- The process that waits for the announcement of its object. -/
def objectId : WriteInterest L → Option UInt64
  | .object _ _ _ processId => some processId
  | _ => none

def WriteNode.awaited (n : WriteNode L sha1) : List UInt64 := n.pending.filterMap objectId

/-- An id that is drawn was not drawn before. -/
def DrawnOnce (n : WriteNode L sha1) : WriteEvent L → Prop
  | .data (.find _ _ _ _ _ parameter) content _ processId now =>
    WriteNode.starts (n.handle.onFindResponse (content ≠ .empty) parameter processId now) →
      n.objects processId = none
  | _ => True

instance (n : WriteNode L sha1) : DecidablePred (DrawnOnce n)
  | .data (.find _ _ _ _ _ parameter) content _ processId now =>
    inferInstanceAs (Decidable (WriteNode.starts (n.handle.onFindResponse (content ≠ .empty) parameter processId now) →
      n.objects processId = none))
  | .data (.object _ _ _ _) _ _ _ _ | .data (.create _ _ _ _ _) _ _ _ _ | .keySpace _ | .insert _ _ | .timeout _
  | .segment _ _ _ | .segmentTimeout _ | .check _ _ | .info _ | .deleteProcess _ => inferInstanceAs (Decidable True)

/-! ### The handlers -/

section Handlers

variable {h : WriteHandle L} {processId : UInt64} {process process' : ProcessInfo L}
  {parameter : RepoCommandParameter L} {now : ℕ} {keySpace : KeySpaceHandle} {store : DataStore L sha1} {data : Data L}

/-- What the handlers leave in a process that they neither complete nor announce. -/
structure KeepsManifest (process process' : ProcessInfo L) : Prop where
  manifest : process'.manifest = process.manifest
  manifestSent : process'.manifestSent = process.manifestSent
  endBlockId : process'.response.endBlockId = process.response.endBlockId
  code : process'.response.code = 200 → process.response.code = 200

lemma process_eq (hp : h.mProcesses processId = some process) : h.process processId = process := by
  rw [WriteHandle.process, hp]
  rfl

lemma segInit_mProcesses (h : WriteHandle L) (processId : UInt64) (parameter : RepoCommandParameter L) (now : ℕ) :
    ∃ process', (h.segInit processId parameter now).handle.mProcesses =
        Function.update h.mProcesses processId (some process') ∧ KeepsManifest (h.process processId) process' ∧
      process'.response = (h.process processId).response := by
  refine ⟨_, rfl, ?_, ?_⟩
  · constructor <;> split <;> simp
  · split <;> rfl

lemma segInit_setProcess (h : WriteHandle L) (processId : UInt64) (process : ProcessInfo L)
    (parameter : RepoCommandParameter L) (now : ℕ) :
    ∃ process', ((h.setProcess processId process).segInit processId parameter now).handle.mProcesses =
        Function.update h.mProcesses processId (some process') ∧ KeepsManifest process process' ∧
      process'.response = process.response := by
  obtain ⟨process', hm, hk, hr⟩ := segInit_mProcesses (h.setProcess processId process) processId parameter now
  rw [process_setProcess] at hk hr
  refine ⟨process', ?_, hk, hr⟩
  rw [hm]
  exact Function.update_idem _ _ _

/-- The process of a command that was accepted. -/
structure Started (process process' : ProcessInfo L) : Prop where
  manifest : process'.manifest = process.manifest
  manifestSent : process'.manifestSent = process.manifestSent
  code : process'.response.code = 300

/-- A reply that starts no process leaves the map alone; the other ones set the process `processId`,
and only the single insert asks for the object. -/
inductive FindOutcome (h : WriteHandle L) (processId : UInt64) (o : WriteOutcome L) : Prop where
  | refused (starts : WriteNode.starts o = false) (sent : o.sent = [])
      (processes : o.handle.mProcesses = h.mProcesses)
  | segmented (process' : ProcessInfo L) (starts : WriteNode.starts o = true) (sent : o.sent = [])
      (processes : o.handle.mProcesses = Function.update h.mProcesses processId (some process'))
      (started : Started (h.process processId) process')
  | single (process' : ProcessInfo L) (name : L.Name) (nodePrefix : Option (List String)) (lifetime : ℕ)
      (starts : WriteNode.starts o = true) (sent : o.sent = [.object name nodePrefix lifetime processId])
      (processes : o.handle.mProcesses = Function.update h.mProcesses processId (some process'))
      (started : Started (h.process processId) process')
      (endBlockId : process'.response.endBlockId = (h.process processId).response.endBlockId)

lemma processSingleInsertCommand_outcome (h : WriteHandle L) (parameter : RepoCommandParameter L) (processId : UInt64) :
    FindOutcome h processId (h.processSingleInsertCommand parameter processId) :=
  .single _ parameter.name parameter.nodePrefix h.mInterestLifetime
    (by simp [WriteNode.starts, processSingleInsertCommand]) rfl rfl ⟨rfl, rfl, rfl⟩ rfl

lemma processSegmentedInsertCommand_outcome (h : WriteHandle L) (parameter : RepoCommandParameter L)
    (processId : UInt64) (now : ℕ) :
    FindOutcome h processId (h.processSegmentedInsertCommand parameter processId now) := by
  have hsegInit : ∀ (process : ProcessInfo L) (done : RepoCommandResponse), done.code = 100 →
      process.manifest = (h.process processId).manifest → process.manifestSent = (h.process processId).manifestSent →
      process.response.code = 300 → FindOutcome h processId
        { (h.setProcess processId process).segInit processId parameter now with done := some done } := by
    intro process done hdone hmanifest hsent hcode
    obtain ⟨process', hm, hk, hr⟩ := segInit_setProcess h processId process parameter now
    refine .segmented process' (by simp [WriteNode.starts, hdone]) rfl hm ⟨?_, ?_, ?_⟩
    · rw [hk.manifest, hmanifest]
    · rw [hk.manifestSent, hsent]
    · rw [hr, hcode]
  unfold processSegmentedInsertCommand
  dsimp only
  by_cases hend : parameter.hasEndBlockId
  · rw [if_pos hend]
    by_cases hgt : (if parameter.hasStartBlockId then parameter.startBlockId else 0) > parameter.endBlockId
    · rw [if_pos hgt]
      exact .refused (by simp [WriteNode.starts, negativeReply]) rfl rfl
    · rw [if_neg hgt]
      exact hsegInit _ _ rfl rfl rfl rfl
  · rw [if_neg hend]
    exact hsegInit _ _ rfl rfl rfl rfl

lemma FindOutcome.withLifetime {o : WriteOutcome L} (ho : FindOutcome h processId o) (lifetime : ℕ) :
    FindOutcome h processId { o with handle := { o.handle with mInterestLifetime := lifetime } } := by
  cases ho with
  | refused starts sent processes => exact .refused starts sent processes
  | segmented process' starts sent processes started => exact .segmented process' starts sent processes started
  | single process' name nodePrefix lifetime starts sent processes started endBlockId =>
    exact .single process' name nodePrefix lifetime starts sent processes started endBlockId

lemma onFindResponse_outcome (h : WriteHandle L) (found : Bool) (parameter : RepoCommandParameter L)
    (processId : UInt64) (now : ℕ) : FindOutcome h processId (h.onFindResponse found parameter processId now) := by
  have hstart : FindOutcome h processId (if parameter.hasStartBlockId || parameter.hasEndBlockId then
      h.processSegmentedInsertCommand parameter processId now
      else h.processSingleInsertCommand parameter processId) := by
    split
    · exact processSegmentedInsertCommand_outcome h parameter processId now
    · exact processSingleInsertCommand_outcome h parameter processId
  unfold onFindResponse
  dsimp only
  split
  · exact .refused (by simp [WriteNode.starts, negativeReply]) rfl rfl
  · split
    · exact hstart.withLifetime _
    · exact hstart

/-- What the announcement of an object does that does not throw. -/
inductive ObjectOutcome (sha1 : String → String) (h : WriteHandle L) (keySpace : KeySpaceHandle) (processId : UInt64)
    (o : WriteOutcome L) : Prop where
  | gone (sent : o.sent = []) (processes : o.handle.mProcesses = h.mProcesses)
  | known (process process' : ProcessInfo L) (sent : o.sent = []) (hp : h.mProcesses processId = some process)
      (keeps : KeepsManifest process process')
      (processes : o.handle.mProcesses = Function.update h.mProcesses processId (some process'))
  | built (process process' : ProcessInfo L) (manifest : Manifest) (repo clusterPrefix : String) (lifetime : ℕ)
      (sent : o.sent = [.create repo (manifest.getHash sha1) clusterPrefix lifetime processId])
      (storage : keySpace.getManifestStorage (manifest.getHash sha1) = some repo)
      (hp : h.mProcesses processId = some process) (notSent : process.manifestSent = false)
      (nowSent : process'.manifestSent = true) (builds : process'.manifest = some manifest)
      (response : process'.response = process.response)
      (processes : o.handle.mProcesses = Function.update h.mProcesses processId (some process'))

lemma onDataValidated_outcome (h : WriteHandle L) (keySpace : KeySpaceHandle) (nodePrefix : Option (List String))
    (json : Option InfoJson) (processId : UInt64) (now : ℕ)
    (hthrew : (h.onDataValidated sha1 keySpace nodePrefix json processId now).threw = false) :
    ObjectOutcome sha1 h keySpace processId (h.onDataValidated sha1 keySpace nodePrefix json processId now) := by
  unfold onDataValidated at hthrew ⊢
  cases hp : h.mProcesses processId with
  | none => exact .gone rfl rfl
  | some process =>
    cases json with
    | none =>
      rw [hp] at hthrew
      cases hthrew
    | some json =>
      simp only [hp] at hthrew ⊢
      generalize hannounced : announced process h.mRepoPrefix (.fromInfoJson json) = process₁ at hthrew ⊢
      have hmanifest : process₁.manifest = process.manifest := by rw [← hannounced]; rfl
      have hsent : process₁.manifestSent = process.manifestSent := by rw [← hannounced]; rfl
      have hresponse : process₁.response = process.response := by rw [← hannounced]; rfl
      by_cases hms : process₁.manifestSent
      · simp only [hms, if_true, Bool.false_eq_true, if_false]
        obtain ⟨process', hm, hk, hr⟩ := segInit_setProcess h processId process₁
          { name := L.ofUri (Manifest.fromInfoJson json).mName, nodePrefix := nodePrefix, hasStartBlockId := true } now
        refine .known process process' rfl hp ⟨?_, ?_, ?_, ?_⟩ hm
        · rw [hk.manifest, hmanifest]
        · rw [hk.manifestSent, hsent]
        · rw [hr, hresponse]
        · rw [hr, hresponse]
          exact id
      · simp only [hms, Bool.false_eq_true, if_false] at hthrew ⊢
        unfold writeManifest at hthrew ⊢
        simp only [process_setProcess] at hthrew ⊢
        cases hrepo : keySpace.getManifestStorage
            ((newManifest { process₁ with manifestSent := true }).getHash sha1) with
        | none =>
          simp only [hrepo, if_true] at hthrew
          cases hthrew
        | some repo =>
          simp only [Bool.false_eq_true, if_false]
          obtain ⟨process', hm, hk, hr⟩ := segInit_setProcess
            (h.setProcess processId { process₁ with manifestSent := true }) processId
            { process₁ with
              manifestSent := true, manifest := some (newManifest { process₁ with manifestSent := true }) }
            { name := L.ofUri (Manifest.fromInfoJson json).mName, nodePrefix := nodePrefix, hasStartBlockId := true }
            now
          refine .built process process' _ repo h.mClusterNodePrefix h.mInterestLifetime rfl hrepo hp ?_ hk.manifestSent
            hk.manifest (hr.trans hresponse) (hm.trans (Function.update_idem _ _ _))
          rw [← hsent]
          exact Bool.eq_false_iff.mpr hms

lemma onSegmentData_keeps (now : ℕ) (hp : h.mProcesses processId = some process)
    (hc : ¬ CompletesRange store process data) : ∃ process',
      (h.onSegmentData store data processId now).1.handle.mProcesses =
        Function.update h.mProcesses processId (some process') ∧ KeepsManifest process process' := by
  obtain ⟨process', hm, hmanifest, hsent, hcounted | ⟨-, hlate⟩⟩ := onSegmentData_open now hp hc
  · refine ⟨process', hm, hmanifest, hsent, ?_, ?_⟩
    · rw [hcounted, endBlockId_countInsert]
    · rw [hcounted, code_countInsert]
      exact id
  · refine ⟨process', hm, hmanifest, hsent, ?_, ?_⟩
    · rw [hlate]
      exact endBlockId_countInsert _ _
    · intro hcode
      rw [hlate] at hcode
      exact absurd (show 405 = 200 from hcode) (by decide)

lemma onSegmentData_sent : (h.onSegmentData store data processId now).1.sent = [] := by
  unfold onSegmentData
  split
  · rfl
  · dsimp only
    split_ifs <;> rfl

lemma handleCheckCommand_outcome (h : WriteHandle L) (processId : UInt64) (now : ℕ) :
    let o := h.handleCheckCommand processId now
    o.sent = [] ∧ (o.handle = h ∨ ∃ process process', h.mProcesses processId = some process ∧
      KeepsManifest process process' ∧
      o.handle.mProcesses = Function.update h.mProcesses processId (some process')) := by
  unfold handleCheckCommand
  cases hp : h.mProcesses processId with
  | none => exact ⟨rfl, Or.inl rfl⟩
  | some process =>
    dsimp only
    split
    · refine ⟨rfl, Or.inr ⟨process, _, rfl, ?_, rfl⟩⟩
      unfold extendNoEndTime
      constructor <;> split <;> simp
    · exact ⟨rfl, Or.inl rfl⟩

lemma handleInsertCommand_handle (h : WriteHandle L) (keySpace : KeySpaceHandle) (interest : ℕ)
    (parameter : RepoCommandParameter L) : (h.handleInsertCommand sha1 keySpace interest parameter).handle = h := by
  unfold handleInsertCommand
  split
  · rfl
  · dsimp only
    split <;> rfl

lemma handleInsertCommand_awaits (h : WriteHandle L) (keySpace : KeySpaceHandle) (interest : ℕ)
    (parameter : RepoCommandParameter L) :
    (h.handleInsertCommand sha1 keySpace interest parameter).sent.filterMap objectId = [] := by
  unfold handleInsertCommand
  split
  · rfl
  · dsimp only
    split <;> rfl

lemma handleInfoCommand_outcome (sha1 : String → String) (h : WriteHandle L) (processId : UInt64) :
    (h.handleInfoCommand sha1 processId).handle = h ∧ (h.handleInfoCommand sha1 processId).sent = [] := by
  unfold handleInfoCommand
  split
  · exact ⟨rfl, rfl⟩
  · split <;> exact ⟨rfl, rfl⟩

end Handlers

/-! ### The steps -/

section Steps

variable {n t : WriteNode L sha1} {e : WriteEvent L} {o : WriteOutcome L}

/-- A step that records neither an object nor a manifest. -/
structure SameRecords (n t : WriteNode L sha1) : Prop where
  objects : t.objects = n.objects
  built : t.built = n.built
  sent : n.sent ⊆ t.sent
  awaited : t.awaited ⊆ n.awaited

/-- What a step does to the processes. -/
inductive ProcessChange (n t : WriteNode L sha1) (e : WriteEvent L) : Prop where
  | same (records : SameRecords n t) (processes : t.handle.mProcesses = n.handle.mProcesses)
  | deleted (processId : UInt64) (records : SameRecords n t)
      (processes : t.handle.mProcesses = Function.update n.handle.mProcesses processId none)
  | kept (processId : UInt64) (process process' : ProcessInfo L) (records : SameRecords n t)
      (hp : n.handle.mProcesses processId = some process) (keeps : KeepsManifest process process')
      (processes : t.handle.mProcesses = Function.update n.handle.mProcesses processId (some process'))
  | started (processId : UInt64) (object : L.Name) (process' : ProcessInfo L)
      (objects : t.objects = Function.update n.objects processId (some object)) (built : t.built = n.built)
      (sent : n.sent ⊆ t.sent) (started : Started (n.handle.process processId) process')
      (drawn : DrawnOnce n e → n.objects processId = none)
      (awaits : ∀ x ∈ t.awaited, x ∈ n.awaited ∨
        x = processId ∧ process'.response.endBlockId = (n.handle.process processId).response.endBlockId)
      (processes : t.handle.mProcesses = Function.update n.handle.mProcesses processId (some process'))
  | announced (process process' : ProcessInfo L) (b : BuiltManifest L) (objects : t.objects = n.objects)
      (built : t.built = n.built ++ [b]) (sent : n.sent ⊆ t.sent) (create : CreateSent t b)
      (hp : n.handle.mProcesses b.processId = some process) (notSent : process.manifestSent = false)
      (nowSent : process'.manifestSent = true) (response : process'.response = process.response)
      (awaits : t.awaited ⊆ n.awaited) (announcement : ∃ name nodePrefix lifetime content valid drawn now,
        e = .data (.object name nodePrefix lifetime b.processId) content valid drawn now)
      (processes : t.handle.mProcesses = Function.update n.handle.mProcesses b.processId (some process'))
  | completed (processId : UInt64) (data : Data L) (now : ℕ) (process process' : ProcessInfo L)
      (segment : e = .segment processId data now) (records : SameRecords n t)
      (hp : n.handle.mProcesses processId = some process) (completes : CompletesRange n.store process data)
      (manifest : process'.manifest = process.manifest) (manifestSent : process'.manifestSent = process.manifestSent)
      (endBlockId : process'.response.endBlockId = process.response.endBlockId)
      (processes : t.handle.mProcesses = Function.update n.handle.mProcesses processId (some process'))

lemma after_eq_some (h : n.after o = some t) : o.threw = false ∧ t =
    { n with
      handle := o.handle, pending := n.pending ++ o.sent
      fetching := n.fetching ++ o.fetchers.map SegmentFetch.processId
      deferred := n.deferred ++ o.deferred, sent := n.sent ++ o.sent } := by
  unfold WriteNode.after at h
  split at h
  · cases h
  · rename_i hthrew
    exact ⟨Bool.eq_false_iff.mpr hthrew, (Option.some.inj h).symm⟩

lemma awaited_after (h : n.after o = some t) : t.awaited = n.awaited ++ o.sent.filterMap objectId := by
  obtain ⟨-, rfl⟩ := after_eq_some h
  exact List.filterMap_append

lemma SameRecords.after (h : n.after o = some t) (ho : o.sent.filterMap objectId = []) : SameRecords n t := by
  have hawaited := awaited_after h
  rw [ho, List.append_nil] at hawaited
  obtain ⟨-, rfl⟩ := after_eq_some h
  refine ⟨rfl, rfl, List.subset_append_left _ _, ?_⟩
  rw [hawaited]
  exact List.Subset.refl _

lemma after_handle (h : n.after o = some t) : t.handle = o.handle := by
  obtain ⟨-, rfl⟩ := after_eq_some h
  rfl

lemma onFindData_change {repo hash : String} {findId : UInt64} {lifetime interest : ℕ} {content : WriteContent}
    {parameter : RepoCommandParameter L} {valid : Bool} {processId : UInt64} {now : ℕ}
    (h : n.onFindData content parameter processId now = some t) :
    ProcessChange n t (.data (.find repo hash findId lifetime interest parameter) content valid processId now) := by
  unfold WriteNode.onFindData at h
  dsimp only at h
  have hhandle := after_handle h
  have hawaited := awaited_after h
  obtain ⟨-, ht⟩ := after_eq_some h
  have hbuilt : t.built = n.built := by rw [ht]
  have hsent : n.sent ⊆ t.sent := by
    rw [ht]
    exact List.subset_append_left _ _
  cases onFindResponse_outcome n.handle (content ≠ .empty) parameter processId now with
  | refused starts sends processes =>
    rw [starts] at ht
    rw [sends, List.filterMap_nil, List.append_nil] at hawaited
    refine .same ⟨by rw [ht]; rfl, hbuilt, hsent, ?_⟩ (by rw [hhandle, processes])
    rw [hawaited]
    exact List.Subset.refl _
  | segmented process' starts sends processes started =>
    rw [sends, List.filterMap_nil, List.append_nil] at hawaited
    refine .started processId parameter.name process' ?_ hbuilt hsent started (fun hdrawn => hdrawn starts) ?_
      (by rw [hhandle, processes])
    · rw [ht, starts]
      rfl
    · intro x hx
      rw [hawaited] at hx
      exact Or.inl hx
  | single process' name nodePrefix lifetime starts sends processes started endBlockId =>
    rw [sends] at hawaited
    refine .started processId parameter.name process' ?_ hbuilt hsent started (fun hdrawn => hdrawn starts) ?_
      (by rw [hhandle, processes])
    · rw [ht, starts]
      rfl
    · intro x hx
      rw [hawaited, List.mem_append] at hx
      apply hx.imp id
      intro hnew
      exact ⟨List.mem_singleton.mp hnew, endBlockId⟩

lemma onObjectData_change {content : WriteContent} {name : L.Name} {nodePrefix : Option (List String)} {lifetime : ℕ}
    {processId drawn : UInt64} {now : ℕ} (h : n.onObjectData name nodePrefix content processId now = some t) :
    ProcessChange n t (.data (.object name nodePrefix lifetime processId) content true drawn now) := by
  unfold WriteNode.onObjectData at h
  have hhandle := after_handle h
  have hawaited := awaited_after h
  obtain ⟨hthrew, ht⟩ := after_eq_some h
  have hobjects : t.objects = n.objects := by rw [ht]
  have hsent : n.sent ⊆ t.sent := by
    rw [ht]
    exact List.subset_append_left _ _
  have hnothing : ∀ o : WriteOutcome L, o.sent = [] → n.builtBy name processId o = [] := fun o ho => if_pos ho
  have hsame : ∀ l : List (WriteInterest L), l.filterMap objectId = [] →
      t.awaited = n.awaited ++ l.filterMap objectId → t.awaited ⊆ n.awaited := by
    intro l hl h
    rw [h, hl, List.append_nil]
    exact List.Subset.refl _
  cases onDataValidated_outcome n.handle n.keySpace nodePrefix content.json processId now hthrew with
  | gone nosent processes =>
    rw [nosent] at hawaited
    refine .same ⟨hobjects, ?_, hsent, hsame _ rfl hawaited⟩ (by rw [hhandle, processes])
    rw [ht]
    exact (congrArg (n.built ++ ·) (hnothing _ nosent)).trans (List.append_nil _)
  | known process process' nosent hp keeps processes =>
    rw [nosent] at hawaited
    refine .kept processId process process' ⟨hobjects, ?_, hsent, hsame _ rfl hawaited⟩ hp keeps
      (by rw [hhandle, processes])
    rw [ht]
    exact (congrArg (n.built ++ ·) (hnothing _ nosent)).trans (List.append_nil _)
  | built process process' manifest repo clusterPrefix lifetime sends storage hp notSent nowSent builds response
      processes =>
    have hmanifest : ((n.handle.onDataValidated sha1 n.keySpace nodePrefix content.json processId now).handle.process
        processId).manifest = some manifest := by
      rw [WriteHandle.process, processes, Function.update_self, Option.getD_some, builds]
    rw [sends] at hawaited
    refine .announced process process' ⟨processId, name, manifest, n.keySpace⟩ hobjects ?_ hsent ?_ hp notSent nowSent
      response (hsame _ rfl hawaited) ⟨name, nodePrefix, _, content, true, drawn, now, rfl⟩ (by rw [hhandle, processes])
    · rw [ht]
      unfold WriteNode.builtBy
      rw [if_neg (by rw [sends]; exact List.cons_ne_nil _ _), hmanifest]
      rfl
    · refine ⟨repo, clusterPrefix, lifetime, storage, ?_⟩
      rw [ht, sends]
      exact List.mem_append_right _ List.mem_cons_self

/-- An Interest that is no longer pending makes no difference to the rest. -/
lemma ProcessChange.of_pending {pending : List (WriteInterest L)} (hpending : pending ⊆ n.pending)
    (h : ProcessChange { n with pending := pending } t e) : ProcessChange n t e := by
  have hawaited : ({ n with pending := pending } : WriteNode L sha1).awaited ⊆ n.awaited :=
    List.filterMap_subset objectId hpending
  have hrecords : SameRecords { n with pending := pending } t → SameRecords n t := fun records =>
    ⟨records.objects, records.built, records.sent, List.Subset.trans records.awaited hawaited⟩
  cases h with
  | same records processes => exact .same (hrecords records) processes
  | deleted processId records processes => exact .deleted processId (hrecords records) processes
  | kept processId process process' records hp keeps processes =>
    exact .kept processId process process' (hrecords records) hp keeps processes
  | started processId object process' objects built sent started drawn awaits processes =>
    exact .started processId object process' objects built sent started drawn
      (fun x hx => (awaits x hx).imp_left (fun hx => hawaited hx)) processes
  | announced process process' b objects built sent create hp notSent nowSent response awaits announcement processes =>
    exact .announced process process' b objects built sent create hp notSent nowSent response
      (List.Subset.trans awaits hawaited) announcement processes
  | completed processId data now process process' segment records hp completes manifest manifestSent endBlockId
      processes =>
    exact .completed processId data now process process' segment (hrecords records) hp completes manifest manifestSent
      endBlockId processes

lemma SameRecords.refl (n : WriteNode L sha1) : SameRecords n n :=
  ⟨rfl, rfl, List.Subset.refl _, List.Subset.refl _⟩

lemma onData_change {i : WriteInterest L} {content : WriteContent} {valid : Bool} {processId : UInt64} {now : ℕ}
    (h : n.onData content valid processId now i = some t) :
    ProcessChange n t (.data i content valid processId now) := by
  cases i with
  | find repo hash findId lifetime interest parameter => exact onFindData_change h
  | object name nodePrefix lifetime bound =>
    cases valid with
    | true => exact onObjectData_change h
    | false =>
      cases h
      exact .same (.refl n) rfl
  | create manifestRepo hash clusterPrefix lifetime createId =>
    cases h
    exact .same (.refl n) rfl

lemma onTimeout_change {i : WriteInterest L} (h : n.onTimeout i = some t) : ProcessChange n t e := by
  cases i with
  | object name nodePrefix lifetime processId =>
    exact .deleted processId (.after h rfl) (by rw [after_handle h]; rfl)
  | find repo hash findId lifetime interest parameter =>
    cases h
    exact .same (.refl n) rfl
  | create manifestRepo hash clusterPrefix lifetime createId =>
    cases h
    exact .same (.refl n) rfl

lemma segment_records {processId : UInt64} {data : Data L} {now : ℕ}
    (h : writeStep n (.segment processId data now) = some t) : SameRecords n t ∧
      t.handle = (n.handle.onSegmentData n.store data processId now).1.handle := by
  unfold writeStep at h
  dsimp only at h
  split at h
  · obtain ⟨hobjects, hbuilt, hsent, hawaited⟩ := SameRecords.after h (by rw [onSegmentData_sent]; rfl)
    exact ⟨⟨hobjects, hbuilt, hsent, hawaited⟩, after_handle h⟩
  · cases h

/-- The step of a segment that completes a range. -/
lemma segment_completes {processId : UInt64} {data : Data L} {now : ℕ} {process : ProcessInfo L}
    (h : writeStep n (.segment processId data now) = some t) (hp : n.handle.mProcesses processId = some process)
    (hc : CompletesRange n.store process data) : SameRecords n t ∧ ∃ process',
      t.handle.mProcesses = Function.update n.handle.mProcesses processId (some process') ∧
        process'.manifest = process.manifest ∧ process'.response.code = 200 := by
  obtain ⟨records, hhandle⟩ := segment_records h
  obtain ⟨process', hm, hmanifest, -, hresponse⟩ := onSegmentData_completes now hp hc
  exact ⟨records, process', by rw [hhandle, hm], hmanifest, by rw [hresponse]⟩

lemma segment_change {processId : UInt64} {data : Data L} {now : ℕ}
    (h : writeStep n (.segment processId data now) = some t) : ProcessChange n t (.segment processId data now) := by
  obtain ⟨records, hhandle⟩ := segment_records h
  cases hp : n.handle.mProcesses processId with
  | none => exact .same records (by rw [hhandle, onSegmentData_none hp])
  | some process =>
    by_cases hc : CompletesRange n.store process data
    · obtain ⟨process', hm, hmanifest, hsent, hresponse⟩ := onSegmentData_completes now hp hc
      have hstop : process'.response.endBlockId = process.response.endBlockId := by
        rw [hresponse]
        exact endBlockId_countInsert _ _
      exact .completed processId data now process process' rfl records hp hc hmanifest hsent hstop
        (by rw [hhandle, hm])
    · obtain ⟨process', hm, hk⟩ := onSegmentData_keeps now hp hc
      exact .kept processId process process' records hp hk (by rw [hhandle, hm])

theorem writeStep_change (h : writeStep n e = some t) : ProcessChange n t e := by
  cases e with
  | keySpace keySpace =>
    cases h
    exact .same ⟨rfl, rfl, List.Subset.refl _, List.Subset.refl _⟩ rfl
  | insert interest parameter =>
    refine .same (.after h (handleInsertCommand_awaits n.handle n.keySpace interest parameter)) ?_
    rw [after_handle h, handleInsertCommand_handle]
  | data i content valid processId now =>
    unfold writeStep at h
    dsimp only at h
    split at h
    · exact (onData_change h).of_pending List.erase_subset
    · cases h
  | timeout i =>
    unfold writeStep at h
    dsimp only at h
    split at h
    · exact (onTimeout_change h).of_pending List.erase_subset
    · cases h
  | segment processId data now => exact segment_change h
  | segmentTimeout processId =>
    unfold writeStep at h
    dsimp only at h
    split at h
    · exact .same (.after h rfl) (by rw [after_handle h]; rfl)
    · cases h
  | check processId now =>
    obtain ⟨hsent, hsame | ⟨process, process', hp, hk, hm⟩⟩ := handleCheckCommand_outcome n.handle processId now
    · exact .same (.after h (by rw [hsent]; rfl)) (by rw [after_handle h, hsame])
    · exact .kept processId process process' (.after h (by rw [hsent]; rfl)) hp hk (by rw [after_handle h, hm])
  | info processId =>
    obtain ⟨hsame, hsent⟩ := handleInfoCommand_outcome sha1 n.handle processId
    exact .same (.after h (by rw [hsent]; rfl)) (by rw [after_handle h, hsame])
  | deleteProcess processId =>
    unfold writeStep at h
    dsimp only at h
    split at h
    · cases h
      exact .deleted processId ⟨rfl, rfl, List.Subset.refl _, List.Subset.refl _⟩ rfl
    · cases h

end Steps

end Difs
