import Difs.Insert.Admission
import Difs.Insert.WriteNode

/-!
# What the handlers of an insert do

One handler of a node changes at most one process of the write handle, adds at most one manifest
and sends at most one Interest. The settings of a node never change.
-/

namespace Difs

open EventRun Exchange WriteHandle

variable {L : NameLibrary} {sha1 : String → String}

/-- What no handler changes in a node, and what it only adds to. -/
structure SameSettings (s s' : InsertNode L sha1) : Prop where
  keySpace : s'.keySpace = s.keySpace
  objects : s'.objects = s.objects
  random : s'.random = s.random
  clusterNodePrefix : s'.write.mClusterNodePrefix = s.write.mClusterNodePrefix
  clusterPrefix : s'.write.mClusterPrefix = s.write.mClusterPrefix
  repoPrefix : s'.write.mRepoPrefix = s.write.mRepoPrefix
  answers : ∀ a ∈ s.answers, a ∈ s'.answers

lemma SameSettings.refl (s : InsertNode L sha1) : SameSettings s s :=
  ⟨rfl, rfl, rfl, rfl, rfl, rfl, fun _ ha => ha⟩

/-- The settings of a write handle. -/
structure SamePrefixes (h h' : WriteHandle L) : Prop where
  clusterNodePrefix : h'.mClusterNodePrefix = h.mClusterNodePrefix
  clusterPrefix : h'.mClusterPrefix = h.mClusterPrefix
  repoPrefix : h'.mRepoPrefix = h.mRepoPrefix

/-- A command for one object, not for a range of segments. -/
def RepoCommandParameter.Single (parameter : RepoCommandParameter L) : Prop :=
  parameter.hasStartBlockId = false ∧ parameter.hasEndBlockId = false

instance (parameter : RepoCommandParameter L) : Decidable parameter.Single :=
  inferInstanceAs (Decidable (_ ∧ _))

/-- A command was told the id. -/
def Drawn (s : InsertNode L sha1) (processId : UInt64) : Prop :=
  ∃ a ∈ s.answers, a.response.processId = some processId

/-- The node that draws the id of a process: a find came back empty. -/
def drawsAt : InsertEvent L → Option String
  | .response x (.write (.find _ _ _ _ _ _)) .empty => some x
  | _ => none

/-- What an event at `x` does to its processes. The manifest of a process that is there before and
after is the same, unless the object was announced just now; the reply to a find starts a process
under the id that is drawn. -/
inductive ProcessesAfter (e : InsertEvent L) (x : String) (s s' : InsertNode L sha1) : Prop where
  | same (processes : s'.write.mProcesses = s.write.mProcesses)
  | deleted (processId : UInt64) (event : ∃ i, e = .timeout x i ∧ i.asked = none)
      (processes : s'.write.mProcesses = Function.update s.write.mProcesses processId none)
  | kept (processId : UInt64) (process process' : ProcessInfo L) (hp : s.write.mProcesses processId = some process)
      (manifest : process'.manifest = process.manifest) (manifestSent : process'.manifestSent = process.manifestSent)
      (processes : s'.write.mProcesses = Function.update s.write.mProcesses processId (some process'))
  | started (process' : ProcessInfo L) (draws : drawsAt e = some x)
      (drawn : Drawn s' (s.random s.draws))
      (manifest : process'.manifest = (s.write.process (s.random s.draws)).manifest)
      (manifestSent : process'.manifestSent = (s.write.process (s.random s.draws)).manifestSent)
      (processes : s'.write.mProcesses = Function.update s.write.mProcesses (s.random s.draws) (some process'))
  | announced (processId : UInt64) (process process' : ProcessInfo L)
      (event : ∃ name nodePrefix lifetime content,
        e = .response x (.write (.object name nodePrefix lifetime processId)) content)
      (hp : s.write.mProcesses processId = some process) (notSent : process.manifestSent = false)
      (processes : s'.write.mProcesses = Function.update s.write.mProcesses processId (some process'))

/-- What an event at `x` does to the processes of its manifest handle. -/
inductive CreatesAfter (e : InsertEvent L) (x : String) (s s' : InsertNode L sha1) : Prop where
  | same (creates : s'.creates = s.creates)
  | deleted (processId : UInt64) (event : e = .input x (.expire processId) ∨
      ∃ repo hash, e = .timeout x (.writeInfo repo hash processId))
      (creates : s'.creates = Function.update s.creates processId none)
  | created (processId : UInt64)
      (creates : s'.creates = Function.update s.creates processId (some ((s.creates processId).getD 0)))
  | stored (repo hash : String) (processId : UInt64) (json : ManifestJson) (m : Manifest)
      (from_json : Manifest.fromJson json = some m)
      (event : e = .response x (.writeInfo repo hash processId) (.manifest json))
      (creates : s'.creates = Function.update s.creates processId (some 1))
      (manifests : s'.manifests = s.manifests.insertManifest m (Manifest.mHash_of_fromJson from_json))

/-! ### The write handle -/

section Write

variable {w : WriteHandle L} {parameter : RepoCommandParameter L} {processId : UInt64} {now : ℕ}
  {keySpace : KeySpaceHandle} {nodePrefix : Option (List String)}

lemma SamePrefixes.refl (h : WriteHandle L) : SamePrefixes h h := ⟨rfl, rfl, rfl⟩

lemma SamePrefixes.trans {h₁ h₂ h₃ : WriteHandle L} (h : SamePrefixes h₁ h₂) (h' : SamePrefixes h₂ h₃) :
    SamePrefixes h₁ h₃ :=
  ⟨h'.clusterNodePrefix.trans h.clusterNodePrefix, h'.clusterPrefix.trans h.clusterPrefix,
    h'.repoPrefix.trans h.repoPrefix⟩

lemma handleInsertCommand_find {k : ℕ} {i : WriteInterest L}
    (h : i ∈ (w.handleInsertCommand sha1 keySpace k parameter).sent) :
    ∃ repo hash findId lifetime interest, i = .find repo hash findId lifetime interest parameter := by
  unfold handleInsertCommand at h
  split at h
  · cases h
  · dsimp only at h
    split at h
    · cases h
    · exact ⟨_, _, _, _, _, List.mem_singleton.mp h⟩

lemma onFindResponse_prefixes (found : Bool) :
    SamePrefixes w (w.onFindResponse found parameter processId now).handle := by
  have hsegmented : SamePrefixes w (w.processSegmentedInsertCommand parameter processId now).handle := by
    unfold processSegmentedInsertCommand
    dsimp only
    split_ifs <;> exact ⟨rfl, rfl, rfl⟩
  unfold onFindResponse
  dsimp only
  split_ifs
  · exact .refl w
  · exact ⟨hsegmented.clusterNodePrefix, hsegmented.clusterPrefix, hsegmented.repoPrefix⟩
  · exact ⟨rfl, rfl, rfl⟩
  · exact hsegmented
  · exact ⟨rfl, rfl, rfl⟩

lemma segInit_prefixes (h : WriteHandle L) (processId : UInt64) (parameter : RepoCommandParameter L) (now : ℕ) :
    SamePrefixes h (h.segInit processId parameter now).handle := ⟨rfl, rfl, rfl⟩

lemma writeManifest_prefixes (sha1 : String → String) (w : WriteHandle L) (keySpace : KeySpaceHandle)
    (processId : UInt64) : SamePrefixes w (w.writeManifest sha1 keySpace processId).handle := by
  unfold writeManifest
  dsimp only
  split <;> exact ⟨rfl, rfl, rfl⟩

lemma onDataValidated_prefixes (json : Option InfoJson) :
    SamePrefixes w (w.onDataValidated sha1 keySpace nodePrefix json processId now).handle := by
  unfold onDataValidated
  cases w.mProcesses processId with
  | none => exact .refl w
  | some process =>
    cases json with
    | none => exact .refl w
    | some json =>
      have hmanifest := writeManifest_prefixes sha1 (w.setProcess processId
        { announced process w.mRepoPrefix (Manifest.fromInfoJson json) with manifestSent := true }) keySpace processId
      have hset : SamePrefixes w (w.setProcess processId
        { announced process w.mRepoPrefix (Manifest.fromInfoJson json) with manifestSent := true }) := ⟨rfl, rfl, rfl⟩
      dsimp only
      split_ifs with hsent hthrew
      · exact ⟨rfl, rfl, rfl⟩
      · exact ⟨rfl, rfl, rfl⟩
      · exact hset.trans hmanifest
      · exact (hset.trans hmanifest).trans (segInit_prefixes _ _ _ _)

/-- A command is told an id exactly if it starts a process. -/
lemma onFindResponse_told {found : Bool} {response : RepoCommandResponse}
    (h : (w.onFindResponse found parameter processId now).done = some response) :
    response.code = 100 ∧ response.processId = some processId ∨ response.code = 403 ∧ response.processId = none := by
  have hsegmented : (w.processSegmentedInsertCommand parameter processId now).done = some response →
      response.code = 100 ∧ response.processId = some processId ∨
        response.code = 403 ∧ response.processId = none := by
    intro hdone
    unfold processSegmentedInsertCommand at hdone
    dsimp only at hdone
    by_cases hend : parameter.hasEndBlockId
    · rw [if_pos hend] at hdone
      by_cases hgt : (if parameter.hasStartBlockId then parameter.startBlockId else 0) > parameter.endBlockId
      · rw [if_pos hgt] at hdone
        cases hdone
        exact Or.inr ⟨rfl, rfl⟩
      · rw [if_neg hgt] at hdone
        cases hdone
        exact Or.inl ⟨rfl, rfl⟩
    · rw [if_neg hend] at hdone
      cases hdone
      exact Or.inl ⟨rfl, rfl⟩
  unfold onFindResponse at h
  dsimp only at h
  split_ifs at h
  · cases h
    exact Or.inr ⟨rfl, rfl⟩
  · exact hsegmented h
  · cases h
    exact Or.inl ⟨rfl, rfl⟩
  · exact hsegmented h
  · cases h
    exact Or.inl ⟨rfl, rfl⟩

/-- Only a single insert asks for an object, and it asks for the one that its command names. -/
lemma onFindResponse_object {found : Bool} {i : WriteInterest L}
    (h : i ∈ (w.onFindResponse found parameter processId now).sent) :
    i = .object parameter.name parameter.nodePrefix w.mInterestLifetime processId ∧ parameter.Single ∧
      ∃ response, (w.onFindResponse found parameter processId now).done = some response ∧ response.code = 100 ∧
        response.processId = some processId := by
  have hsegmented : (w.processSegmentedInsertCommand parameter processId now).sent = [] := by
    unfold processSegmentedInsertCommand
    dsimp only
    split_ifs <;> rfl
  have hsingle : ¬ (parameter.hasStartBlockId || parameter.hasEndBlockId) = true → parameter.Single := by
    intro hnot
    rw [Bool.or_eq_true, not_or, Bool.not_eq_true, Bool.not_eq_true] at hnot
    exact hnot
  unfold onFindResponse at h ⊢
  dsimp only at h ⊢
  split_ifs at h ⊢ with hfound hlifetime hseg hseg
  · cases h
  · rw [hsegmented] at h
    cases h
  · exact ⟨List.mem_singleton.mp h, hsingle hseg, _, rfl, rfl, rfl⟩
  · rw [hsegmented] at h
    cases h
  · exact ⟨List.mem_singleton.mp h, hsingle hseg, _, rfl, rfl, rfl⟩

/-- A single insert that is accepted asks for its object. -/
lemma onFindResponse_single {found : Bool} {response : RepoCommandResponse} (hsingle : parameter.Single)
    (hdone : (w.onFindResponse found parameter processId now).done = some response) (hcode : response.code = 100) :
    .object parameter.name parameter.nodePrefix w.mInterestLifetime processId ∈
        (w.onFindResponse found parameter processId now).sent ∧
      ∃ process', (w.onFindResponse found parameter processId now).handle.mProcesses =
          Function.update w.mProcesses processId (some process') ∧
        process'.manifestSent = (w.process processId).manifestSent := by
  have hnot : ¬ (parameter.hasStartBlockId || parameter.hasEndBlockId) = true := by
    rw [hsingle.1, hsingle.2]
    decide
  unfold onFindResponse at hdone ⊢
  dsimp only at hdone ⊢
  rw [if_neg hnot] at hdone ⊢
  split_ifs at hdone ⊢
  · cases hdone
    cases hcode
  · exact ⟨List.mem_singleton_self _, _, rfl, rfl⟩
  · exact ⟨List.mem_singleton_self _, _, rfl, rfl⟩

/-- The manifest that a process gets from the announcement of its object. -/
def announcedManifest (process : ProcessInfo L) (repo : String) (json : InfoJson) : Manifest :=
  newManifest (announced process repo (Manifest.fromInfoJson json))

/-- The first announcement builds the manifest, and sends its create where the hash has a node. -/
lemma onDataValidated_built (sha1 : String → String) (keySpace : KeySpaceHandle)
    (nodePrefix : Option (List String)) (now : ℕ) {process : ProcessInfo L} (hp : w.mProcesses processId = some process)
    (hnot : process.manifestSent = false) (json : InfoJson) :
    let manifest := announcedManifest process w.mRepoPrefix json
    let o := w.onDataValidated sha1 keySpace nodePrefix (some json) processId now
    (∃ process', o.handle.mProcesses = Function.update w.mProcesses processId (some process') ∧
      process'.manifest = some manifest ∧ process'.manifestSent = true) ∧
    o.threw = (keySpace.getManifestStorage (manifest.getHash sha1)).isNone ∧
    o.sent = (keySpace.getManifestStorage (manifest.getHash sha1)).toList.map (fun repo =>
      .create repo (manifest.getHash sha1) w.mClusterNodePrefix w.mInterestLifetime processId) := by
  intro manifest o
  have hmanifest : newManifest
      { announced process w.mRepoPrefix (Manifest.fromInfoJson json) with manifestSent := true } = manifest := rfl
  have hsent : (announced process w.mRepoPrefix (Manifest.fromInfoJson json)).manifestSent = false := hnot
  have ho : o = w.onDataValidated sha1 keySpace nodePrefix (some json) processId now := rfl
  unfold onDataValidated at ho
  simp only [hp, hsent, Bool.false_eq_true, if_false] at ho
  unfold writeManifest at ho
  simp only [process_setProcess, hmanifest] at ho
  cases hrepo : keySpace.getManifestStorage (manifest.getHash sha1) with
  | none =>
    simp only [hrepo, if_true] at ho
    rw [ho]
    exact ⟨⟨_, Function.update_idem _ _ _, rfl, rfl⟩, rfl, rfl⟩
  | some repo =>
    simp only [hrepo, Bool.false_eq_true, if_false] at ho
    obtain ⟨process', hm, hk, -⟩ := segInit_setProcess
      (w.setProcess processId
        { announced process w.mRepoPrefix (Manifest.fromInfoJson json) with manifestSent := true }) processId
      { announced process w.mRepoPrefix (Manifest.fromInfoJson json) with
        manifestSent := true, manifest := some manifest }
      { name := L.ofUri (Manifest.fromInfoJson json).mName, nodePrefix := nodePrefix, hasStartBlockId := true } now
    rw [ho]
    exact ⟨⟨process', hm.trans (Function.update_idem _ _ _), hk.manifest, hk.manifestSent⟩, rfl, rfl⟩

/-- A later announcement builds no manifest. -/
lemma onDataValidated_known (sha1 : String → String) (keySpace : KeySpaceHandle)
    (nodePrefix : Option (List String)) (now : ℕ) {process : ProcessInfo L} (hp : w.mProcesses processId = some process)
    (hsent : process.manifestSent = true) (json : InfoJson) :
    let o := w.onDataValidated sha1 keySpace nodePrefix (some json) processId now
    (∃ process', o.handle.mProcesses = Function.update w.mProcesses processId (some process') ∧
      process'.manifest = process.manifest ∧ process'.manifestSent = process.manifestSent) ∧
    o.threw = false ∧ o.sent = [] := by
  intro o
  have hms : (announced process w.mRepoPrefix (Manifest.fromInfoJson json)).manifestSent = true := hsent
  have ho : o = w.onDataValidated sha1 keySpace nodePrefix (some json) processId now := rfl
  unfold onDataValidated at ho
  simp only [hp, hms, Bool.false_eq_true, if_true, if_false] at ho
  obtain ⟨process', hm, hk, -⟩ := segInit_setProcess w processId
    (announced process w.mRepoPrefix (Manifest.fromInfoJson json))
    { name := L.ofUri (Manifest.fromInfoJson json).mName, nodePrefix := nodePrefix, hasStartBlockId := true } now
  rw [ho]
  exact ⟨⟨process', hm, hk.manifest, hk.manifestSent⟩, rfl, rfl⟩

lemma onDataValidated_no_object {json : Option InfoJson} {name : L.Name} {other : Option (List String)}
    {lifetime : ℕ} {otherId : UInt64} : WriteInterest.object name other lifetime otherId ∉
      (w.onDataValidated sha1 keySpace nodePrefix json processId now).sent := by
  intro h
  cases hp : w.mProcesses processId with
  | none =>
    rw [onDataValidated, hp] at h
    cases h
  | some process =>
    cases json with
    | none =>
      rw [onDataValidated, hp] at h
      cases h
    | some json =>
      cases hsent : process.manifestSent with
      | true =>
        rw [(onDataValidated_known sha1 keySpace nodePrefix now hp hsent json).2.2] at h
        cases h
      | false =>
        rw [(onDataValidated_built sha1 keySpace nodePrefix now hp hsent json).2.2] at h
        obtain ⟨repo, -, heq⟩ := List.mem_map.mp h
        cases heq

end Write

/-! ### The node -/

section Node

variable {s : InsertNode L sha1} {a : InsertInterest L} {content : InsertContent} {processId : UInt64}

lemma handleFindCommand_node (hash : String) : SameSettings s (s.handleFindCommand hash).node ∧
    (s.handleFindCommand hash).node.write = s.write ∧ (s.handleFindCommand hash).node.manifests = s.manifests := by
  unfold InsertNode.handleFindCommand
  split <;> exact ⟨⟨rfl, rfl, rfl, rfl, rfl, rfl, fun _ ha => ha⟩, rfl, rfl⟩

lemma handleFindCommand_sent (hash : String) : (s.handleFindCommand hash).sent = [] := by
  unfold InsertNode.handleFindCommand
  split <;> rfl

lemma onInfoValidated_node : SameSettings s (s.onInfoValidated content processId).node ∧
    (s.onInfoValidated content processId).node.write = s.write ∧ (s.onInfoValidated content processId).sent = [] := by
  have hsame : ∀ s' : InsertNode L sha1, s'.keySpace = s.keySpace → s'.objects = s.objects → s'.random = s.random →
      s'.write = s.write → s'.answers = s.answers → SameSettings s s' := by
    intro s' hkeySpace hobjects hrandom hwrite hanswers
    refine ⟨hkeySpace, hobjects, hrandom, by rw [hwrite], by rw [hwrite], by rw [hwrite], ?_⟩
    rw [hanswers]
    exact fun _ ha => ha
  unfold InsertNode.onInfoValidated
  split
  · exact ⟨.refl s, rfl, rfl⟩
  · split_ifs
    · split
      · split <;> exact ⟨hsame _ rfl rfl rfl rfl rfl, rfl, rfl⟩
      · exact ⟨hsame _ rfl rfl rfl rfl rfl, rfl, rfl⟩
    · exact ⟨.refl s, rfl, rfl⟩

/-- The manifests of a node after the answer to its Interest for a manifest. -/
lemma onInfoValidated_manifests (s : InsertNode L sha1) (content : InsertContent) (processId : UInt64) :
    (s.onInfoValidated content processId).node.manifests = s.manifests ∨
      ∃ json m, ∃ hm : Manifest.fromJson json = some m, content = .manifest json ∧
        (s.onInfoValidated content processId).node.manifests =
          s.manifests.insertManifest m (Manifest.mHash_of_fromJson hm) := by
  unfold InsertNode.onInfoValidated
  split
  · exact Or.inl rfl
  · split_ifs
    · split
      · rename_i json
        split
        · exact Or.inl rfl
        · rename_i m hm
          exact Or.inr ⟨json, m, hm, rfl, rfl⟩
      · exact Or.inl rfl
    · exact Or.inl rfl

/-- A manifest that arrives for a process without one is stored. -/
lemma onInfoValidated_stores {json : ManifestJson} {m : Manifest} (hc : s.creates processId = some 0)
    (hm : Manifest.fromJson json = some m) :
    (s.onInfoValidated (.manifest json) processId).node =
      { s with
        manifests := s.manifests.insertManifest m (Manifest.mHash_of_fromJson hm)
        creates := Function.update s.creates processId (some 1) } := by
  unfold InsertNode.onInfoValidated
  simp only [hc, if_true]
  split
  · rename_i hnone
    rw [hm] at hnone
    cases hnone
  · rename_i m' hm'
    rw [hm] at hm'
    cases hm'
    rfl

lemma onInfoValidated_creates (x repo hash : String) (s : InsertNode L sha1) (content : InsertContent)
    (processId : UInt64) : CreatesAfter (.response x (.writeInfo repo hash processId) content) x s
      (s.onInfoValidated content processId).node := by
  cases hc : s.creates processId with
  | none =>
    apply CreatesAfter.same
    unfold InsertNode.onInfoValidated
    rw [hc]
  | some insertNum =>
    by_cases hzero : insertNum = 0
    · subst hzero
      cases content with
      | manifest json =>
        cases hm : Manifest.fromJson json with
        | none =>
          apply CreatesAfter.same
          unfold InsertNode.onInfoValidated
          simp only [hc, if_true]
          split
          · rfl
          · rename_i m hm'
            rw [hm] at hm'
            cases hm'
        | some m =>
          have hnode := onInfoValidated_stores hc hm
          exact .stored repo hash processId json m hm rfl (by rw [hnode]) (by rw [hnode])
      | _ =>
        apply CreatesAfter.same
        unfold InsertNode.onInfoValidated
        simp only [hc, if_true]
    · apply CreatesAfter.same
      unfold InsertNode.onInfoValidated
      simp only [hc, if_neg hzero]

/-- A write handle that keeps its prefixes, in a node that draws. -/
lemma afterWrite_settings {o : WriteOutcome L} (ho : SamePrefixes s.write o.handle) : SameSettings s (s.afterWrite o) :=
  ⟨rfl, rfl, rfl, ho.clusterNodePrefix, ho.clusterPrefix, ho.repoPrefix, fun _ ha => ha⟩

lemma onCommand_node (c : InsertCommand L) : SameSettings s (s.onCommand c).node ∧
    (s.onCommand c).node.write = s.write ∧ (s.onCommand c).node.manifests = s.manifests := by
  cases c with
  | insert parameter =>
    have hhandle : (s.onCommand (.insert parameter)).node.write = s.write :=
      handleInsertCommand_handle s.write s.keySpace s.received.length parameter
    refine ⟨⟨rfl, rfl, rfl, ?_, ?_, ?_, fun _ ha => ha⟩, hhandle, rfl⟩ <;> rw [hhandle]
  | expire processId => exact ⟨⟨rfl, rfl, rfl, rfl, rfl, rfl, fun _ ha => ha⟩, rfl, rfl⟩

lemma onRequest_node (a : InsertInterest L) : SameSettings s (s.onRequest a).node ∧
    (s.onRequest a).node.write = s.write ∧ (s.onRequest a).node.manifests = s.manifests := by
  cases a with
  | write i =>
    cases i with
    | find repo hash findId lifetime interest parameter => exact handleFindCommand_node hash
    | object name nodePrefix lifetime bound => exact ⟨.refl s, rfl, rfl⟩
    | create manifestRepo hash clusterPrefix lifetime createId =>
      exact ⟨⟨rfl, rfl, rfl, rfl, rfl, rfl, fun _ ha => ha⟩, rfl, rfl⟩
  | writeInfo repo hash processId =>
    have hhandle := (handleInfoCommand_outcome sha1 s.write processId).1
    refine ⟨afterWrite_settings ?_, hhandle, rfl⟩
    rw [hhandle]
    exact .refl _

lemma onFindResponse_settings (k : ℕ) (parameter : RepoCommandParameter L) :
    SameSettings s (s.onFindResponse content k parameter).node := by
  have ho : SamePrefixes s.write (s.onFindResponse content k parameter).node.write := onFindResponse_prefixes _
  refine ⟨rfl, rfl, rfl, ho.clusterNodePrefix, ho.clusterPrefix, ho.repoPrefix, ?_⟩
  exact fun a ha => List.mem_append_left _ ha

lemma onResponse_settings (a : InsertInterest L) : SameSettings s (s.onResponse a content).node := by
  cases a with
  | write i =>
    cases i with
    | find repo hash findId lifetime interest parameter => exact onFindResponse_settings interest parameter
    | object name nodePrefix lifetime bound => exact afterWrite_settings (onDataValidated_prefixes _)
    | create manifestRepo hash clusterPrefix lifetime createId => exact .refl s
  | writeInfo repo hash processId => exact onInfoValidated_node.1

lemma onTimeout_settings (a : InsertInterest L) : SameSettings s (s.onTimeout a).node := by
  cases a with
  | write i =>
    cases i with
    | find repo hash findId lifetime interest parameter => exact .refl s
    | object name nodePrefix lifetime bound => exact afterWrite_settings ⟨rfl, rfl, rfl⟩
    | create manifestRepo hash clusterPrefix lifetime createId => exact .refl s
  | writeInfo repo hash processId => exact ⟨rfl, rfl, rfl, rfl, rfl, rfl, fun _ ha => ha⟩

/-- The manifests of a node change only when a manifest arrives that it asked for. -/
lemma onResponse_manifests (s : InsertNode L sha1) (content : InsertContent) (a : InsertInterest L) :
    (s.onResponse a content).node.manifests = s.manifests ∨
      ∃ repo hash processId json m, ∃ hm : Manifest.fromJson json = some m, a = .writeInfo repo hash processId ∧
        content = .manifest json ∧ (s.onResponse a content).node.manifests =
          s.manifests.insertManifest m (Manifest.mHash_of_fromJson hm) := by
  cases a with
  | write i => cases i <;> exact Or.inl rfl
  | writeInfo repo hash processId =>
    obtain hsame | ⟨json, m, hm, hcontent, hstored⟩ :=
      onInfoValidated_manifests s content processId
    · exact Or.inl hsame
    · exact Or.inr ⟨repo, hash, processId, json, m, hm, rfl, hcontent, hstored⟩

lemma onTimeout_sent (a : InsertInterest L) : (s.onTimeout a).sent = [] := by
  cases a with
  | write i => cases i <;> rfl
  | writeInfo repo hash processId => rfl

lemma onTimeout_manifests (a : InsertInterest L) : (s.onTimeout a).node.manifests = s.manifests := by
  cases a with
  | write i => cases i <;> rfl
  | writeInfo repo hash processId => rfl

/-- A command that is told an id has found nothing. -/
lemma onFindResponse_told_id {parameter : RepoCommandParameter L} {response : RepoCommandResponse}
    (hdone : (s.write.onFindResponse (content ≠ .empty) parameter (s.random s.draws) (s.clock s.draws)).done =
      some response) (hcode : response.code = 100) :
    content = .empty ∧ response.processId = some (s.random s.draws) := by
  obtain ⟨-, hid⟩ | ⟨hcode', -⟩ := onFindResponse_told hdone
  · refine ⟨?_, hid⟩
    by_contra hne
    rw [decide_eq_true hne, onFindResponse_found] at hdone
    cases hdone
    cases hid
  · rw [hcode] at hcode'
    cases hcode'

lemma onFindResponse_processes {repo hash : String} {findId : UInt64} {lifetime : ℕ} (x : String) (k : ℕ)
    (parameter : RepoCommandParameter L) :
    ProcessesAfter (.response x (.write (.find repo hash findId lifetime k parameter)) content) x s
      (s.onFindResponse content k parameter).node := by
  have hdrawn : WriteNode.starts (s.write.onFindResponse (content ≠ .empty) parameter (s.random s.draws)
      (s.clock s.draws)) → Drawn (s.onFindResponse content k parameter).node (s.random s.draws) ∧
        drawsAt (.response x (.write (.find repo hash findId lifetime k parameter)) content) = some x := by
    intro hstarts
    obtain ⟨response, hdone, hcode⟩ := (Option.any_eq_true _ _).mp hstarts
    obtain ⟨rfl, hid⟩ := onFindResponse_told_id hdone (of_decide_eq_true hcode)
    refine ⟨⟨⟨k, parameter, response⟩, List.mem_append_right _ ?_, hid⟩, rfl⟩
    rw [hdone]
    exact List.mem_singleton_self _
  cases onFindResponse_outcome s.write (content ≠ .empty) parameter (s.random s.draws) (s.clock s.draws) with
  | refused starts sent processes => exact .same processes
  | segmented process' starts sent processes started =>
    exact .started process' (hdrawn starts).2 (hdrawn starts).1 started.manifest started.manifestSent processes
  | single process' name nodePrefix lifetime starts sent processes started endBlockId =>
    exact .started process' (hdrawn starts).2 (hdrawn starts).1 started.manifest started.manifestSent processes

lemma onDataValidated_processes (x : String) (name : L.Name) (nodePrefix : Option (List String)) (lifetime : ℕ)
    (content : InsertContent) (json : Option InfoJson) (now : ℕ) :
    ProcessesAfter (.response x (.write (.object name nodePrefix lifetime processId)) content) x s
      (s.afterWrite (s.write.onDataValidated sha1 s.keySpace nodePrefix json processId now)) := by
  cases hp : s.write.mProcesses processId with
  | none =>
    apply ProcessesAfter.same
    unfold onDataValidated
    rw [hp]
    rfl
  | some process =>
    cases json with
    | none =>
      apply ProcessesAfter.same
      unfold onDataValidated
      rw [hp]
      rfl
    | some json =>
      cases hsent : process.manifestSent with
      | true =>
        obtain ⟨⟨process', hm, hmanifest, hkept⟩, -, -⟩ := onDataValidated_known sha1 s.keySpace nodePrefix now hp
          hsent json
        exact .kept processId process process' hp hmanifest hkept hm
      | false =>
        obtain ⟨⟨process', hm, -, -⟩, -, -⟩ := onDataValidated_built sha1 s.keySpace nodePrefix now hp
          hsent json
        exact .announced processId process process' ⟨name, nodePrefix, lifetime, content, rfl⟩ hp hsent hm

end Node

/-! ### Reactions -/

section Reactions

variable {n : InsertNet L sha1} {e : InsertEvent L} {x : String} {r : InsertNode.Result L sha1}

theorem settings_of_reacts (hr : Reacts (insertNetwork L sha1) n e x r) : SameSettings (n.node x) r.node := by
  cases hr with
  | input x c => exact (onCommand_node c).1
  | request hm => exact (onRequest_node _).1
  | response hm hp => exact onResponse_settings _
  | timeout hp => exact onTimeout_settings _

theorem processes_of_reacts (hr : Reacts (insertNetwork L sha1) n e x r) :
    ProcessesAfter e x (n.node x) r.node := by
  cases hr with
  | input x c => exact .same (congrArg WriteHandle.mProcesses (onCommand_node c).2.1)
  | @request x a hm => exact .same (congrArg WriteHandle.mProcesses (onRequest_node a).2.1)
  | @response x a d hm hp =>
    cases a with
    | write i =>
      cases i with
      | find repo hash findId lifetime interest parameter => exact onFindResponse_processes x interest parameter
      | object name nodePrefix lifetime bound => exact onDataValidated_processes x name nodePrefix lifetime d _ _
      | create manifestRepo hash clusterPrefix lifetime createId => exact .same rfl
    | writeInfo repo hash processId => exact .same (congrArg WriteHandle.mProcesses onInfoValidated_node.2.1)
  | @timeout x a hp =>
    cases a with
    | write i =>
      cases i with
      | find repo hash findId lifetime interest parameter => exact .same rfl
      | object name nodePrefix lifetime bound => exact .deleted bound ⟨_, rfl, rfl⟩ rfl
      | create manifestRepo hash clusterPrefix lifetime createId => exact .same rfl
    | writeInfo repo hash processId => exact .same rfl

theorem creates_of_reacts (hr : Reacts (insertNetwork L sha1) n e x r) :
    CreatesAfter e x (n.node x) r.node := by
  cases hr with
  | input x c =>
    cases c with
    | insert parameter => exact .same rfl
    | expire processId => exact .deleted processId (Or.inl rfl) rfl
  | @request y a hm =>
    cases a with
    | write i =>
      cases i with
      | find repo hash findId lifetime interest parameter =>
        apply CreatesAfter.same
        change ((n.node repo).handleFindCommand hash).node.creates = _
        unfold InsertNode.handleFindCommand
        split <;> rfl
      | object name nodePrefix lifetime bound => exact .same rfl
      | create repo hash clusterPrefix lifetime createId => exact .created createId rfl
    | writeInfo repo hash processId => exact .same rfl
  | @response x a d hm hp =>
    cases a with
    | write i => cases i <;> exact .same rfl
    | writeInfo repo hash processId => exact onInfoValidated_creates x repo hash (n.node x) d processId
  | @timeout x a hp =>
    cases a with
    | write i => cases i <;> exact .same rfl
    | writeInfo repo hash processId => exact .deleted processId (Or.inr ⟨repo, hash, rfl⟩) rfl

/-- The manifests of a node change only when one arrives. -/
theorem manifests_of_reacts (hr : Reacts (insertNetwork L sha1) n e x r) :
    r.node.manifests = (n.node x).manifests ∨ ∃ json m, ∃ hm : Manifest.fromJson json = some m,
      r.node.manifests = (n.node x).manifests.insertManifest m (Manifest.mHash_of_fromJson hm) := by
  cases hr with
  | input x c => exact Or.inl (onCommand_node c).2.2
  | @request y a hm => exact Or.inl (onRequest_node a).2.2
  | @response x a d hm hp =>
    obtain hkeeps | ⟨_, _, _, json, m, hfrom, -, -, hstored⟩ := onResponse_manifests (n.node x) d a
    · exact Or.inl hkeeps
    · exact Or.inr ⟨json, m, hfrom, hstored⟩
  | @timeout x a hp => exact Or.inl (onTimeout_manifests a)

/-- Only the reply to a find makes a node ask for an object, and for the id it draws. -/
lemma object_of_sent (hr : Reacts (insertNetwork L sha1) n e x r) {name : L.Name}
    {nodePrefix : Option (List String)} {lifetime : ℕ} {processId : UInt64}
    (hb : InsertInterest.write (.object name nodePrefix lifetime processId) ∈ r.sent) :
    drawsAt e = some x ∧ processId = (n.node x).random (n.node x).draws := by
  cases hr with
  | input x c =>
    cases c with
    | insert parameter =>
      obtain ⟨i, hi, heq⟩ := List.mem_map.mp hb
      obtain ⟨_, _, _, _, _, rfl⟩ := handleInsertCommand_find hi
      cases heq
    | expire processId => cases hb
  | @request y a hm =>
    cases a with
    | write i =>
      cases i with
      | find repo hash findId lifetime interest parameter =>
        have hnil : ((n.node repo).handleFindCommand hash).sent = [] := handleFindCommand_sent hash
        exact absurd hb (List.eq_nil_iff_forall_not_mem.mp hnil _)
      | object name nodePrefix lifetime bound => cases hb
      | create repo hash clusterPrefix lifetime createId =>
        have heq := List.mem_singleton.mp hb
        cases heq
    | writeInfo repo hash processId => cases hb
  | @response x a d hm hp =>
    cases a with
    | write i =>
      cases i with
      | find repo hash findId findLifetime interest parameter =>
        obtain ⟨i, hi, heq⟩ := List.mem_map.mp hb
        obtain ⟨rfl, -, response, hdone, hcode, -⟩ := onFindResponse_object hi
        cases heq
        obtain ⟨rfl, -⟩ := onFindResponse_told_id hdone hcode
        exact ⟨rfl, rfl⟩
      | object name' nodePrefix' lifetime' bound =>
        obtain ⟨i, hi, heq⟩ := List.mem_map.mp hb
        cases heq
        exact absurd hi onDataValidated_no_object
      | create repo hash clusterPrefix lifetime createId => cases hb
    | writeInfo repo hash processId =>
      have hnil : ((n.node x).onInfoValidated d processId).sent = [] := onInfoValidated_node.2.2
      exact absurd hb (List.eq_nil_iff_forall_not_mem.mp hnil _)
  | @timeout x a hp =>
    have hnil : ((n.node x).onTimeout a).sent = [] := onTimeout_sent a
    exact absurd hb (List.eq_nil_iff_forall_not_mem.mp hnil _)

/-- Only the reply to a find makes a node answer a command. -/
theorem answers_of_reacts (hr : Reacts (insertNetwork L sha1) n e x r) :
    r.node.answers = (n.node x).answers ∨ ∃ repo hash findId lifetime k parameter d,
      e = .response x (.write (.find repo hash findId lifetime k parameter)) d ∧
        r = (n.node x).onFindResponse d k parameter := by
  cases hr with
  | input x c => cases c <;> exact Or.inl rfl
  | @request y a hm => exact Or.inl unanswering_onRequest.answers
  | @response x a d hm hp =>
    cases ha : a.asked with
    | none => exact Or.inl (unanswering_onResponse d ha).answers
    | some c =>
      obtain ⟨repo, processId, lifetime, parameter, rfl⟩ := asked_eq_some ha
      exact Or.inr ⟨repo, c.1, processId, lifetime, c.2, parameter, d, rfl, rfl⟩
  | @timeout x a hp => exact Or.inl unanswering_onTimeout.answers

end Reactions

end Difs
