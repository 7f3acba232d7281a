import Difs.Insert.Completion
import Difs.Lib.Restriction

/-!
# Nodes that store segments

A node of the cluster with its storage and the fetchers of its inserts. Segments, checks and the
deferred deletions of processes are inputs of a node: no message is sent for them. What the nodes
do among each other they do as without them. Where only finds are lost, every single insert that is
accepted ends with its manifest stored, and a get finds it.
-/

namespace Difs

open EventRun Exchange WriteHandle

/-- The answers to checks are read by no handler. -/
structure RepoNode (L : NameLibrary) (sha1 : String → String) where
  insert : InsertNode L sha1
  store : DataStore L sha1
  fetching : List UInt64 := []
  deferred : List UInt64 := []
  checks : List (UInt64 × RepoCommandResponse) := []

/-- A node gets insert commands, segments from its fetchers, checks and what its scheduler calls. -/
inductive RepoInput (L : NameLibrary) where
  | insert (c : InsertCommand L)
  | segment (processId : UInt64) (data : Data L)
  | segmentTimeout (processId : UInt64)
  | check (processId : UInt64)
  | deleteProcess (processId : UInt64)

/-- What the part of a node without the storage knows of its inputs. -/
def RepoInput.insertCommand {L : NameLibrary} : RepoInput L → Option (InsertCommand L)
  | .insert c => some c
  | _ => none

def InsertContent.json : InsertContent → Option InfoJson
  | .info json => some json
  | _ => none

/-- The id and the time that a node draws next. -/
abbrev InsertNode.newId {L : NameLibrary} {sha1 : String → String} (s : InsertNode L sha1) : UInt64 := s.random s.draws

abbrev InsertNode.now {L : NameLibrary} {sha1 : String → String} (s : InsertNode L sha1) : ℕ := s.clock s.draws

/-- What the write handle makes of an answer. -/
def InsertNode.writeOutcome {L : NameLibrary} {sha1 : String → String} (s : InsertNode L sha1) :
    InsertInterest L → InsertContent → Option (WriteOutcome L)
  | .write (.find _ _ _ _ _ parameter), content =>
    some (s.write.onFindResponse (content ≠ .empty) parameter s.newId s.now)
  | .write (.object _ nodePrefix _ processId), content =>
    some (s.write.onDataValidated sha1 s.keySpace nodePrefix content.json processId s.now)
  | _, _ => none

namespace RepoNode

variable {L : NameLibrary} {sha1 : String → String}

abbrev Result (L : NameLibrary) (sha1 : String → String) := Reaction (RepoNode L sha1) (InsertInterest L) InsertContent

def withInsert (s : RepoNode L sha1) (insert : InsertNode L sha1) : RepoNode L sha1 := { s with insert := insert }

/-- A fetcher delivers segments also after it was stopped. -/
def onInput (s : RepoNode L sha1) : RepoInput L → Result L sha1
  | .insert c => (s.insert.onCommand c).mapNode s.withInsert
  | .segment processId data =>
    if processId ∈ s.fetching then
      let (o, store) := s.insert.write.onSegmentData s.store data processId s.insert.now
      { node := { s with insert := s.insert.afterWrite o, store := store, deferred := s.deferred ++ o.deferred } }
    else { node := s }
  | .segmentTimeout processId =>
    if processId ∈ s.fetching then
      { node := s.withInsert (s.insert.afterWrite (s.insert.write.onSegmentTimeout processId)) }
    else { node := s }
  | .check processId =>
    let o := s.insert.write.handleCheckCommand processId s.insert.now
    { node := { s with
        insert := s.insert.afterWrite o
        checks := s.checks ++ o.done.toList.map (fun response => (processId, response)) } }
  | .deleteProcess processId =>
    if processId ∈ s.deferred then
      { node := { s with
          insert := { s.insert with write := s.insert.write.deleteProcess processId }
          deferred := s.deferred.erase processId } }
    else { node := s }

def onRequest (s : RepoNode L sha1) (a : InsertInterest L) : Result L sha1 :=
  (s.insert.onRequest a).mapNode s.withInsert

def fetchersOf (o : Option (WriteOutcome L)) : List UInt64 :=
  o.toList.flatMap (fun o => o.fetchers.map SegmentFetch.processId)

/-- An answer may start a fetcher. -/
def onResponse (s : RepoNode L sha1) (a : InsertInterest L) (d : InsertContent) : Result L sha1 :=
  (s.insert.onResponse a d).mapNode (fun insert =>
    { s with insert := insert, fetching := s.fetching ++ fetchersOf (s.insert.writeOutcome a d) })

def onTimeout (s : RepoNode L sha1) (a : InsertInterest L) : Result L sha1 :=
  (s.insert.onTimeout a).mapNode s.withInsert

end RepoNode

def repoNetwork (L : NameLibrary) (sha1 : String → String) :
    Protocol String (RepoNode L sha1) (InsertInterest L) InsertContent (RepoInput L) where
  dest := InsertInterest.destination
  live s := s.insert.live
  onInput := RepoNode.onInput
  onRequest := RepoNode.onRequest
  onResponse := RepoNode.onResponse
  onTimeout := RepoNode.onTimeout

abbrev RepoNet (L : NameLibrary) (sha1 : String → String) :=
  Net String (RepoNode L sha1) (InsertInterest L) InsertContent

abbrev RepoEvent (L : NameLibrary) := Event String (InsertInterest L) InsertContent (RepoInput L)

/-- The nodes without their storages. -/
def RepoNet.inserts {L : NameLibrary} {sha1 : String → String} (n : RepoNet L sha1) : InsertNet L sha1 :=
  n.mapNode RepoNode.insert

def RepoEvent.insertEvent {L : NameLibrary} (e : RepoEvent L) : Option (InsertEvent L) :=
  e.mapInput RepoInput.insertCommand

variable {L : NameLibrary} {sha1 : String → String}

/-- The nodes do among each other what they do without storages. -/
theorem repoNetwork_restricts :
    Restricts (repoNetwork L sha1) (insertNetwork L sha1) RepoNode.insert RepoInput.insertCommand where
  dest := rfl
  live _ := rfl
  input s c c' hc := by
    cases c with
    | insert c =>
      cases hc
      rfl
    | _ => cases hc
  silent s c hc := by
    cases c with
    | insert c => cases hc
    | check processId => rfl
    | _ =>
      simp only [repoNetwork, RepoNode.onInput]
      split_ifs <;> rfl
  request _ _ := rfl
  response _ _ _ := rfl
  timeout _ _ := rfl

/-! ### What the storage of a node does -/

/-- A change of a node that leaves its commands and manifests alone: every process that is there was
there before, with the manifest that it has. -/
structure OwnChange (s s' : InsertNode L sha1) : Prop where
  settings : SameSettings s s'
  answers : s'.answers = s.answers
  creates : s'.creates = s.creates
  manifests : s'.manifests = s.manifests
  processes : ∀ processId process', s'.write.mProcesses processId = some process' → ∃ process,
    s.write.mProcesses processId = some process ∧ process'.manifest = process.manifest ∧
      process'.manifestSent = process.manifestSent

section Own

variable {s s' : InsertNode L sha1} {o : WriteOutcome L} {h : WriteHandle L} {processId : UInt64}
  {process process' : ProcessInfo L} {store : DataStore L sha1} {data : Data L} {now : ℕ}

lemma OwnChange.refl (s : InsertNode L sha1) : OwnChange s s :=
  ⟨.refl s, rfl, rfl, rfl, fun _ process hp => ⟨process, hp, rfl, rfl⟩⟩

lemma OwnChange.of_afterWrite (hprefixes : SamePrefixes s.write o.handle)
    (hprocesses : ∀ processId process', o.handle.mProcesses processId = some process' → ∃ process,
      s.write.mProcesses processId = some process ∧ process'.manifest = process.manifest ∧
        process'.manifestSent = process.manifestSent) : OwnChange s (s.afterWrite o) :=
  ⟨afterWrite_settings hprefixes, rfl, rfl, rfl, hprocesses⟩

/-- One process changes, and keeps its manifest. -/
lemma processes_of_update (hp : h.mProcesses processId = some process)
    (hmanifest : process'.manifest = process.manifest) (hsent : process'.manifestSent = process.manifestSent)
    {h' : WriteHandle L}
    (hm : h'.mProcesses = Function.update h.mProcesses processId (some process')) :
    ∀ x new, h'.mProcesses x = some new → ∃ old, h.mProcesses x = some old ∧ new.manifest = old.manifest ∧
      new.manifestSent = old.manifestSent := by
  intro x new hnew
  rw [hm] at hnew
  by_cases hx : x = processId
  · subst hx
    rw [Function.update_self, Option.some_inj] at hnew
    rw [← hnew]
    exact ⟨process, hp, hmanifest, hsent⟩
  · rw [Function.update_of_ne hx] at hnew
    exact ⟨new, hnew, rfl, rfl⟩

lemma onSegmentData_prefixes : SamePrefixes h (h.onSegmentData store data processId now).1.handle := by
  unfold onSegmentData
  split
  · exact .refl h
  · dsimp only
    split_ifs <;> exact ⟨rfl, rfl, rfl⟩

lemma onSegmentData_process (hp : h.mProcesses processId = some process) : ∃ process',
    (h.onSegmentData store data processId now).1.handle.mProcesses =
      Function.update h.mProcesses processId (some process') ∧
    process'.manifest = process.manifest ∧ process'.manifestSent = process.manifestSent := by
  by_cases hc : CompletesRange store process data
  · obtain ⟨process', hm, hmanifest, hsent, -⟩ := onSegmentData_completes now hp hc
    exact ⟨process', hm, hmanifest, hsent⟩
  · obtain ⟨process', hm, hmanifest, hsent, -⟩ := onSegmentData_open now hp hc
    exact ⟨process', hm, hmanifest, hsent⟩

lemma ownChange_segment :
    OwnChange s (s.afterWrite (s.write.onSegmentData store data processId now).1) := by
  refine .of_afterWrite onSegmentData_prefixes ?_
  cases hp : s.write.mProcesses processId with
  | none =>
    rw [onSegmentData_none hp]
    exact fun _ process hold => ⟨process, hold, rfl, rfl⟩
  | some process =>
    obtain ⟨process', hm, hmanifest, hsent⟩ := onSegmentData_process hp
    exact processes_of_update hp hmanifest hsent hm

lemma handleCheckCommand_prefixes : SamePrefixes h (h.handleCheckCommand processId now).handle := by
  unfold handleCheckCommand
  split
  · exact .refl h
  · dsimp only
    split_ifs <;> exact ⟨rfl, rfl, rfl⟩

lemma ownChange_check : OwnChange s (s.afterWrite (s.write.handleCheckCommand processId now)) := by
  refine .of_afterWrite handleCheckCommand_prefixes ?_
  obtain ⟨-, hsame | ⟨process, process', hp, hk, hm⟩⟩ := handleCheckCommand_outcome s.write processId now
  · rw [hsame]
    exact fun _ process hold => ⟨process, hold, rfl, rfl⟩
  · exact processes_of_update hp hk.manifest hk.manifestSent hm

lemma ownChange_deleteProcess : OwnChange s { s with write := s.write.deleteProcess processId } := by
  refine ⟨⟨rfl, rfl, rfl, rfl, rfl, rfl, fun _ ha => ha⟩, rfl, rfl, rfl, ?_⟩
  intro x new hnew
  change Function.update s.write.mProcesses processId none x = some new at hnew
  by_cases hx : x = processId
  · rw [hx, Function.update_self] at hnew
    cases hnew
  · rw [Function.update_of_ne hx] at hnew
    exact ⟨new, hnew, rfl, rfl⟩

/-- All inputs that the rest of a node does not know. -/
lemma ownChange_onInput (s : RepoNode L sha1) {c : RepoInput L} (hc : c.insertCommand = none) :
    OwnChange s.insert (s.onInput c).node.insert := by
  cases c with
  | insert c => cases hc
  | segment processId data =>
    simp only [RepoNode.onInput]
    split_ifs
    · exact ownChange_segment
    · exact .refl _
  | segmentTimeout processId =>
    simp only [RepoNode.onInput]
    split_ifs
    · exact .of_afterWrite (.refl _) (fun _ process hold => ⟨process, hold, rfl, rfl⟩)
    · exact .refl _
  | check processId => exact ownChange_check
  | deleteProcess processId =>
    simp only [RepoNode.onInput]
    split_ifs
    · exact ownChange_deleteProcess
    · exact .refl _

/-- Only the deletion of a process takes one away. -/
lemma present_onInput (s : RepoNode L sha1) {c : RepoInput L} (hc : c.insertCommand = none)
    (hdelete : c ≠ .deleteProcess processId) (hp : (s.insert.write.mProcesses processId).isSome) :
    ((s.onInput c).node.insert.write.mProcesses processId).isSome := by
  have hset : ∀ {h' : WriteHandle L} {x : UInt64} {process' : ProcessInfo L},
      h'.mProcesses = Function.update s.insert.write.mProcesses x (some process') →
        (h'.mProcesses processId).isSome := by
    intro h' x process' hm
    rw [hm]
    by_cases hx : processId = x
    · rw [hx, Function.update_self]
      rfl
    · rw [Function.update_of_ne hx]
      exact hp
  cases c with
  | insert c => cases hc
  | segment x data =>
    simp only [RepoNode.onInput]
    split_ifs
    · change ((s.insert.write.onSegmentData s.store data x _).1.handle.mProcesses processId).isSome
      cases hx : s.insert.write.mProcesses x with
      | none =>
        rw [onSegmentData_none hx]
        exact hp
      | some process =>
        obtain ⟨process', hm, -⟩ := onSegmentData_process hx
        exact hset hm
    · exact hp
  | segmentTimeout x =>
    simp only [RepoNode.onInput]
    split_ifs <;> exact hp
  | check x =>
    change ((s.insert.write.handleCheckCommand x _).handle.mProcesses processId).isSome
    obtain ⟨-, hsame | ⟨process, process', -, -, hm⟩⟩ := handleCheckCommand_outcome s.insert.write x
      s.insert.now
    · rw [hsame]
      exact hp
    · exact hset hm
  | deleteProcess x =>
    simp only [RepoNode.onInput]
    split_ifs
    · change (Function.update s.insert.write.mProcesses x none processId).isSome
      rw [Function.update_of_ne (fun hx => hdelete (by rw [hx]))]
      exact hp
    · exact hp

end Own

/-! ### Runs -/

section Runs

variable {D : Deployment L} {m : InsertNet L sha1} {s' : InsertNode L sha1} {n t : RepoNet L sha1} {e : RepoEvent L}
  {x y z : String} {name : L.Name} {processId : UInt64}

def withNode (m : InsertNet L sha1) (x : String) (s : InsertNode L sha1) : InsertNet L sha1 :=
  { m with node := Function.update m.node x s }

lemma withNode_self (m : InsertNet L sha1) (x : String) (s : InsertNode L sha1) : (withNode m x s).node x = s :=
  Function.update_self ..

lemma withNode_of_ne (m : InsertNet L sha1) (s : InsertNode L sha1) (hy : y ≠ x) :
    (withNode m x s).node y = m.node y := Function.update_of_ne hy ..

/-- A step of the network is one of the nodes without their storages, or a change of one node. -/
theorem repo_step_cases (h : step (repoNetwork L sha1) n e = some t) :
    (∃ e', RepoEvent.insertEvent e = some e' ∧ step (insertNetwork L sha1) (RepoNet.inserts n) e' =
      some (RepoNet.inserts t)) ∨
    ∃ x c, e = .input x c ∧ c.insertCommand = none ∧ (n.node x).insert.live ∧
      t = { n with node := Function.update n.node x ((n.node x).onInput c).node } := by
  cases he : RepoEvent.insertEvent e with
  | some e' => exact Or.inl ⟨e', rfl, repoNetwork_restricts.step he h⟩
  | none => exact Or.inr (repoNetwork_restricts.silent_step he h)

lemma inserts_update (n : RepoNet L sha1) (x : String) (s : RepoNode L sha1) :
    RepoNet.inserts { n with node := Function.update n.node x s } = withNode (RepoNet.inserts n) x s.insert := by
  have hnode : (fun y => (Function.update n.node x s y).insert) =
      Function.update (fun y => (n.node y).insert) x s.insert := by
    funext y
    exact Function.apply_update (fun _ => RepoNode.insert) n.node x s y
  simp only [RepoNet.inserts, Net.mapNode, withNode, hnode]

lemma ownChange_withNode (h : OwnChange (m.node x) s') (y : String) :
    OwnChange (m.node y) ((withNode m x s').node y) := by
  by_cases hy : y = x
  · subst hy
    rw [withNode_self]
    exact h
  · rw [withNode_of_ne m s' hy]
    exact .refl _

lemma Offers.of_ownChange {s : InsertNode L sha1} (ho : Offers D x s processId name) (h : OwnChange s s') :
    Offers D x s' processId name := by
  refine ⟨ho.drawn.after h.settings, ?_⟩
  intro process' hp
  obtain ⟨process, hold, hmanifest, hsent⟩ := h.processes processId process' hp
  rw [hmanifest, hsent]
  exact ho.holds process hold

lemma goesOn_of_ownChange (h : OwnChange (m.node x) s') : GoesOn D m (withNode m x s') where
  settings y := (ownChange_withNode h y).settings
  offers y _ _ ho := ho.of_ownChange (ownChange_withNode h y)

lemma PlacementInv.of_ownChange (hm : PlacementInv D m) (h : OwnChange (m.node x) s') :
    PlacementInv D (withNode m x s') := by
  have hg : GoesOn D m (withNode m x s') := goesOn_of_ownChange h
  refine ⟨?_, fun p hp => hg.carries (hm.requests p hp), fun q hq => hg.tells (hm.responses q hq),
    fun p hp => hg.carries (hm.pending p hp)⟩
  intro y
  obtain ⟨hannounces, hplaced⟩ := hm.node y
  have hown := ownChange_withNode h y
  constructor
  · intro object hobject
    rw [hown.settings.objects]
    exact hannounces object hobject
  · intro hy
    refine ⟨(hplaced hy).settings.after hown.settings, ?_, ?_⟩
    · intro id process' hp
      obtain ⟨process, hold, -⟩ := hown.processes id process' hp
      exact ((hplaced hy).drawn id process hold).after hown.settings
    · rw [hown.manifests]
      exact fun file hf => hg.placedFile ((hplaced hy).placed file hf)

/-- The manifest of an insert is where it is looked for. -/
def ManifestStored (D : Deployment L) (m : InsertNet L sha1) (name : L.Name) : Prop :=
  ∃ y ∈ D.nodes, D.storage (insertedKey sha1 name) = some y ∧ (m.node y).manifests.hasManifest (insertedKey sha1 name)

/-- An insert stays in its stage while its process is there. -/
lemma Progress.of_ownChange (hp : Progress m z y name processId) (h : OwnChange (m.node x) s')
    (hpresent : Present m z processId → Present (withNode m x s') z processId) :
    Progress (withNode m x s') z y name processId := by
  have hunderway : ∀ {w a}, Underway m w a → Underway (withNode m x s') w a := fun hu => ⟨hu.pending, hu.inFlight⟩
  cases hp with
  | announcing nodePrefix lifetime stage =>
    obtain ⟨process, hold, hnot⟩ := stage.notSent
    have hthere : Present m z processId := by
      unfold Present
      rw [hold]
      rfl
    obtain ⟨process', hnew⟩ := Option.isSome_iff_exists.mp (hpresent hthere)
    obtain ⟨process'', hold', -, hsent⟩ := (ownChange_withNode h z).processes processId process' hnew
    rw [hold, Option.some_inj] at hold'
    subst hold'
    exact .announcing nodePrefix lifetime ⟨hunderway stage.underway, ⟨process', hnew, hsent.trans hnot⟩, stage.only⟩
  | creating stage => exact .creating ⟨stage.request, hpresent stage.present⟩
  | fetching stage =>
    refine .fetching ⟨hunderway stage.underway, ?_, hpresent stage.present⟩
    rw [(ownChange_withNode h y).creates]
    exact stage.created
  | stored stage =>
    apply Progress.stored
    rw [(ownChange_withNode h y).manifests]
    exact stage

lemma accepted_of_withNode (h : OwnChange (m.node x) s') (ha : InsertAccepted (withNode m x s') z name processId) :
    InsertAccepted m z name processId := by
  obtain ⟨a, ha, haccepts⟩ := ha
  rw [(ownChange_withNode h z).answers] at ha
  exact ⟨a, ha, haccepts⟩

lemma CompletionInv.of_ownChange (hm : CompletionInv D m) (h : OwnChange (m.node x) s')
    (hgone : ∀ processId, Present m x processId → ¬ Present (withNode m x s') x processId →
      ∀ name, InsertAccepted m x name processId → ManifestStored D m name) : CompletionInv D (withNode m x s') where
  placement := hm.placement.of_ownChange h
  told := by
    intro z hz a ha
    rw [(ownChange_withNode h z).answers] at ha
    exact hm.told z hz a ha
  unique := by
    intro z hz w hw a ha b hb
    rw [(ownChange_withNode h z).answers] at ha
    rw [(ownChange_withNode h w).answers] at hb
    exact hm.unique z hz w hw a ha b hb
  created := by
    intro y hy processId k hk hzero
    rw [(ownChange_withNode h y).creates] at hk
    obtain ⟨z, hz, name, hname, hstored⟩ := hm.created y hy processId k hk hzero
    refine ⟨z, hz, name, (goesOn_of_ownChange (D := D) h).accepted hname, ?_⟩
    rw [(ownChange_withNode h y).manifests]
    exact hstored
  progress := by
    intro z hz name processId haccepted
    have ha := accepted_of_withNode h haccepted
    obtain ⟨y, hy, hstorage, hp⟩ := hm.progress z hz name processId ha
    by_cases hpresent : Present m z processId → Present (withNode m x s') z processId
    · exact ⟨y, hy, hstorage, hp.of_ownChange h hpresent⟩
    · rw [Classical.not_imp] at hpresent
      have hzx : z = x := by
        by_contra hne
        refine hpresent.2 ?_
        unfold Present
        rw [withNode_of_ne m s' hne]
        exact hpresent.1
      subst hzx
      obtain ⟨w, hw, hrouted, hstored⟩ := hgone processId hpresent.1 hpresent.2 name ha
      refine ⟨w, hw, hrouted, .stored ?_⟩
      rw [(ownChange_withNode h w).manifests]
      exact hstored

/-- As among nodes without storages. -/
def RegularRepo (D : Deployment L) (n : RepoNet L sha1) (e : RepoEvent L) : Prop :=
  ∀ e' ∈ RepoEvent.insertEvent e, Regular D (RepoNet.inserts n) e'

instance (D : Deployment L) (n : RepoNet L sha1) (e : RepoEvent L) : Decidable (RegularRepo D n e) :=
  inferInstanceAs (Decidable (∀ e' ∈ RepoEvent.insertEvent e, _))

/-- The process that an event deletes. -/
def deletes : RepoEvent L → Option (String × UInt64)
  | .input x (.deleteProcess processId) => some (x, processId)
  | _ => none

/-- Besides, a process of a single insert is deleted when its manifest has been stored. -/
def ReliableRepo (D : Deployment L) (n : RepoNet L sha1) (e : RepoEvent L) : Prop :=
  (∀ e' ∈ RepoEvent.insertEvent e, Reliable D (RepoNet.inserts n) e') ∧
    ∀ p ∈ deletes e, ∀ a ∈ (n.node p.1).insert.answers, a.parameter.Single → a.response.processId = some p.2 →
      ManifestStored D (RepoNet.inserts n) a.parameter.name

instance (D : Deployment L) (m : InsertNet L sha1) (name : L.Name) : Decidable (ManifestStored D m name) :=
  inferInstanceAs (Decidable (∃ y ∈ D.nodes, _ ∧ _))

instance (D : Deployment L) (n : RepoNet L sha1) (e : RepoEvent L) : Decidable (ReliableRepo D n e) :=
  inferInstanceAs (Decidable (_ ∧ _))

lemma PlacementInv.repo_step (hn : PlacementInv D (RepoNet.inserts n)) (hc : RegularRepo D n e)
    (h : Exchange.step (repoNetwork L sha1) n e = some t) : PlacementInv D (RepoNet.inserts t) := by
  obtain ⟨e', he, hstep⟩ | ⟨x, c, -, hc, -, rfl⟩ := repo_step_cases h
  · exact hn.step (hc e' he) hstep
  · rw [inserts_update]
    exact hn.of_ownChange (ownChange_onInput (n.node x) hc)

lemma CompletionInv.repo_step (hn : CompletionInv D (RepoNet.inserts n))
    (hrouted : ∀ name : L.Name, ∃ y ∈ D.nodes, D.storage (insertedKey sha1 name) = some y)
    (hc : ReliableRepo D n e) (h : Exchange.step (repoNetwork L sha1) n e = some t) :
    CompletionInv D (RepoNet.inserts t) := by
  obtain ⟨e', he, hstep⟩ | ⟨x, c, rfl, hown, -, rfl⟩ := repo_step_cases h
  · exact hn.step hrouted (hc.1 e' he) hstep
  · rw [inserts_update]
    refine hn.of_ownChange (ownChange_onInput (n.node x) hown) ?_
    intro processId hpresent hgone name ha
    by_cases hdelete : c = .deleteProcess processId
    · obtain ⟨a, ha, haccepts⟩ := ha
      rw [← haccepts.name]
      exact hc.2 (x, processId) (by rw [hdelete]; rfl) a ha haccepts.single haccepts.processId
    · refine absurd ?_ hgone
      unfold Present
      rw [withNode_self]
      exact present_onInput (n.node x) hown hdelete hpresent

/-! ### At rest -/

/-- Nodes that have seen nothing yet, with any settings and any storages. -/
structure Deployment.Ready (D : Deployment L) (n : RepoNet L sha1) : Prop extends D.Unused (RepoNet.inserts n) where
  fetching : ∀ x ∈ D.nodes, (n.node x).fetching = []
  deferred : ∀ x ∈ D.nodes, (n.node x).deferred = []
  checks : ∀ x ∈ D.nodes, (n.node x).checks = []

theorem completionInv_of_run {es : List (RepoEvent L)} (hn : D.Ready n)
    (hrouted : ∀ name : L.Name, ∃ y ∈ D.nodes, D.storage (insertedKey sha1 name) = some y)
    (hmeets : Meets (step (repoNetwork L sha1)) (ReliableRepo D) n es)
    (hrun : run (step (repoNetwork L sha1)) n es = some t) : CompletionInv D (RepoNet.inserts t) :=
  run_invariant (I := fun n => CompletionInv D (RepoNet.inserts n))
    (fun _ _ _ hi hc h => hi.repo_step hrouted hc h) hn.toUnused.completionInv hmeets hrun

/-- When nothing is on the way, the manifest of every single insert that was accepted is stored at
the node its key is routed to. -/
theorem inserts_completed {es : List (RepoEvent L)} (hn : D.Ready n)
    (hrouted : ∀ name : L.Name, ∃ y ∈ D.nodes, D.storage (insertedKey sha1 name) = some y)
    (hmeets : Meets (step (repoNetwork L sha1)) (ReliableRepo D) n es)
    (hrun : run (step (repoNetwork L sha1)) n es = some t) (hrequests : t.requests = [])
    (hresponses : t.responses = []) {a : Answer L} (hx : x ∈ D.nodes) (ha : a ∈ (t.node x).insert.answers)
    (hcode : a.response.code = 100) (hsingle : a.parameter.Single) :
    ∃ y ∈ D.nodes, D.storage (insertedKey sha1 a.parameter.name) = some y ∧
      (t.node y).insert.manifests.hasManifest (insertedKey sha1 a.parameter.name) := by
  have ht := completionInv_of_run hn hrouted hmeets hrun
  exact ht.stored hrequests hresponses hx ha hcode hsingle

/-- Then a get of the object that is sent to any node gets a manifest that an accepted insert of
that key built. -/
theorem put_then_got {es : List (RepoEvent L)} (hn : D.Ready n)
    (hrouted : ∀ name : L.Name, ∃ y ∈ D.nodes, D.storage (insertedKey sha1 name) = some y)
    (hmeets : Meets (step (repoNetwork L sha1)) (ReliableRepo D) n es)
    (hrun : run (step (repoNetwork L sha1)) n es = some t) (hrequests : t.requests = [])
    (hresponses : t.responses = []) {a : Answer L} (hx : x ∈ D.nodes) (ha : a ∈ (t.node x).insert.answers)
    (hcode : a.response.code = 100) (hsingle : a.parameter.Single) {c : L.Component} (hc : a.parameter.name = [c])
    (hz : z ∈ D.nodes) :
    ∃ i, onGetInterest sha1 (t.node z).insert.keySpace [c] = some i ∧ i.repo ∈ D.nodes ∧
      ∃ x' ∈ D.nodes, ∃ name processId, InsertAccepted (RepoNet.inserts t) x' name processId ∧
        insertedKey sha1 name = sha1 (L.uri [c]) ∧
        ((t.node i.repo).insert.handleFindCommand i.hash).reply =
          some (.manifest ((D.manifestOf x' name).toJson sha1)) := by
  have hcompletion := completionInv_of_run hn hrouted hmeets hrun
  obtain ⟨y, hy, hstorage, hstored⟩ := hcompletion.stored hrequests hresponses hx ha hcode hsingle
  rw [hc] at hstorage hstored
  obtain ⟨hget, hfound⟩ := hcompletion.placement.found hz hy hstorage
  obtain ⟨json, hjson⟩ := hcompletion.placement.answered hy hstorage hstored
  obtain ⟨x', hx', name, processId, hname, hkey, rfl⟩ := hfound json hjson
  exact ⟨_, hget, hy, x', hx', name, processId, hname, hkey, hjson⟩

end Runs

/-! ### One insert -/

/-- All digests that occur are routed to a node. -/
def reelDigest (name : String) : String :=
  if name = "/film" then filmHash else "17a802ad5959ffcab5693ed26721b55767136a0c"

/-- Whatever a node does takes it longer than an insert waits for its end. -/
def reelNet : RepoNet plainNames reelDigest where
  node x :=
    { insert := { filmNode (if x = "/b/repo" then "/b" else "/a") with manifests := .empty, clock := (20000 * ·) }
      store := {} }

lemma reelNet_ready : filmDeployment.Ready reelNet where
  requests := rfl
  responses := rfl
  pending := rfl
  announces _ _ _ := rfl
  settings := by
    simp only [filmDeployment, List.forall_mem_cons]
    exact ⟨⟨rfl, rfl, rfl, rfl⟩, ⟨rfl, rfl, rfl, rfl⟩, by simp⟩
  processes _ _ := rfl
  manifests _ _ := rfl
  answers _ _ := rfl
  creates _ _ := rfl
  fetching _ _ := rfl
  deferred _ _ := rfl
  checks _ _ := rfl

lemma reelDigest_routed (name : plainNames.Name) : ∃ y ∈ filmDeployment.nodes,
    filmDeployment.storage (insertedKey reelDigest name) = some y := by
  unfold insertedKey reelDigest
  split
  · exact ⟨"/b/repo", by decide, by decide +kernel⟩
  · exact ⟨"/a/repo", by decide, by decide +kernel⟩

/-- The only segment comes too late, so its process is deleted, but not before the manifest is stored. -/
def filmServed : List (RepoEvent plainNames) :=
  let object := .write (.object [film] none 4000 8)
  let create := .write (.create "/b/repo" filmHash "/a" 4000 8)
  let info := .writeInfo "/a/repo" filmHash 8
  [.input "/a/repo" (.insert (.insert insertFilm)), .request "/a/repo" findFilm, .response "/a/repo" findFilm .empty,
    .request "/a/repo" object, .response "/a/repo" object (.info ⟨"/film", filmHash, 0⟩),
    .input "/a/repo" (.segment 8 (frame 0)), .request "/a/repo" create, .request "/b/repo" info,
    .response "/b/repo" info (.manifest filmManifest), .input "/a/repo" (.deleteProcess 8),
    .response "/a/repo" create (.status 200)]

lemma film_served : Meets (step (repoNetwork plainNames reelDigest)) (ReliableRepo filmDeployment) reelNet filmServed ∧
    ∃ t, run (step (repoNetwork plainNames reelDigest)) reelNet filmServed = some t ∧ t.requests = [] ∧
      t.responses = [] ∧ (t.node "/a/repo").insert.answers = [filmAnswer filmAccepted] ∧
      ((t.node "/a/repo").insert.write.mProcesses 8).isNone := by
  refine ⟨by decide +kernel, ?_⟩
  have hview : ((run (step (repoNetwork plainNames reelDigest)) reelNet filmServed).any (fun t =>
      t.requests.isEmpty && t.responses.isEmpty &&
        decide ((t.node "/a/repo").insert.answers = [filmAnswer filmAccepted]) &&
        ((t.node "/a/repo").insert.write.mProcesses 8).isNone)) = true := by decide +kernel
  obtain ⟨t, ht, hall⟩ := (Option.any_eq_true _ _).mp hview
  simp only [Bool.and_eq_true, decide_eq_true_eq, List.isEmpty_iff] at hall
  obtain ⟨⟨⟨hrequests, hresponses⟩, hanswers⟩, hgone⟩ := hall
  exact ⟨t, ht, hrequests, hresponses, hanswers, hgone⟩

theorem film_completed : ∃ t, run (step (repoNetwork plainNames reelDigest)) reelNet filmServed = some t ∧
    ((t.node "/a/repo").insert.write.mProcesses 8).isNone ∧
    ∃ y ∈ filmDeployment.nodes, filmDeployment.storage (insertedKey reelDigest [film]) = some y ∧
      (t.node y).insert.manifests.hasManifest (insertedKey reelDigest [film]) := by
  obtain ⟨hmeets, t, hrun, hrequests, hresponses, hanswers, hgone⟩ := film_served
  have ha : filmAnswer filmAccepted ∈ (t.node "/a/repo").insert.answers := by
    rw [hanswers]
    exact List.mem_singleton_self _
  have hx : "/a/repo" ∈ filmDeployment.nodes := by decide
  have hname : (filmAnswer filmAccepted).parameter.name = [film] := rfl
  have hstored := inserts_completed reelNet_ready reelDigest_routed hmeets hrun hrequests hresponses hx ha rfl
    ⟨rfl, rfl⟩
  rw [hname] at hstored
  exact ⟨t, hrun, hgone, hstored⟩

theorem film_put_then_got : ∃ t, run (step (repoNetwork plainNames reelDigest)) reelNet filmServed = some t ∧
    ∃ i, onGetInterest reelDigest (t.node "/b/repo").insert.keySpace [film] = some i ∧ i.repo ∈ filmDeployment.nodes ∧
      ∃ x ∈ filmDeployment.nodes, ∃ name processId, InsertAccepted (RepoNet.inserts t) x name processId ∧
        insertedKey reelDigest name = reelDigest (plainNames.uri [film]) ∧
        ((t.node i.repo).insert.handleFindCommand i.hash).reply =
          some (.manifest ((filmDeployment.manifestOf x name).toJson reelDigest)) := by
  obtain ⟨hmeets, t, hrun, hrequests, hresponses, hanswers, -⟩ := film_served
  have ha : filmAnswer filmAccepted ∈ (t.node "/a/repo").insert.answers := by
    rw [hanswers]
    exact List.mem_singleton_self _
  have hx : "/a/repo" ∈ filmDeployment.nodes := by decide
  have hz : "/b/repo" ∈ filmDeployment.nodes := by decide
  have hname : (filmAnswer filmAccepted).parameter.name = [film] := rfl
  refine ⟨t, hrun, ?_⟩
  exact put_then_got reelNet_ready reelDigest_routed hmeets hrun hrequests hresponses hx ha rfl ⟨rfl, rfl⟩ hname hz

end Difs
