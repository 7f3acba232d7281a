import Difs.Insert.Reactions

/-!
# Where manifests are stored

A create goes to the node that its hash is routed to, and that node fetches the manifest from the
process that the create names. Whatever is delayed, lost or repeated, a manifest is stored at the
node its key is routed to and is the one that an accepted insert built.
-/

namespace Difs

open EventRun Exchange WriteHandle

variable {L : NameLibrary} {sha1 : String → String}

/-- The nodes of a cluster with the key-space file they have all installed, and for each object
the last segment that its client announces. -/
structure Deployment (L : NameLibrary) where
  keySpaceFile : KeySpaceFile
  nodes : List String
  clusterPrefix : String
  endBlockId : L.Name → ℤ

/-- The name of a stored manifest. -/
def insertedName (name : L.Name) : String := L.uri (L.ofUri (afterLastSlash (L.uri name)))

/-- The key under which the manifest of an object is stored. -/
def insertedKey (sha1 : String → String) (name : L.Name) : String := sha1 (insertedName name)

namespace Deployment

variable (D : Deployment L)

/-- The node that a hash is routed to. -/
def storage (hash : String) : Option String := findStorage hash D.keySpaceFile

/-- The manifest of an object whose segments are at `x`. -/
def manifestOf (x : String) (name : L.Name) : Manifest where
  mName := insertedName name
  mRepos := [⟨x, 0, D.endBlockId name⟩]
  mStartBlockId := 0
  mEndBlockId := D.endBlockId name

/-- A node runs under the address that the manifest handles build for it. -/
structure Settings (x : String) (s : InsertNode L sha1) : Prop where
  keySpace : s.keySpace.mKeySpaceFile = some D.keySpaceFile
  clusterPrefix : s.write.mClusterPrefix = D.clusterPrefix
  address : s.write.mClusterNodePrefix ++ "/" ++ D.clusterPrefix = x
  repoPrefix : s.write.mRepoPrefix = x

def Announces (x : String) (s : InsertNode L sha1) : Prop :=
  ∀ name, L.uri name = x → s.objects name = D.endBlockId name

variable {D}

lemma Settings.getManifestStorage {x : String} {s : InsertNode L sha1} (h : D.Settings x s) (hash : String) :
    s.keySpace.getManifestStorage hash = D.storage hash := by
  rw [KeySpaceHandle.getManifestStorage, h.keySpace]
  rfl

lemma fromJson_manifestOf (x : String) (name : L.Name) :
    Manifest.fromJson ((D.manifestOf x name).toJson sha1) = some (D.manifestOf x name) := rfl

lemma getHash_manifestOf (x : String) (name : L.Name) :
    (D.manifestOf x name).getHash sha1 = insertedKey sha1 name := rfl

end Deployment

/-- The answer to a single insert that was accepted. -/
structure Answer.Accepts (a : Answer L) (name : L.Name) (processId : UInt64) : Prop where
  code : a.response.code = 100
  single : a.parameter.Single
  name : a.parameter.name = name
  processId : a.response.processId = some processId

def InsertAccepted (n : InsertNet L sha1) (x : String) (name : L.Name) (processId : UInt64) : Prop :=
  ∃ a ∈ (n.node x).answers, a.Accepts name processId

/-- The next id was not given to a command before. -/
def NewId (s : InsertNode L sha1) : Prop := ∀ a ∈ s.answers, a.response.processId ≠ some (s.random s.draws)

instance (s : InsertNode L sha1) : Decidable (NewId s) := inferInstanceAs (Decidable (∀ a ∈ s.answers, _))

/-- A command was told the id, and the process that has it, while it is there, holds the manifest of the
object for good. -/
structure Offers (D : Deployment L) (x : String) (s : InsertNode L sha1) (processId : UInt64) (name : L.Name) :
    Prop where
  drawn : Drawn s processId
  holds : ∀ process, s.write.mProcesses processId = some process →
    process.manifestSent = true ∧ process.manifest = some (D.manifestOf x name)

/-- A stored file is where its key is routed to and has the manifest of an accepted insert. -/
def PlacedFile (D : Deployment L) (n : InsertNet L sha1) (y : String) (file : String × ManifestJson) : Prop :=
  D.storage file.1 = some y ∧
    ∃ x ∈ D.nodes, ∃ name processId, InsertAccepted n x name processId ∧
      file = (insertedKey sha1 name, (D.manifestOf x name).toJson sha1)

section Node

variable {D : Deployment L} {s s' : InsertNode L sha1} {e : InsertEvent L} {x : String}
  {processId : UInt64} {name : L.Name}

lemma Deployment.Settings.after (h : D.Settings x s) (hs : SameSettings s s') : D.Settings x s' where
  keySpace := by rw [hs.keySpace, h.keySpace]
  clusterPrefix := hs.clusterPrefix.trans h.clusterPrefix
  address := by rw [hs.clusterNodePrefix, h.address]
  repoPrefix := hs.repoPrefix.trans h.repoPrefix

lemma Drawn.after (h : Drawn s processId) (hs : SameSettings s s') : Drawn s' processId := by
  obtain ⟨a, ha, hid⟩ := h
  exact ⟨a, hs.answers a ha, hid⟩

lemma drawn_after (h : ∀ processId process, s.write.mProcesses processId = some process → Drawn s processId)
    (hs : SameSettings s s') (hp : ProcessesAfter e x s s') :
    ∀ processId process, s'.write.mProcesses processId = some process → Drawn s' processId := by
  have hold : ∀ processId process, s.write.mProcesses processId = some process → Drawn s' processId :=
    fun processId process hm => (h processId process hm).after hs
  have hset : ∀ id (o : Option (ProcessInfo L)), s'.write.mProcesses = Function.update s.write.mProcesses id o →
      Drawn s' id → ∀ processId process, s'.write.mProcesses processId = some process → Drawn s' processId := by
    intro id o hm hid processId process hprocess
    by_cases heq : processId = id
    · rw [heq]
      exact hid
    · rw [hm, Function.update_of_ne heq] at hprocess
      exact hold processId process hprocess
  cases hp with
  | same processes =>
    rw [processes]
    exact hold
  | deleted id event processes =>
    intro processId process hprocess
    rw [processes] at hprocess
    by_cases heq : processId = id
    · rw [heq, Function.update_self] at hprocess
      cases hprocess
    · rw [Function.update_of_ne heq] at hprocess
      exact hold processId process hprocess
  | kept id process process' hm manifest manifestSent processes => exact hset id _ processes (hold id process hm)
  | started process' draws drawn manifest manifestSent processes => exact hset _ _ processes drawn
  | announced id process process' event hm notSent processes => exact hset id _ processes (hold id process hm)

/-- No later step changes a manifest that is offered. -/
lemma Offers.after (h : Offers D x s processId name) (hs : SameSettings s s') (hp : ProcessesAfter e x s s')
    (hnew : drawsAt e = some x → NewId s) : Offers D x s' processId name := by
  refine ⟨h.drawn.after hs, ?_⟩
  obtain ⟨a, ha, hid⟩ := h.drawn
  intro process hprocess
  cases hp with
  | same processes =>
    rw [processes] at hprocess
    exact h.holds process hprocess
  | deleted id event processes =>
    rw [processes] at hprocess
    by_cases heq : processId = id
    · rw [heq, Function.update_self] at hprocess
      cases hprocess
    · rw [Function.update_of_ne heq] at hprocess
      exact h.holds process hprocess
  | kept id old new hm manifest manifestSent processes =>
    rw [processes] at hprocess
    by_cases heq : processId = id
    · rw [heq, Function.update_self] at hprocess
      cases hprocess
      rw [manifest, manifestSent]
      exact h.holds old (heq ▸ hm)
    · rw [Function.update_of_ne heq] at hprocess
      exact h.holds process hprocess
  | started new draws drawn manifest manifestSent processes =>
    have hne : processId ≠ s.random s.draws := by
      rintro rfl
      exact hnew draws a ha hid
    rw [processes, Function.update_of_ne hne] at hprocess
    exact h.holds process hprocess
  | announced id old new event hm notSent processes =>
    rw [processes] at hprocess
    by_cases heq : processId = id
    · have hsent := (h.holds old (heq ▸ hm)).1
      rw [notSent] at hsent
      cases hsent
    · rw [Function.update_of_ne heq] at hprocess
      exact h.holds process hprocess

end Node

/-! ### The messages -/

/-- What an Interest that was sent and is still awaited stands for. -/
def Carries (D : Deployment L) (n : InsertNet L sha1) (x : String) : InsertInterest L → Prop
  | .write (.find _ _ _ _ _ _) => x ∈ D.nodes
  | .write (.object name _ _ processId) => x ∈ D.nodes ∧ InsertAccepted n x name processId
  | .write (.create repo hash clusterPrefix _ processId) =>
    x ∈ D.nodes ∧ D.storage hash = some repo ∧
      clusterPrefix = (n.node x).write.mClusterNodePrefix ∧
      ∃ name, hash = insertedKey sha1 name ∧ InsertAccepted n x name processId ∧ Offers D x (n.node x) processId name
  | .writeInfo repo hash processId => x ∈ D.nodes → repo ∈ D.nodes ∧ D.storage hash = some x ∧
      ∃ name, hash = insertedKey sha1 name ∧ InsertAccepted n repo name processId ∧
        Offers D repo (n.node repo) processId name

/-- What the replies say. -/
def Tells (D : Deployment L) (n : InsertNet L sha1) (x : String) : InsertInterest L → InsertContent → Prop
  | .write (.object name _ _ _), content => content = .info (putFileSendManifest sha1 name (D.endBlockId name))
  | .writeInfo repo hash processId, content => ∃ json, content = .manifest json ∧ (x ∈ D.nodes →
      ∃ name, hash = insertedKey sha1 name ∧ InsertAccepted n repo name processId ∧
        json = (D.manifestOf repo name).toJson sha1)
  | _, _ => True

/-- A node of the cluster: its processes have drawn ids and its files are placed. -/
structure PlacedNode (D : Deployment L) (n : InsertNet L sha1) (x : String) (s : InsertNode L sha1) : Prop where
  settings : D.Settings x s
  drawn : ∀ processId process, s.write.mProcesses processId = some process → Drawn s processId
  placed : ∀ file ∈ s.manifests.files, PlacedFile D n x file

def PlacementInv (D : Deployment L) (n : InsertNet L sha1) : Prop :=
  Holds (fun x s => D.Announces x s ∧ (x ∈ D.nodes → PlacedNode D n x s)) (Carries D n) (Tells D n) n

/-- The node that an event gives an insert command to. -/
def insertsAt : InsertEvent L → Option String
  | .input x (.insert _) => some x
  | _ => none

/-- Insert commands go to nodes of the cluster, and no node draws an id a second time. -/
def Regular (D : Deployment L) (n : InsertNet L sha1) (e : InsertEvent L) : Prop :=
  (∀ x ∈ insertsAt e, x ∈ D.nodes) ∧ ∀ x ∈ drawsAt e, NewId (n.node x)

instance (D : Deployment L) (n : InsertNet L sha1) (e : InsertEvent L) : Decidable (Regular D n e) :=
  inferInstanceAs (Decidable (_ ∧ _))

section Steps

variable {D : Deployment L} {n t : InsertNet L sha1} {e : InsertEvent L} {x y : String}
  {a : InsertInterest L} {r : InsertNode.Result L sha1} {d : InsertContent}

lemma InsertAccepted.mono {name : L.Name} {processId : UInt64} (h : InsertAccepted n x name processId)
    (hn : ∀ b ∈ (n.node x).answers, b ∈ (t.node x).answers) : InsertAccepted t x name processId := by
  obtain ⟨b, hb, haccepts⟩ := h
  exact ⟨b, hn b hb, haccepts⟩

/-- What a step does to a node, for all that it keeps. -/
lemma node_of_step (h : step (insertNetwork L sha1) n e = some t) (y : String) :
    SameSettings (n.node y) (t.node y) ∧ ProcessesAfter e y (n.node y) (t.node y) := by
  obtain hq | ⟨x, r, hr, -, ha⟩ := step_cases h
  · rw [hq.node]
    exact ⟨.refl _, .same rfl⟩
  · rw [ha.node]
    by_cases hy : y = x
    · subst hy
      rw [Function.update_self]
      exact ⟨settings_of_reacts hr, processes_of_reacts hr⟩
    · rw [Function.update_of_ne hy]
      exact ⟨.refl _, .same rfl⟩

lemma accepted_step (h : step (insertNetwork L sha1) n e = some t) {name : L.Name} {processId : UInt64}
    (ha : InsertAccepted n x name processId) : InsertAccepted t x name processId := ha.mono (node_of_step h x).1.answers

/-- What the nodes keep, whatever happened: their settings, and the manifests that are offered. -/
structure GoesOn (D : Deployment L) (n t : InsertNet L sha1) : Prop where
  settings : ∀ x, SameSettings (n.node x) (t.node x)
  offers : ∀ x processId name, Offers D x (n.node x) processId name → Offers D x (t.node x) processId name

lemma goesOn_of_step (hc : Regular D n e) (h : step (insertNetwork L sha1) n e = some t) : GoesOn D n t where
  settings x := (node_of_step h x).1
  offers x _ _ ho := ho.after (node_of_step h x).1 (node_of_step h x).2 (hc.2 x)

namespace GoesOn

lemma accepted (hg : GoesOn D n t) {name : L.Name} {processId : UInt64} (ha : InsertAccepted n x name processId) :
    InsertAccepted t x name processId := ha.mono (hg.settings x).answers

lemma carries (hg : GoesOn D n t) (hc : Carries D n x a) : Carries D t x a := by
  cases a with
  | write i =>
    cases i with
    | find repo hash findId lifetime interest parameter => exact hc
    | object name nodePrefix lifetime bound => exact ⟨hc.1, hg.accepted hc.2⟩
    | create repo hash clusterPrefix lifetime createId =>
      obtain ⟨hx, hrepo, hcluster, name, hhash, hname, ho⟩ := hc
      refine ⟨hx, hrepo, ?_, name, hhash, hg.accepted hname, hg.offers _ _ _ ho⟩
      rw [hcluster, (hg.settings x).clusterNodePrefix]
  | writeInfo repo hash processId =>
    intro hfrom
    obtain ⟨hx, hrepo, name, hhash, hname, ho⟩ := hc hfrom
    exact ⟨hx, hrepo, name, hhash, hg.accepted hname, hg.offers _ _ _ ho⟩

lemma tells (hg : GoesOn D n t) (hd : Tells D n x a d) : Tells D t x a d := by
  cases a with
  | write i => cases i <;> exact hd
  | writeInfo repo hash processId =>
    obtain ⟨json, hjson, hfrom⟩ := hd
    refine ⟨json, hjson, fun hx => ?_⟩
    obtain ⟨name, hhash, hname, heq⟩ := hfrom hx
    exact ⟨name, hhash, hg.accepted hname, heq⟩

lemma placedFile (hg : GoesOn D n t) {file : String × ManifestJson} (hf : PlacedFile D n y file) :
    PlacedFile D t y file := by
  obtain ⟨hrouted, x, hx, name, processId, hname, heq⟩ := hf
  exact ⟨hrouted, x, hx, name, processId, hg.accepted hname, heq⟩

lemma node {s : InsertNode L sha1} (hg : GoesOn D n t)
    (hs : D.Announces y s ∧ (y ∈ D.nodes → PlacedNode D n y s)) :
    D.Announces y s ∧ (y ∈ D.nodes → PlacedNode D t y s) := by
  obtain ⟨hannounces, hplaced⟩ := hs
  refine ⟨hannounces, fun hy => ⟨(hplaced hy).settings, (hplaced hy).drawn, ?_⟩⟩
  exact fun file hf => hg.placedFile ((hplaced hy).placed file hf)

end GoesOn

namespace PlacementInv

lemma placedNode (hn : PlacementInv D n) (hx : x ∈ D.nodes) : PlacedNode D n x (n.node x) := (hn.node x).2 hx

/-- A create makes the node of its hash ask the node that sent it for the manifest. -/
lemma create_sent (hn : PlacementInv D n) {repo hash clusterPrefix : String} {lifetime : ℕ} {processId : UInt64}
    (hc : Carries D n x (.write (.create repo hash clusterPrefix lifetime processId))) :
    ∀ b ∈ ((n.node repo).onRequest (.write (.create repo hash clusterPrefix lifetime processId))).sent,
      Carries D n repo b := by
  obtain ⟨hx, hrepo, hcluster, name, hhash, hname, ho⟩ := hc
  intro b hb
  rw [List.mem_singleton.mp hb]
  intro hnode
  have haddress : clusterPrefix ++ "/" ++ (n.node repo).write.mClusterPrefix = x := by
    rw [hcluster, (hn.placedNode hnode).settings.clusterPrefix, (hn.placedNode hx).settings.address]
  rw [haddress]
  exact ⟨hx, hrepo, name, hhash, hname, ho⟩

/-- The client's announcement makes the process offer the manifest, and its create goes to the node
of its hash. -/
lemma object_sent (hn : PlacementInv D n) (hx : x ∈ D.nodes) {name : L.Name} {nodePrefix : Option (List String)}
    {lifetime : ℕ} {processId : UInt64} (hname : InsertAccepted n x name processId)
    (hd : Tells D n x (.write (.object name nodePrefix lifetime processId)) d)
    (ht : t.node x = ((n.node x).onResponse (.write (.object name nodePrefix lifetime processId)) d).node) :
    ∀ b ∈ ((n.node x).onResponse (.write (.object name nodePrefix lifetime processId)) d).sent,
      Carries D t x b := by
  have hnode := hn.placedNode hx
  have hsettings : SameSettings (n.node x) (t.node x) := ht ▸ onResponse_settings _
  change d = .info (putFileSendManifest sha1 name (D.endBlockId name)) at hd
  subst hd
  have hsent : ∀ b, b ∈ ((n.node x).onResponse (.write (.object name nodePrefix lifetime processId))
      (.info (putFileSendManifest sha1 name (D.endBlockId name)))).sent ↔
      ∃ i ∈ ((n.node x).write.onDataValidated sha1 (n.node x).keySpace nodePrefix
        (some (putFileSendManifest sha1 name (D.endBlockId name))) processId ((n.node x).clock (n.node x).draws)).sent,
        InsertInterest.write i = b := fun b => List.mem_map
  have hwrite : (t.node x).write = ((n.node x).write.onDataValidated sha1 (n.node x).keySpace nodePrefix
      (some (putFileSendManifest sha1 name (D.endBlockId name))) processId
      ((n.node x).clock (n.node x).draws)).handle := by
    rw [ht]
    rfl
  intro b hb
  obtain ⟨i, hi, rfl⟩ := (hsent b).mp hb
  cases hp : (n.node x).write.mProcesses processId with
  | none =>
    rw [onDataValidated, hp] at hi
    cases hi
  | some process =>
    cases hms : process.manifestSent with
    | true =>
      obtain ⟨-, -, hnone⟩ := onDataValidated_known sha1 (n.node x).keySpace nodePrefix
        ((n.node x).clock (n.node x).draws) hp hms (putFileSendManifest sha1 name (D.endBlockId name))
      rw [hnone] at hi
      cases hi
    | false =>
      obtain ⟨⟨process', hm, hmanifest, hkept⟩, -, hcreate⟩ := onDataValidated_built sha1 (n.node x).keySpace
        nodePrefix ((n.node x).clock (n.node x).draws) hp hms (putFileSendManifest sha1 name (D.endBlockId name))
      have hbuilt : announcedManifest process (n.node x).write.mRepoPrefix
          (putFileSendManifest sha1 name (D.endBlockId name)) = D.manifestOf x name := by
        rw [hnode.settings.repoPrefix]
        rfl
      rw [hbuilt] at hcreate hmanifest
      rw [hcreate, Deployment.getHash_manifestOf, hnode.settings.getManifestStorage] at hi
      obtain ⟨repo, hrepo, rfl⟩ := List.mem_map.mp hi
      refine ⟨hx, Option.mem_toList.mp hrepo, ?_, name, rfl, hname.mono hsettings.answers, ?_, ?_⟩
      · rw [hsettings.clusterNodePrefix]
      · exact (hnode.drawn processId process hp).after hsettings
      · intro new hnew
        rw [hwrite, hm, Function.update_self] at hnew
        cases hnew
        exact ⟨hkept, hmanifest⟩

lemma sent_of_reacts (hn : PlacementInv D n) (hc : Regular D n e) (hr : Reacts (insertNetwork L sha1) n e x r)
    (ht : t.node x = r.node) (hmono : ∀ y b, Carries D n y b → Carries D t y b) : ∀ b ∈ r.sent, Carries D t x b := by
  cases hr with
  | input x c =>
    cases c with
    | insert parameter =>
      intro b hb
      obtain ⟨i, hi, rfl⟩ := List.mem_map.mp hb
      obtain ⟨repo, hash, processId, lifetime, interest, hfind⟩ := handleInsertCommand_find hi
      rw [hfind]
      exact hc.1 x rfl
    | expire processId => simp [insertNetwork, InsertNode.onCommand]
  | @request y a hm =>
    have hcarries := hn.requests _ hm
    cases a with
    | write i =>
      cases i with
      | find repo hash findId lifetime interest parameter =>
        have hnil : ((n.node repo).handleFindCommand hash).sent = [] := handleFindCommand_sent hash
        exact fun b hb => absurd hb (List.eq_nil_iff_forall_not_mem.mp hnil b)
      | object name nodePrefix lifetime bound =>
        intro b hb
        cases hb
      | create repo hash clusterPrefix lifetime createId =>
        exact fun b hb => hmono _ b (hn.create_sent hcarries b hb)
    | writeInfo repo hash processId =>
      intro b hb
      cases hb
  | @response x a d hm hp =>
    have hcarries := hn.pending _ hp
    cases a with
    | write i =>
      cases i with
      | find repo hash findId lifetime interest parameter =>
        intro b hb
        obtain ⟨i, hi, rfl⟩ := List.mem_map.mp hb
        obtain ⟨rfl, hsingle, response, hdone, hcode, hid⟩ := onFindResponse_object hi
        refine ⟨hcarries, ⟨interest, parameter, response⟩, ?_, hcode, hsingle, rfl, hid⟩
        rw [ht]
        apply List.mem_append_right
        rw [hdone]
        exact List.mem_singleton_self _
      | object name nodePrefix lifetime bound =>
        exact hn.object_sent hcarries.1 hcarries.2 (hn.responses _ hm) ht
      | create repo hash clusterPrefix lifetime createId =>
        intro b hb
        cases hb
    | writeInfo repo hash processId =>
      have hnil : ((n.node x).onInfoValidated d processId).sent = [] := onInfoValidated_node.2.2
      exact fun b hb => absurd hb (List.eq_nil_iff_forall_not_mem.mp hnil b)
  | @timeout x a hp =>
    have hnil : ((n.node x).onTimeout a).sent = [] := onTimeout_sent a
    exact fun b hb => absurd hb (List.eq_nil_iff_forall_not_mem.mp hnil b)

/-- A client announces its object, and a process whose create is under way replies with the manifest
that the create is for. -/
lemma reply_of_request (hn : PlacementInv D n) {a : InsertInterest L} (hcarries : Carries D n y a)
    (hd : ((n.node a.destination).onRequest a).reply = some d) : Tells D n y a d := by
  cases a with
  | write i =>
    cases i with
    | find repo hash findId lifetime interest parameter => trivial
    | object name nodePrefix lifetime bound =>
      cases hd
      change InsertContent.info (putFileSendManifest sha1 name ((n.node (L.uri name)).objects name)) = _
      rw [(hn.node (L.uri name)).1 name rfl]
    | create repo hash clusterPrefix lifetime createId => trivial
  | writeInfo repo hash processId =>
    obtain ⟨json, hreply, rfl⟩ := Option.map_eq_some_iff.mp hd
    refine ⟨json, rfl, fun hy => ?_⟩
    obtain ⟨hx, hrepo, name, hhash, hname, ho⟩ := hcarries hy
    refine ⟨name, hhash, hname, ?_⟩
    change ((n.node repo).write.handleInfoCommand sha1 processId).reply = some json at hreply
    cases hp : (n.node repo).write.mProcesses processId with
    | none =>
      rw [handleInfoCommand, hp] at hreply
      cases hreply
    | some process =>
      have hmanifest := (ho.holds process hp).2
      simp only [handleInfoCommand, hp, hmanifest, Option.some_inj] at hreply
      exact hreply.symm

/-- The manifest that arrives at a node that asked for it belongs there. -/
lemma stored_of_reacts (hn : PlacementInv D n) (hr : Reacts (insertNetwork L sha1) n e x r) (hx : x ∈ D.nodes) :
    ∀ file ∈ r.node.manifests.files, PlacedFile D n x file := by
  have hold := (hn.placedNode hx).placed
  cases hr with
  | input x c =>
    rw [show ((insertNetwork L sha1).onInput _ _).node.manifests = _ from (onCommand_node c).2.2]
    exact hold
  | @request y a hm =>
    rw [show ((insertNetwork L sha1).onRequest _ _).node.manifests = _ from (onRequest_node a).2.2]
    exact hold
  | @response x a d hm hp =>
    obtain hsame | ⟨repo, hash, processId, json, m, hfrom, rfl, rfl, hstored⟩ :=
      onResponse_manifests (n.node x) d a
    · rw [show ((insertNetwork L sha1).onResponse _ _ _).node.manifests = _ from hsame]
      exact hold
    · obtain ⟨hrepo, hrouted, -⟩ := hn.pending _ hp hx
      obtain ⟨told, heq, htold⟩ := hn.responses _ hm
      cases heq
      obtain ⟨name, rfl, hname, rfl⟩ := htold hx
      rw [Deployment.fromJson_manifestOf] at hfrom
      cases hfrom
      rw [show ((insertNetwork L sha1).onResponse _ _ _).node.manifests = _ from hstored]
      intro file hf
      obtain rfl | hf := List.mem_cons.mp hf
      · exact ⟨hrouted, repo, hrepo, name, processId, hname, rfl⟩
      · exact hold file (List.mem_of_mem_filter hf)
  | @timeout x a hp =>
    rw [show ((insertNetwork L sha1).onTimeout _ _).node.manifests = _ from onTimeout_manifests a]
    exact hold

theorem step (hn : PlacementInv D n) (hc : Regular D n e) (h : step (insertNetwork L sha1) n e = some t) :
    PlacementInv D t := by
  have hg : GoesOn D n t := goesOn_of_step hc h
  refine Holds.of_step_of_kept hn h (fun _ _ => hg.node) (fun _ _ => hg.carries) (fun _ _ _ => hg.tells) ?_
  intro x r hr _ ha
  have ht : t.node x = r.node := by rw [ha.node, Function.update_self]
  have hset := settings_of_reacts hr
  refine ⟨⟨?_, fun hx => ⟨?_, ?_, ?_⟩⟩, hn.sent_of_reacts hc hr ht (fun _ _ => hg.carries), ?_⟩
  · intro name hname
    rw [hset.objects]
    exact (hn.node x).1 name hname
  · exact (hn.placedNode hx).settings.after hset
  · exact drawn_after (hn.placedNode hx).drawn hset (processes_of_reacts hr)
  · exact fun file hf => hg.placedFile (hn.stored_of_reacts hr hx file hf)
  · rintro y a d rfl hd
    cases hr with
    | request hm => exact hg.tells (hn.reply_of_request (hn.requests _ hm) hd)

end PlacementInv

/-- Before the first command: the nodes of the cluster have their settings and are empty. -/
structure Deployment.Fresh (D : Deployment L) (n : InsertNet L sha1) : Prop where
  requests : n.requests = []
  responses : n.responses = []
  pending : n.pending = []
  announces : ∀ x, D.Announces x (n.node x)
  settings : ∀ x ∈ D.nodes, D.Settings x (n.node x)
  processes : ∀ x ∈ D.nodes, (n.node x).write.mProcesses = fun _ => none
  manifests : ∀ x ∈ D.nodes, (n.node x).manifests.files = []

lemma Deployment.Fresh.placementInv (hn : D.Fresh n) : PlacementInv D n := by
  refine ⟨fun x => ⟨hn.announces x, fun hx => ⟨hn.settings x hx, ?_, ?_⟩⟩, ?_, ?_, ?_⟩
  · intro processId process hp
    rw [hn.processes x hx] at hp
    cases hp
  · simp [hn.manifests x hx]
  · simp [hn.requests]
  · simp [hn.responses]
  · simp [hn.pending]

theorem placementInv_of_run {es : List (InsertEvent L)} (hn : D.Fresh n)
    (hmeets : Meets (step (insertNetwork L sha1)) (Regular D) n es)
    (hrun : run (step (insertNetwork L sha1)) n es = some t) : PlacementInv D t :=
  run_invariant (fun _ _ _ hi hc h => PlacementInv.step hi hc h) hn.placementInv hmeets hrun

/-- In every run, every file is where its key is routed to and has the manifest that an accepted
insert built. -/
theorem manifests_placed {es : List (InsertEvent L)} (hn : D.Fresh n)
    (hmeets : Meets (step (insertNetwork L sha1)) (Regular D) n es)
    (hrun : run (step (insertNetwork L sha1)) n es = some t) :
    ∀ y ∈ D.nodes, ∀ file ∈ (t.node y).manifests.files, PlacedFile D t y file :=
  fun _ hy => ((placementInv_of_run hn hmeets hrun).placedNode hy).placed

end Steps

/-! ### Two nodes and one object -/

def filmDeployment : Deployment plainNames where
  keySpaceFile := filmFile
  nodes := ["/a/repo", "/b/repo"]
  clusterPrefix := "repo"
  endBlockId _ := 0

lemma filmNet_fresh : filmDeployment.Fresh filmNet where
  requests := rfl
  responses := rfl
  pending := rfl
  announces _ _ _ := rfl
  settings := by
    simp only [filmDeployment, List.forall_mem_cons]
    exact ⟨⟨rfl, rfl, rfl, rfl⟩, ⟨rfl, rfl, rfl, rfl⟩, by simp⟩
  processes _ _ := rfl
  manifests _ _ := rfl

theorem film_placed : ∃ t, run (step (insertNetwork plainNames archiveDigest)) filmNet filmThenFilm = some t ∧
    (t.node "/b/repo").manifests.files = [(filmHash, filmManifest)] ∧
    ∀ y ∈ filmDeployment.nodes, ∀ file ∈ (t.node y).manifests.files, PlacedFile filmDeployment t y file := by
  have hview : (run (step (insertNetwork plainNames archiveDigest)) filmNet filmThenFilm).map
      (fun t => (t.node "/b/repo").manifests.files) = some [(filmHash, filmManifest)] := by decide +kernel
  have hmeets : Meets (step (insertNetwork plainNames archiveDigest)) (Regular filmDeployment) filmNet
      filmThenFilm := by
    decide +kernel
  obtain ⟨t, hrun, ht⟩ := Option.map_eq_some_iff.mp hview
  exact ⟨t, hrun, ht, manifests_placed filmNet_fresh hmeets hrun⟩

end Difs
