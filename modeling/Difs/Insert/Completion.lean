import Difs.Insert.Directory

/-!
# Inserts that are completed

Where only finds are lost and every process gets an id of its own, an insert that was accepted
goes through four stages: its object is being asked for, its create is on the way, its manifest is
being fetched, or the manifest is stored. When nothing is on the way any more it is stored.
-/

namespace Difs

open EventRun Exchange WriteHandle Directory

variable {L : NameLibrary} {sha1 : String → String}

/-- The Interest that an event loses a message of or lets time out. -/
def lossOf : InsertEvent L → Option (InsertInterest L)
  | .timeout _ a => some a
  | .loseRequest _ a => some a
  | .loseResponse _ a _ => some a
  | _ => none

/-- The process of the manifest handle that an event deletes. -/
def expires : InsertEvent L → Option (String × UInt64)
  | .input y (.expire processId) => some (y, processId)
  | _ => none

/-- Only finds are lost or time out, an id that is drawn is new in the cluster, and no process of
the manifest handle is deleted before it has its manifest. -/
def Reliable (D : Deployment L) (n : InsertNet L sha1) (e : InsertEvent L) : Prop :=
  Regular D n e ∧ (∀ a ∈ lossOf e, a.asked ≠ none) ∧
    (∀ x ∈ drawsAt e, ∀ z ∈ D.nodes, ∀ a ∈ (n.node z).answers,
      a.response.processId ≠ some ((n.node x).random (n.node x).draws)) ∧
    ∀ p ∈ expires e, (n.node p.1).creates p.2 ≠ some 0

instance (D : Deployment L) (n : InsertNet L sha1) (e : InsertEvent L) : Decidable (Reliable D n e) :=
  inferInstanceAs (Decidable (_ ∧ _))

/-- The process that an Interest for an object was sent for. -/
def InsertInterest.objectOf : InsertInterest L → Option UInt64
  | .write (.object _ _ _ processId) => some processId
  | _ => none

def Present (n : InsertNet L sha1) (x : String) (processId : UInt64) : Prop :=
  ((n.node x).write.mProcesses processId).isSome

/-- The object is being asked for, and for no other process of that id. -/
structure Announcing (n : InsertNet L sha1) (x : String) (name : L.Name) (processId : UInt64)
    (nodePrefix : Option (List String)) (lifetime : ℕ) : Prop where
  underway : Underway n x (.write (.object name nodePrefix lifetime processId))
  notSent : ∃ process, (n.node x).write.mProcesses processId = some process ∧ process.manifestSent = false
  only : ∀ a, (x, a) ∈ n.pending → a.objectOf = some processId → a = .write (.object name nodePrefix lifetime processId)

/-- The create is on its way to the node `y`. -/
structure Creating (n : InsertNet L sha1) (x y : String) (key : String) (processId : UInt64) : Prop where
  request : ∃ clusterPrefix lifetime, (x, .write (.create y key clusterPrefix lifetime processId)) ∈ n.requests
  present : Present n x processId

/-- The node `y` is fetching the manifest. -/
structure Fetching (n : InsertNet L sha1) (x y : String) (key : String) (processId : UInt64) : Prop where
  underway : Underway n y (.writeInfo x key processId)
  created : (n.node y).creates processId = some 0
  present : Present n x processId

/-- How far an insert that was accepted at `x` has come. -/
inductive Progress (n : InsertNet L sha1) (x y : String) (name : L.Name) (processId : UInt64) : Prop where
  | announcing (nodePrefix : Option (List String)) (lifetime : ℕ)
      (stage : Announcing n x name processId nodePrefix lifetime)
  | creating (stage : Creating n x y (insertedKey sha1 name) processId)
  | fetching (stage : Fetching n x y (insertedKey sha1 name) processId)
  | stored (stage : (n.node y).manifests.hasManifest (insertedKey sha1 name))

/-- Ids are not shared, a process that has its manifest has stored it, and every accepted insert
is in one of the stages. -/
structure CompletionInv (D : Deployment L) (n : InsertNet L sha1) : Prop where
  placement : PlacementInv D n
  told : ∀ x ∈ D.nodes, ∀ a ∈ (n.node x).answers, a.response.code = 100 → ∃ processId,
    a.response.processId = some processId
  unique : ∀ x ∈ D.nodes, ∀ z ∈ D.nodes, ∀ a ∈ (n.node x).answers, ∀ b ∈ (n.node z).answers, ∀ processId,
    a.response.processId = some processId → b.response.processId = some processId → x = z ∧ a = b
  created : ∀ y ∈ D.nodes, ∀ processId k, (n.node y).creates processId = some k → k ≠ 0 →
    ∃ x ∈ D.nodes, ∃ name, InsertAccepted n x name processId ∧ (n.node y).manifests.hasManifest (insertedKey sha1 name)
  progress : ∀ x ∈ D.nodes, ∀ name processId, InsertAccepted n x name processId →
    ∃ y ∈ D.nodes, D.storage (insertedKey sha1 name) = some y ∧ Progress n x y name processId

section Steps

variable {D : Deployment L} {n t : InsertNet L sha1} {e : InsertEvent L} {x y z key : String} {name : L.Name}
  {processId : UInt64} {a : InsertInterest L} {d : InsertContent}

/-! ### What a reliable step leaves -/

namespace Reliable

lemma not_timeout (hr : Reliable D n e) (ha : a.asked = none) : e ≠ .timeout x a := by
  rintro rfl
  exact hr.2.1 a rfl ha

lemma not_loseRequest (hr : Reliable D n e) (ha : a.asked = none) : e ≠ .loseRequest x a := by
  rintro rfl
  exact hr.2.1 a rfl ha

lemma not_loseResponse (hr : Reliable D n e) (ha : a.asked = none) : e ≠ .loseResponse x a d := by
  rintro rfl
  exact hr.2.1 a rfl ha

/-- An id that is drawn was not told to a command in the cluster. -/
lemma not_drawn (hr : Reliable D n e) (he : drawsAt e = some x) (hz : z ∈ D.nodes) :
    ¬ Drawn (n.node z) ((n.node x).random (n.node x).draws) := by
  rintro ⟨b, hb, hid⟩
  exact hr.2.2.1 x he z hz b hb hid

end Reliable

lemma hasManifest_step (h : step (insertNetwork L sha1) n e = some t)
    (hs : (n.node y).manifests.hasManifest key) : (t.node y).manifests.hasManifest key := by
  obtain hq | ⟨x, r, hr, -, ha⟩ := step_cases h
  · rw [hq.node]
    exact hs
  · rw [ha.node]
    by_cases hy : y = x
    · subst hy
      rw [Function.update_self]
      obtain hsame | ⟨json, m, hm, hstored⟩ := manifests_of_reacts hr
      · rw [hsame]
        exact hs
      · rw [hstored, ManifestStore.hasManifest_insertManifest]
        exact Or.inr hs
    · rw [Function.update_of_ne hy]
      exact hs

lemma creates_step (h : step (insertNetwork L sha1) n e = some t) (y : String) :
    CreatesAfter e y (n.node y) (t.node y) := by
  obtain hq | ⟨x, r, hr, -, ha⟩ := step_cases h
  · rw [hq.node]
    exact .same rfl
  · rw [ha.node]
    by_cases hy : y = x
    · subst hy
      rw [Function.update_self]
      exact creates_of_reacts hr
    · rw [Function.update_of_ne hy]
      exact .same rfl

lemma present_step (hr : Reliable D n e) (h : step (insertNetwork L sha1) n e = some t)
    (hp : Present n x processId) : Present t x processId := by
  have hset : ∀ id (new : ProcessInfo L),
      (t.node x).write.mProcesses = Function.update (n.node x).write.mProcesses id (some new) →
        Present t x processId := by
    intro id new hm
    unfold Present
    by_cases hid : processId = id
    · rw [hm, hid, Function.update_self]
      rfl
    · rw [hm, Function.update_of_ne hid]
      exact hp
  cases (node_of_step h x).2 with
  | same processes =>
    unfold Present
    rw [processes]
    exact hp
  | deleted id event processes =>
    obtain ⟨i, he, ha⟩ := event
    exact absurd he (hr.not_timeout ha)
  | kept id old new hm manifest manifestSent processes => exact hset id new processes
  | started new draws drawn manifest manifestSent processes => exact hset _ new processes
  | announced id old new event hm notSent processes => exact hset id new processes

/-! ### The stages -/

namespace CompletionInv

/-- The ids of accepted inserts tell them apart. -/
lemma accepted_unique (hn : CompletionInv D n) (hx : x ∈ D.nodes) (hz : z ∈ D.nodes) {name' : L.Name}
    (ha : InsertAccepted n x name processId) (hb : InsertAccepted n z name' processId) : x = z ∧ name = name' := by
  obtain ⟨a, ha, haccepts⟩ := ha
  obtain ⟨b, hb, hbccepts⟩ := hb
  obtain ⟨hxz, hab⟩ := hn.unique x hx z hz a ha b hb processId haccepts.processId hbccepts.processId
  exact ⟨hxz, by rw [← haccepts.name, hab, hbccepts.name]⟩

/-- A node of the cluster that waits for the manifest of a process waits for that of its object. -/
lemma fetch_of_pending (hn : CompletionInv D n) (hx : x ∈ D.nodes) (hy : y ∈ D.nodes) {repo hash : String}
    (hp : (y, .writeInfo repo hash processId) ∈ n.pending) (ha : InsertAccepted n x name processId) :
    repo = x ∧ hash = insertedKey sha1 name ∧ Offers D x (n.node x) processId name := by
  obtain ⟨hrepo, -, name', hhash, hname', ho⟩ := hn.placement.pending _ hp hy
  obtain ⟨rfl, rfl⟩ := hn.accepted_unique hx hrepo ha hname'
  exact ⟨rfl, hhash, ho⟩

/-- The manifest arrives. -/
lemma fetched_step (hn : CompletionInv D n) (hy : y ∈ D.nodes)
    (hf : Fetching n x y (insertedKey sha1 name) processId)
    (h : step (insertNetwork L sha1) n (.response y (.writeInfo x (insertedKey sha1 name) processId) d) = some t) :
    (t.node y).manifests.hasManifest (insertedKey sha1 name) := by
  obtain ⟨hm, ha⟩ := adds_of_response h hf.underway.pending
  obtain ⟨json, rfl, htold⟩ := hn.placement.responses _ hm
  obtain ⟨name', hkey, -, rfl⟩ := htold hy
  have hfrom : Manifest.fromJson ((D.manifestOf x name').toJson sha1) = some (D.manifestOf x name') :=
    Deployment.fromJson_manifestOf x name'
  have hstored : (t.node y).manifests =
      (n.node y).manifests.insertManifest (D.manifestOf x name') (Manifest.mHash_of_fromJson hfrom) := by
    rw [ha.node, Function.update_self]
    exact congrArg InsertNode.manifests (onInfoValidated_stores hf.created hfrom)
  rw [hstored]
  exact ManifestStore.hasManifest_insertManifest.mpr (Or.inl hkey)

/-- A node that is to fetch a manifest keeps its process until the manifest arrives. -/
lemma created_step (hn : CompletionInv D n) (hr : Reliable D n e) (h : step (insertNetwork L sha1) n e = some t)
    (hx : x ∈ D.nodes) (hy : y ∈ D.nodes) (ha : InsertAccepted n x name processId)
    (hc : (n.node y).creates processId = some 0)
    (hnot : ∀ d, e ≠ .response y (.writeInfo x (insertedKey sha1 name) processId) d) :
    (t.node y).creates processId = some 0 := by
  cases creates_step h y with
  | same creates =>
    rw [creates]
    exact hc
  | deleted id event creates =>
    have hid : processId ≠ id := by
      rintro rfl
      obtain he | ⟨repo, hash, he⟩ := event
      · exact hr.2.2.2 (y, processId) (by rw [he]; rfl) hc
      · exact absurd he (hr.not_timeout rfl)
    rw [creates, Function.update_of_ne hid]
    exact hc
  | created id creates =>
    rw [creates]
    by_cases hid : processId = id
    · rw [← hid, Function.update_self, hc]
      rfl
    · rw [Function.update_of_ne hid]
      exact hc
  | stored repo hash id json m from_json event creates manifests =>
    by_cases hid : processId = id
    · subst hid
      subst event
      by_cases hp : (y, .writeInfo repo hash processId) ∈ n.pending
      · obtain ⟨rfl, rfl, -⟩ := hn.fetch_of_pending hx hy hp ha
        exact absurd rfl (hnot (.manifest json))
      · rw [node_of_unawaited h hp]
        exact hc
    · rw [creates, Function.update_of_ne hid]
      exact hc

lemma fetching_step (hn : CompletionInv D n) (hr : Reliable D n e) (h : step (insertNetwork L sha1) n e = some t)
    (hx : x ∈ D.nodes) (hy : y ∈ D.nodes) (ha : InsertAccepted n x name processId)
    (hf : Fetching n x y (insertedKey sha1 name) processId) : Progress t x y name processId := by
  by_cases hres : ∃ d, e = .response y (.writeInfo x (insertedKey sha1 name) processId) d
  · obtain ⟨d, rfl⟩ := hres
    exact .stored (hn.fetched_step hy hf h)
  · have hnot : ∀ d, e ≠ .response y (.writeInfo x (insertedKey sha1 name) processId) d := fun d he => hres ⟨d, he⟩
    have hreply : ((n.node x).onRequest (.writeInfo x (insertedKey sha1 name) processId)).reply.isSome := by
      obtain ⟨process, hp⟩ := Option.isSome_iff_exists.mp hf.present
      obtain ⟨-, -, ho⟩ := hn.fetch_of_pending hx hy hf.underway.pending ha
      have hmanifest := (ho.holds process hp).2
      simp [InsertNode.onRequest, handleInfoCommand, hp, hmanifest]
    obtain hu | hres' := hf.underway.step h (hr.not_loseRequest rfl) (fun d => hr.not_loseResponse rfl)
      (hr.not_timeout rfl) (fun _ => hreply)
    · exact .fetching ⟨hu, hn.created_step hr h hx hy ha hf.created hnot, present_step hr h hf.present⟩
    · exact absurd hres' hres

lemma creating_step (hn : CompletionInv D n) (hr : Reliable D n e) (h : step (insertNetwork L sha1) n e = some t)
    (hx : x ∈ D.nodes) (hy : y ∈ D.nodes) (ha : InsertAccepted n x name processId)
    (hc : Creating n x y (insertedKey sha1 name) processId) : Progress t x y name processId := by
  obtain ⟨clusterPrefix, lifetime, hreq⟩ := hc.request
  by_cases he : e = .request x (.write (.create y (insertedKey sha1 name) clusterPrefix lifetime processId))
  · subst he
    obtain ⟨-, hadds⟩ := adds_of_request h
    have haddress : clusterPrefix ++ "/" ++ (n.node y).write.mClusterPrefix = x := by
      obtain ⟨-, -, hcluster, -⟩ := hn.placement.requests _ hreq
      rw [hcluster, (hn.placement.placedNode hy).settings.clusterPrefix, (hn.placement.placedNode hx).settings.address]
    have hsent : InsertInterest.writeInfo x (insertedKey sha1 name) processId ∈ ((n.node y).onRequest
        (.write (.create y (insertedKey sha1 name) clusterPrefix lifetime processId))).sent := by
      rw [← haddress]
      exact List.mem_singleton_self _
    have hcreates : (t.node y).creates processId = some (((n.node y).creates processId).getD 0) := by
      have hnode : t.node y = ((n.node y).onRequest
          (.write (.create y (insertedKey sha1 name) clusterPrefix lifetime processId))).node := by
        rw [hadds.node]
        exact Function.update_self _ _ _
      rw [hnode]
      exact Function.update_self _ _ _
    by_cases hzero : ((n.node y).creates processId).getD 0 = 0
    · rw [hzero] at hcreates
      exact .fetching ⟨hadds.underway hsent, hcreates, present_step hr h hc.present⟩
    · -- a create that comes a second time
      obtain ⟨k, hk⟩ : ∃ k, (n.node y).creates processId = some k := by
        apply Option.ne_none_iff_exists'.mp
        intro hnone
        rw [hnone] at hzero
        exact hzero rfl
      rw [hk] at hzero
      obtain ⟨z, hz, name', hname', hstored⟩ := hn.created y hy processId k hk hzero
      obtain ⟨-, rfl⟩ := hn.accepted_unique hx hz ha hname'
      exact .stored (hasManifest_step h hstored)
  · exact .creating ⟨⟨clusterPrefix, lifetime, mem_requests_of_step h hreq he (hr.not_loseRequest rfl)⟩,
      present_step hr h hc.present⟩

lemma objectOf_eq_some (h : a.objectOf = some processId) :
    ∃ name nodePrefix lifetime, a = .write (.object name nodePrefix lifetime processId) := by
  unfold InsertInterest.objectOf at h
  split at h
  · cases h
    exact ⟨_, _, _, rfl⟩
  · cases h

/-- No new process asks for its object under the id of an accepted insert. -/
lemma only_step (hr : Reliable D n e) (h : step (insertNetwork L sha1) n e = some t) (hx : x ∈ D.nodes)
    (hdrawn : Drawn (n.node x) processId) : ∀ a, (x, a) ∈ t.pending → a.objectOf = some processId →
      (x, a) ∈ n.pending := by
  intro a ha hid
  obtain hq | ⟨z, r, hreacts, -, hadds⟩ := step_cases h
  · rw [← hq.pending]
    exact ha
  · obtain hold | ⟨b, hb, heq⟩ := hadds.mem_pending _ ha
    · exact hold
    · obtain ⟨rfl, rfl⟩ := Prod.mk.inj heq
      obtain ⟨name, nodePrefix, lifetime, rfl⟩ := objectOf_eq_some hid
      obtain ⟨he, rfl⟩ := object_of_sent hreacts hb
      exact absurd hdrawn (hr.not_drawn he hx)

/-- The announcement arrives, and the create is sent. -/
lemma announced_step (hn : CompletionInv D n) (hx : x ∈ D.nodes)
    (hrouted : D.storage (insertedKey sha1 name) = some y) {nodePrefix : Option (List String)} {lifetime : ℕ}
    (hs : Announcing n x name processId nodePrefix lifetime)
    (h : step (insertNetwork L sha1) n (.response x (.write (.object name nodePrefix lifetime processId)) d) = some t) :
    Creating t x y (insertedKey sha1 name) processId := by
  obtain ⟨hm, hadds⟩ := adds_of_response h hs.underway.pending
  have hd : d = .info (putFileSendManifest sha1 name (D.endBlockId name)) := hn.placement.responses _ hm
  subst hd
  obtain ⟨process, hp, hnot⟩ := hs.notSent
  have hsettings := (hn.placement.placedNode hx).settings
  obtain ⟨⟨process', hprocesses, -, -⟩, -, hsent⟩ := onDataValidated_built sha1 (n.node x).keySpace nodePrefix
    ((n.node x).clock (n.node x).draws) hp hnot (putFileSendManifest sha1 name (D.endBlockId name))
  have hbuilt : announcedManifest process (n.node x).write.mRepoPrefix
      (putFileSendManifest sha1 name (D.endBlockId name)) = D.manifestOf x name := by
    rw [hsettings.repoPrefix]
    rfl
  rw [hbuilt, Deployment.getHash_manifestOf, hsettings.getManifestStorage, hrouted] at hsent
  refine ⟨⟨(n.node x).write.mClusterNodePrefix, (n.node x).write.mInterestLifetime, ?_⟩, ?_⟩
  · apply hadds.sent
    refine List.mem_map.mpr ⟨_, ?_, rfl⟩
    have hcreate : WriteInterest.create y (insertedKey sha1 name) (n.node x).write.mClusterNodePrefix
        (n.node x).write.mInterestLifetime processId ∈ ((n.node x).write.onDataValidated sha1 (n.node x).keySpace
          nodePrefix (some (putFileSendManifest sha1 name (D.endBlockId name))) processId
          ((n.node x).clock (n.node x).draws)).sent := by
      rw [hsent]
      exact List.mem_singleton_self _
    exact hcreate
  · have hwrite : (t.node x).write.mProcesses =
        Function.update (n.node x).write.mProcesses processId (some process') := by
      rw [hadds.node, Function.update_self]
      exact hprocesses
    rw [Present, hwrite, Function.update_self]
    rfl

lemma announcing_step (hn : CompletionInv D n) (hr : Reliable D n e) (h : step (insertNetwork L sha1) n e = some t)
    (hx : x ∈ D.nodes) (ha : InsertAccepted n x name processId) (hrouted : D.storage (insertedKey sha1 name) = some y)
    {nodePrefix : Option (List String)} {lifetime : ℕ} (hs : Announcing n x name processId nodePrefix lifetime) :
    Progress t x y name processId := by
  have hdrawn : Drawn (n.node x) processId := by
    obtain ⟨b, hb, haccepts⟩ := ha
    exact ⟨b, hb, haccepts.processId⟩
  by_cases hres : ∃ d, e = .response x (.write (.object name nodePrefix lifetime processId)) d
  · obtain ⟨d, rfl⟩ := hres
    exact .creating (hn.announced_step hx hrouted hs h)
  · obtain hu | hres' := hs.underway.step h (hr.not_loseRequest rfl) (fun d => hr.not_loseResponse rfl)
      (hr.not_timeout rfl) (fun _ => rfl)
    · refine .announcing nodePrefix lifetime ⟨hu, ?_, ?_⟩
      · obtain ⟨process, hp, hnot⟩ := hs.notSent
        cases (node_of_step h x).2 with
        | same processes => exact ⟨process, by rw [processes, hp], hnot⟩
        | deleted id event processes =>
          obtain ⟨i, he, hasked⟩ := event
          exact absurd he (hr.not_timeout hasked)
        | kept id old new hm manifest manifestSent processes =>
          by_cases hid : processId = id
          · subst hid
            rw [hp] at hm
            cases hm
            exact ⟨new, by rw [processes, Function.update_self], by rw [manifestSent, hnot]⟩
          · exact ⟨process, by rw [processes, Function.update_of_ne hid, hp], hnot⟩
        | started new draws drawn manifest manifestSent processes =>
          have hid : processId ≠ (n.node x).random (n.node x).draws := by
            rintro rfl
            exact hr.not_drawn draws hx hdrawn
          exact ⟨process, by rw [processes, Function.update_of_ne hid, hp], hnot⟩
        | announced id old new event hm notSent processes =>
          obtain ⟨name', nodePrefix', lifetime', content, rfl⟩ := event
          by_cases hpend : (x, .write (.object name' nodePrefix' lifetime' id)) ∈ n.pending
          · by_cases hid : id = processId
            · subst hid
              have heq := hs.only _ hpend rfl
              cases heq
              exact absurd ⟨content, rfl⟩ hres
            · exact ⟨process, by rw [processes, Function.update_of_ne (Ne.symm hid), hp], hnot⟩
          · exact ⟨process, by rw [node_of_unawaited h hpend, hp], hnot⟩
      · exact fun b hb hid => hs.only b (only_step hr h hx hdrawn b hb hid) hid
    · exact absurd hres' hres

end CompletionInv

/-! ### Commands that are accepted -/

/-- An answer is old, or a find was answered just now and no command in the cluster has its id. -/
lemma answer_of_step (h : step (insertNetwork L sha1) n e = some t) {b : Answer L}
    (hb : b ∈ (t.node x).answers) : b ∈ (n.node x).answers ∨ ∃ repo hash findId lifetime d,
      let find := InsertInterest.write (.find repo hash findId lifetime b.interest b.parameter)
      e = .response x find d ∧ Adds n e x ((n.node x).onFindResponse d b.interest b.parameter) t ∧
        ((n.node x).write.onFindResponse (d ≠ .empty) b.parameter ((n.node x).random (n.node x).draws)
          ((n.node x).clock (n.node x).draws)).done = some b.response := by
  obtain hq | ⟨z, r, hreacts, -, hadds⟩ := step_cases h
  · rw [hq.node] at hb
    exact Or.inl hb
  · by_cases hx : x = z
    · subst hx
      rw [hadds.node, Function.update_self] at hb
      obtain hsame | ⟨repo, hash, findId, lifetime, k, parameter, d, rfl, rfl⟩ := answers_of_reacts hreacts
      · rw [hsame] at hb
        exact Or.inl hb
      · obtain hb | hb := List.mem_append.mp hb
        · exact Or.inl hb
        · obtain ⟨response, hdone, rfl⟩ := List.mem_map.mp hb
          exact Or.inr ⟨repo, hash, findId, lifetime, d, rfl, hadds, Option.mem_toList.mp hdone⟩
    · rw [hadds.node, Function.update_of_ne hx] at hb
      exact Or.inl hb

/-- The id in an answer that was given just now is new. -/
lemma new_id (hr : Reliable D n e) {repo hash : String} {findId : UInt64} {lifetime : ℕ} {b : Answer L}
    (he : e = .response x (.write (.find repo hash findId lifetime b.interest b.parameter)) d)
    (hdone : ((n.node x).write.onFindResponse (d ≠ .empty) b.parameter ((n.node x).random (n.node x).draws)
      ((n.node x).clock (n.node x).draws)).done = some b.response) (hid : b.response.processId = some processId) :
    processId = (n.node x).random (n.node x).draws ∧ ∀ z ∈ D.nodes, ¬ Drawn (n.node z) processId := by
  obtain ⟨hcode, htold⟩ | ⟨-, hnone⟩ := onFindResponse_told hdone
  · rw [hid, Option.some_inj] at htold
    obtain ⟨rfl, -⟩ := onFindResponse_told_id hdone hcode
    refine ⟨htold, fun z hz => ?_⟩
    rw [htold]
    exact hr.not_drawn (by rw [he]; rfl) hz
  · rw [hid] at hnone
    cases hnone

namespace CompletionInv

lemma unique_step (hn : CompletionInv D n) (hr : Reliable D n e) (h : step (insertNetwork L sha1) n e = some t)
    (hx : x ∈ D.nodes) (hz : z ∈ D.nodes) {a b : Answer L} (ha : a ∈ (t.node x).answers)
    (hb : b ∈ (t.node z).answers) (hida : a.response.processId = some processId)
    (hidb : b.response.processId = some processId) : x = z ∧ a = b := by
  obtain haold | ⟨repo, hash, findId, lifetime, d, he, -, hdone⟩ := answer_of_step h ha
  · obtain hbold | ⟨_, _, _, _, d', he', -, hdone'⟩ := answer_of_step h hb
    · exact hn.unique x hx z hz a haold b hbold processId hida hidb
    · exact absurd ⟨a, haold, hida⟩ ((new_id hr he' hdone' hidb).2 x hx)
  · obtain hbold | ⟨_, _, _, _, d', he', -, hdone'⟩ := answer_of_step h hb
    · exact absurd ⟨b, hbold, hidb⟩ ((new_id hr he hdone hida).2 z hz)
    · obtain ⟨interest, parameter, response⟩ := a
      obtain ⟨interest', parameter', response'⟩ := b
      rw [he] at he'
      cases he'
      rw [hdone] at hdone'
      cases hdone'
      exact ⟨rfl, rfl⟩

lemma told_step (hn : CompletionInv D n) (h : step (insertNetwork L sha1) n e = some t) (hx : x ∈ D.nodes)
    {b : Answer L} (hb : b ∈ (t.node x).answers) (hcode : b.response.code = 100) :
    ∃ processId, b.response.processId = some processId := by
  obtain hold | ⟨_, _, _, _, d, -, -, hdone⟩ := answer_of_step h hb
  · exact hn.told x hx b hold hcode
  · obtain ⟨-, hid⟩ | ⟨hcode', -⟩ := onFindResponse_told hdone
    · exact ⟨_, hid⟩
    · rw [hcode] at hcode'
      cases hcode'

lemma createdInv_step (hn : CompletionInv D n) (h : step (insertNetwork L sha1) n e = some t) (hy : y ∈ D.nodes)
    {k : UInt64} (hk : (t.node y).creates processId = some k) (hzero : k ≠ 0) :
    ∃ x ∈ D.nodes, ∃ name, InsertAccepted t x name processId ∧
      (t.node y).manifests.hasManifest (insertedKey sha1 name) := by
  have hold : ∀ k, (n.node y).creates processId = some k → k ≠ 0 → ∃ x ∈ D.nodes, ∃ name,
      InsertAccepted t x name processId ∧ (t.node y).manifests.hasManifest (insertedKey sha1 name) := by
    intro k hk hzero
    obtain ⟨x, hx, name, hname, hstored⟩ := hn.created y hy processId k hk hzero
    exact ⟨x, hx, name, accepted_step h hname, hasManifest_step h hstored⟩
  cases creates_step h y with
  | same creates =>
    rw [creates] at hk
    exact hold k hk hzero
  | deleted id event creates =>
    rw [creates] at hk
    by_cases hid : processId = id
    · rw [hid, Function.update_self] at hk
      cases hk
    · rw [Function.update_of_ne hid] at hk
      exact hold k hk hzero
  | created id creates =>
    rw [creates] at hk
    by_cases hid : processId = id
    · subst hid
      rw [Function.update_self, Option.some_inj] at hk
      cases hc : (n.node y).creates processId with
      | none =>
        rw [hc] at hk
        exact absurd hk.symm hzero
      | some j =>
        rw [hc] at hk
        exact hold j hc (by rw [show j = k from hk]; exact hzero)
    · rw [Function.update_of_ne hid] at hk
      exact hold k hk hzero
  | stored repo hash id json m from_json event creates manifests =>
    by_cases hid : processId = id
    · subst hid
      subst event
      by_cases hp : (y, .writeInfo repo hash processId) ∈ n.pending
      · obtain ⟨hm, -⟩ := adds_of_response h hp
        obtain ⟨hrepo, -⟩ := hn.placement.pending _ hp hy
        obtain ⟨told, heq, htold⟩ := hn.placement.responses _ hm
        cases heq
        obtain ⟨name, -, hname, rfl⟩ := htold hy
        rw [Deployment.fromJson_manifestOf] at from_json
        cases from_json
        refine ⟨repo, hrepo, name, accepted_step h hname, ?_⟩
        rw [manifests]
        exact ManifestStore.hasManifest_insertManifest.mpr (Or.inl rfl)
      · rw [node_of_unawaited h hp] at hk
        exact hold k hk hzero
    · rw [creates, Function.update_of_ne hid] at hk
      exact hold k hk hzero

/-- A single insert that is accepted asks for its object. -/
lemma accepted_announces (hn : CompletionInv D n) (hr : Reliable D n e)
    (h : step (insertNetwork L sha1) n e = some t) (hx : x ∈ D.nodes) (ha : InsertAccepted t x name processId) :
    InsertAccepted n x name processId ∨
      ∃ nodePrefix lifetime, Announcing t x name processId nodePrefix lifetime := by
  obtain ⟨b, hb, haccepts⟩ := ha
  obtain hold | ⟨repo, hash, findId, lifetime, d, he, hadds, hdone⟩ := answer_of_step h hb
  · exact Or.inl ⟨b, hold, haccepts⟩
  · right
    obtain ⟨rfl, hnew⟩ := new_id hr he hdone haccepts.processId
    obtain ⟨hsent, process', hprocesses, hkept⟩ := onFindResponse_single haccepts.single hdone haccepts.code
    rw [haccepts.name] at hsent
    have hfree : (n.node x).write.mProcesses ((n.node x).random (n.node x).draws) = none := by
      rw [Option.eq_none_iff_forall_ne_some]
      intro process hp
      exact hnew x hx ((hn.placement.placedNode hx).drawn _ process hp)
    refine ⟨b.parameter.nodePrefix, (n.node x).write.mInterestLifetime,
      hadds.underway (List.mem_map_of_mem hsent), ?_, ?_⟩
    · refine ⟨process', ?_, ?_⟩
      · rw [hadds.node, Function.update_self]
        exact (congrFun hprocesses _).trans (Function.update_self _ _ _)
      · rw [hkept, WriteHandle.process, hfree]
        rfl
    · intro a hpend hid
      obtain hold | ⟨c, hc, heq⟩ := hadds.mem_pending _ hpend
      · obtain ⟨name', nodePrefix', lifetime', rfl⟩ := objectOf_eq_some hid
        obtain ⟨-, b', hb', haccepts'⟩ := hn.placement.pending _ hold
        exact absurd ⟨b', hb', haccepts'.processId⟩ (hnew x hx)
      · obtain ⟨-, rfl⟩ := Prod.mk.inj heq
        obtain ⟨i, hi, rfl⟩ := List.mem_map.mp hc
        rw [(onFindResponse_object hi).1, haccepts.name]

theorem step (hrouted : ∀ name : L.Name, ∃ y ∈ D.nodes, D.storage (insertedKey sha1 name) = some y)
    (hn : CompletionInv D n) (hr : Reliable D n e) (h : step (insertNetwork L sha1) n e = some t) :
    CompletionInv D t where
  placement := hn.placement.step hr.1 h
  told _ hx _ ha hcode := hn.told_step h hx ha hcode
  unique _ hx _ hz _ ha _ hb _ hida hidb := hn.unique_step hr h hx hz ha hb hida hidb
  created _ hy _ _ hk hzero := hn.createdInv_step h hy hk hzero
  progress := by
    intro x hx name processId ha
    obtain hold | ⟨nodePrefix, lifetime, hs⟩ := hn.accepted_announces hr h hx ha
    · obtain ⟨y, hy, hstorage, hprogress⟩ := hn.progress x hx name processId hold
      refine ⟨y, hy, hstorage, ?_⟩
      cases hprogress with
      | announcing nodePrefix lifetime stage => exact hn.announcing_step hr h hx hold hstorage stage
      | creating stage => exact hn.creating_step hr h hx hy hold stage
      | fetching stage => exact hn.fetching_step hr h hx hy hold stage
      | stored stage => exact .stored (hasManifest_step h stage)
    · obtain ⟨y, hy, hstorage⟩ := hrouted name
      exact ⟨y, hy, hstorage, .announcing nodePrefix lifetime hs⟩

end CompletionInv

/-- Before the first command, with no process and no command in any node. -/
structure Deployment.Unused (D : Deployment L) (n : InsertNet L sha1) : Prop extends D.Fresh n where
  answers : ∀ x ∈ D.nodes, (n.node x).answers = []
  creates : ∀ x ∈ D.nodes, (n.node x).creates = fun _ => none

lemma Deployment.Unused.completionInv (hn : D.Unused n) : CompletionInv D n where
  placement := hn.toFresh.placementInv
  told x hx a ha := by
    rw [hn.answers x hx] at ha
    cases ha
  unique x hx z hz a ha := by
    rw [hn.answers x hx] at ha
    cases ha
  created y hy processId k hk := by
    rw [hn.creates y hy] at hk
    cases hk
  progress := by
    rintro x hx name processId ⟨a, ha, -⟩
    rw [hn.answers x hx] at ha
    cases ha

lemma Progress.of_still (hp : Progress n x y name processId) (hrequests : n.requests = [])
    (hresponses : n.responses = []) : (n.node y).manifests.hasManifest (insertedKey sha1 name) := by
  have hnone : ∀ z a, ¬ Underway n z a := by
    intro z a hu
    have hflight := hu.inFlight
    rw [hrequests, hresponses] at hflight
    simp at hflight
  cases hp with
  | announcing nodePrefix lifetime stage => exact absurd stage.underway (hnone _ _)
  | creating stage =>
    obtain ⟨clusterPrefix, lifetime, hreq⟩ := stage.request
    rw [hrequests] at hreq
    cases hreq
  | fetching stage => exact absurd stage.underway (hnone _ _)
  | stored stage => exact stage

lemma CompletionInv.stored (ht : CompletionInv D t) (hrequests : t.requests = []) (hresponses : t.responses = [])
    {a : Answer L} (hx : x ∈ D.nodes) (ha : a ∈ (t.node x).answers) (hcode : a.response.code = 100)
    (hsingle : a.parameter.Single) :
    ∃ y ∈ D.nodes, D.storage (insertedKey sha1 a.parameter.name) = some y ∧
      (t.node y).manifests.hasManifest (insertedKey sha1 a.parameter.name) := by
  obtain ⟨processId, hid⟩ := ht.told x hx a ha hcode
  obtain ⟨y, hy, hstorage, hp⟩ := ht.progress x hx a.parameter.name processId ⟨a, ha, hcode, hsingle, rfl, hid⟩
  exact ⟨y, hy, hstorage, hp.of_still hrequests hresponses⟩

lemma insertedName_singleton (c : L.Component) : insertedName [c] = L.uri [c] := by
  rw [insertedName, afterLastSlash_uri, L.ofUri_componentUri]

/-- A get that is sent to a node asks the node that the key is routed to, and a manifest that it finds
there was built by an accepted insert of that key. -/
lemma PlacementInv.found (ht : PlacementInv D t) {c : L.Component} (hz : z ∈ D.nodes) (hy : y ∈ D.nodes)
    (hstorage : D.storage (insertedKey sha1 [c]) = some y) :
    onGetInterest sha1 (t.node z).keySpace [c] = some ⟨y, "find", sha1 (L.uri [c])⟩ ∧
      ∀ json, ((t.node y).handleFindCommand (sha1 (L.uri [c]))).reply = some (.manifest json) →
        ∃ x ∈ D.nodes, ∃ name processId, InsertAccepted t x name processId ∧ insertedKey sha1 name = sha1 (L.uri [c]) ∧
          json = (D.manifestOf x name).toJson sha1 := by
  rw [insertedKey, insertedName_singleton] at hstorage
  constructor
  · unfold onGetInterest getText
    dsimp only
    rw [(ht.placedNode hz).settings.getManifestStorage, hstorage]
    rfl
  · intro json hreply
    rw [handleFindCommand_answers ht hy hstorage, Option.some_inj, Deployment.answer] at hreply
    cases hdirectory : D.directory t (sha1 (L.uri [c])) with
    | none =>
      rw [hdirectory] at hreply
      cases hreply
    | some found =>
      rw [hdirectory] at hreply
      cases hreply
      obtain ⟨w, hkept⟩ := (merged_eq_some_iff ht.placed).mp hdirectory
      obtain ⟨x, hx, name, processId, hname, hkey, hjson⟩ := ht.insertedUnder hkept
      exact ⟨x, hx, name, processId, hname, hkey.symm, hjson⟩

/-- A manifest that is stored is found. -/
lemma PlacementInv.answered (ht : PlacementInv D t) {c : L.Component} (hy : y ∈ D.nodes)
    (hstorage : D.storage (insertedKey sha1 [c]) = some y)
    (hstored : (t.node y).manifests.hasManifest (insertedKey sha1 [c])) :
    ∃ json, ((t.node y).handleFindCommand (sha1 (L.uri [c]))).reply = some (.manifest json) := by
  rw [insertedKey, insertedName_singleton] at hstorage hstored
  obtain ⟨json, hjson⟩ := Option.isSome_iff_exists.mp hstored
  have hdirectory : D.directory t (sha1 (L.uri [c])) = some json := by
    rw [Deployment.directory, merged_eq_some_iff ht.placed]
    exact ⟨y, (if_pos hy).trans hjson⟩
  refine ⟨json, ?_⟩
  rw [handleFindCommand_answers ht hy hstorage, Deployment.answer, hdirectory]

end Steps

end Difs
