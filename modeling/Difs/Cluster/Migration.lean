import Difs.Cluster.Coordination

/-!
# Migration

The joining node copies the manifests of its range from the source with one find each and, on
the reply to its complete command, has the source delete them. The deletions do not wait for
the replies to the finds.
-/

namespace Difs

open Exchange EventRun

variable {sha1 : String → String}

def Record.foundHash : Record → Option String
  | .found hash => some hash
  | _ => none

def Node.found (s : Node sha1) : List String := s.log.filterMap Record.foundHash

/-! ### What the handlers do to the store -/

section Handlers

variable {s s' : Node sha1} {i : Interest} {d : Content}

structure SameStore (s s' : Node sha1) : Prop where
  manifests : s'.manifests = s.manifests
  found : s'.found = s.found

lemma SameStore.refl (s : Node sha1) : SameStore s s := ⟨rfl, rfl⟩

lemma sameStore_after {o : Outcome} {records : List Record} (h : records.filterMap Record.foundHash = []) :
    SameStore s (s.after o records) where
  manifests := rfl
  found := by rw [Node.found, Node.after, List.filterMap_append, h, List.append_nil, Node.found]

lemma Inert.sameStore (h : Inert s s') : SameStore s s' := ⟨h.manifests, by rw [Node.found, h.log, Node.found]⟩

/-- The only-delete command takes the manifest with the key out. -/
structure Erases (s s' : Node sha1) (hash : String) : Prop where
  manifests : ∀ key, s'.manifests.hasManifest key ↔ key ≠ hash ∧ s.manifests.hasManifest key
  found : s'.found = s.found

theorem onInterest_store : SameStore s (s.onInterest i).node ∨
    ∃ p hash, i = .onlyDeleteManifest p hash ∧ Erases s (s.onInterest i).node hash := by
  obtain h | ⟨p, version, rfl, h⟩ | ⟨toName, fromName, rfl, h⟩ | ⟨p, hash, rfl, h⟩ :=
    onInterest_changes (s := s) (i := i)
  · exact Or.inl h.sameStore
  · rw [h]
    exact Or.inl (sameStore_after rfl)
  · rw [h]
    exact Or.inl (sameStore_after rfl)
  · rw [h]
    exact Or.inr ⟨p, hash, rfl, fun key => ManifestStore.hasManifest_eraseManifest, rfl⟩

/-- The reply to a find is stored under the hash of the name it carries. -/
structure Stores (s s' : Node sha1) (hash : String) (json : ManifestJson) : Prop where
  manifests : ∀ key, s'.manifests.hasManifest key ↔ key = sha1 json.name ∨ s.manifests.hasManifest key
  found : s'.found = s.found ++ [hash]

theorem onData_store : SameStore s (s.onData i d).node ∨
    ∃ p hash json, i = .find p hash ∧ d = .manifest json ∧ Stores s (s.onData i d).node hash json := by
  obtain h | ⟨_, _, _, rfl, rfl, h⟩ | ⟨_, _, rfl, rfl, h⟩ | ⟨p, hash, json, m, hm, rfl, rfl, h⟩ :=
    onData_changes (s := s) (i := i) (d := d)
  · exact Or.inl h.sameStore
  · rw [h]
    exact Or.inl (sameStore_after rfl)
  · rw [h]
    exact Or.inl (sameStore_after rfl)
  · rw [h]
    refine Or.inr ⟨p, hash, json, rfl, rfl, ?_, ?_⟩
    · intro key
      rw [ManifestStore.hasManifest_insertManifest, Manifest.getHash_of_fromJson hm]
    · simp [Node.found, Record.foundHash]

lemma found_onCommand {fromName toName : String} :
    (s.onCommand (.addNode fromName toName)).node.found = s.found := by
  have hp : ∀ o, (Node.publication s.handle o).filterMap Record.foundHash = [] := by
    intro o
    unfold Node.publication
    split
    · split <;> rfl
    · rfl
  apply (sameStore_after ?_).found
  split
  · rfl
  · rw [List.filterMap_cons_none rfl]
    exact hp _

lemma pair_onCommand {fromName toName : String} :
    (s.onCommand (.addNode fromName toName)).node.pair = (fromName, toName) := by
  obtain ⟨ho, -⟩ | ⟨file, node, -, -, ho⟩ := s.handle.handleAddCommand_cases fromName toName
  · simp only [Node.onCommand, Node.pair, Node.after, ho]
  · simp only [Node.onCommand, Node.pair, Node.after, ho]
    rfl

lemma reply_find {p hash : String} {json : ManifestJson}
    (h : (s.onInterest (.find p hash)).reply = some (.manifest json)) : sha1 json.name = hash := by
  change (s.handleFindCommand hash).reply = _ at h
  unfold Node.handleFindCommand at h
  split at h
  · cases h
  · cases h
  · rename_i m hm
    simp only [Option.some_inj, Content.manifest.injEq] at h
    obtain ⟨-, hkey, -⟩ := ManifestStore.readManifest_ok hm
    rw [← h]
    exact hkey

end Handlers

/-! ### One migration -/

/-- The messages of the migration from `fromName`; `s` is the joining node. -/
def Migrates (managerName fromName toName : String) (s : Node sha1) (x : String) : Interest → Prop
  | .ver _ _ => True
  | .fetch p _ => p = managerName
  | .coordination y z => x = managerName ∧ y = toName ∧ z = fromName
  | .manifestlist p | .find p _ | .onlyDeleteManifest p _ => x = toName ∧ p = fromName ∧ s.handle.mFrom = fromName
  | .complete _ => x = toName ∧ s.handle.mFrom = fromName

/-- The messages that come before the first one to the source. -/
def Opens (managerName fromName toName x : String) : Interest → Prop
  | .ver _ _ => True
  | .fetch p _ => p = managerName
  | .coordination y z => x = managerName ∧ y = toName ∧ z = fromName
  | _ => False

/-- The manager has accepted the join of `toName`, which has sent nothing to the source. -/
structure Begins (managerName fromName toName : String) (m : Cluster sha1) : Prop where
  other : toName ≠ fromName
  managed : ∀ x, (m.node x).handle.mManagerPrefix = managerName
  pair : (m.node managerName).pair = (fromName, toName)
  found : (m.node toName).found = []
  requests : ∀ p ∈ m.requests, Opens managerName fromName toName p.1 p.2
  responses : ∀ q ∈ m.responses, Opens managerName fromName toName q.1 q.2.1
  pending : ∀ p ∈ m.pending, Opens managerName fromName toName p.1 p.2

def NoCommand (_ : Cluster sha1) (e : ClusterEvent) : Prop := e.isInput = false

/-- When the reply to the complete command is handled, every selected key was in the store at
the start or the reply to its find has been stored. -/
def Copied (m n : Cluster sha1) : ClusterEvent → Prop
  | .response x (.complete p) _ => (x, .complete p) ∈ n.pending →
      ∀ key ∈ (n.node x).handle.selectedKeys ((n.node x).handle.mManifestList.getD []),
        key ∈ (n.node x).found ∨ (m.node x).manifests.hasManifest key
  | _ => True

/-- A deletion is on its way only for a key that the joining node holds, and no manifest of
the source is lost. -/
structure KeepsManifests (fromName toName : String) (m n : Cluster sha1) : Prop where
  deletes : ∀ x p key, (x, .onlyDeleteManifest p key) ∈ n.requests ∨ (x, .onlyDeleteManifest p key) ∈ n.pending →
    (n.node toName).manifests.hasManifest key
  keeps : ∀ key, (m.node fromName).manifests.hasManifest key →
    (n.node fromName).manifests.hasManifest key ∨ (n.node toName).manifests.hasManifest key

/-- The joining node holds what it held at the start and what it has found. -/
def Party (managerName fromName toName : String) (m : Cluster sha1) (x : String) (s : Node sha1) : Prop :=
  s.handle.mManagerPrefix = managerName ∧ (x = managerName → s.pair = (fromName, toName)) ∧
    (x = toName → ∀ key, s.manifests.hasManifest key ↔ key ∈ s.found ∨ (m.node toName).manifests.hasManifest key)

/-- The reply to a find carries the manifest with the key asked for. -/
def FindsKey (sha1 : String → String) (i : Interest) (d : Content) : Prop :=
  ∀ p hash json, i = .find p hash → d = .manifest json → sha1 json.name = hash

structure MigrationInv (managerName fromName toName : String) (m n : Cluster sha1) : Prop where
  other : toName ≠ fromName
  holds : Holds (Party managerName fromName toName m) (Migrates managerName fromName toName (n.node toName))
    (fun _ => FindsKey sha1) n

section Steps

variable {managerName fromName toName x : String} {m n t : Cluster sha1} {e : ClusterEvent}
  {r : Reaction (Node sha1) Interest Content}

lemma Migrates.mono {s s' : Node sha1} {i : Interest} (h : Migrates managerName fromName toName s x i)
    (hs : s'.handle.mFrom = s.handle.mFrom ∨ s'.handle.mFrom = fromName) :
    Migrates managerName fromName toName s' x i := by
  cases i with
  | ver y version => trivial
  | fetch p version => exact h
  | coordination y z => exact h
  | manifestlist p => exact ⟨h.1, h.2.1, hs.elim (fun heq => heq.trans h.2.2) id⟩
  | find p hash => exact ⟨h.1, h.2.1, hs.elim (fun heq => heq.trans h.2.2) id⟩
  | complete p => exact ⟨h.1, hs.elim (fun heq => heq.trans h.2) id⟩
  | onlyDeleteManifest p hash => exact ⟨h.1, h.2.1, hs.elim (fun heq => heq.trans h.2.2) id⟩

lemma Opens.migrates {s : Node sha1} {i : Interest} (h : Opens managerName fromName toName x i) :
    Migrates managerName fromName toName s x i := by
  cases i with
  | ver y version => trivial
  | fetch p version => exact h
  | coordination y z => exact h
  | _ => exact absurd h id

theorem store_cases (hr : Reacts (cluster sha1) n e x r) (he : e.isInput = false) :
    SameStore (n.node x) r.node ∨
      (∃ z hash, e = .request z (.onlyDeleteManifest x hash) ∧ (z, .onlyDeleteManifest x hash) ∈ n.requests ∧
        Erases (n.node x) r.node hash) ∨
      ∃ p hash json, (x, .find p hash) ∈ n.pending ∧ (x, .find p hash, .manifest json) ∈ n.responses ∧
        Stores (n.node x) r.node hash json := by
  cases hr with
  | input x c => cases he
  | @request z i h =>
    obtain hs | ⟨p, hash, rfl, hs⟩ := onInterest_store (s := n.node ((cluster sha1).dest i)) (i := i)
    · exact Or.inl hs
    · exact Or.inr (Or.inl ⟨z, hash, rfl, h, hs⟩)
  | @response x i d h hp =>
    obtain hs | ⟨p, hash, json, rfl, rfl, hs⟩ := onData_store (s := n.node x) (i := i) (d := d)
    · exact Or.inl hs
    · exact Or.inr (Or.inr ⟨p, hash, json, hp, h, hs⟩)
  | timeout h => exact Or.inl inert_onTimeout.sameStore

lemma pair_of_reacts (hr : Reacts (cluster sha1) n e x r) (he : e.isInput = false) :
    r.node.pair = (n.node x).pair ∨
      ∃ z y, (z, .coordination x y) ∈ n.requests ∧ r.node.pair = (y, (n.node x).pair.2) := by
  obtain h | ⟨_, _, _, _, h⟩ | ⟨z, y, _, hmem, h⟩ | ⟨c, rfl, _⟩ := duty_cases hr
  · exact Or.inl h.pair
  · exact Or.inl h.pair
  · exact Or.inr ⟨z, y, hmem, h.pair⟩
  · cases he

namespace MigrationInv

lemma pair_node (hn : MigrationInv managerName fromName toName m n) (hr : Reacts (cluster sha1) n e x r)
    (he : e.isInput = false) : r.node.pair = (n.node x).pair ∨ x = toName ∧ r.node.handle.mFrom = fromName ∧
      r.node.handle.mTo = (n.node x).handle.mTo := by
  obtain h | ⟨z, y, hmem, h⟩ := pair_of_reacts hr he
  · exact Or.inl h
  · obtain ⟨-, hx, hy⟩ := hn.holds.requests _ hmem
    obtain ⟨hfrom, hto⟩ := Prod.ext_iff.mp h
    exact Or.inr ⟨hx, hfrom.trans hy, hto⟩

lemma mFrom_step (hn : MigrationInv managerName fromName toName m n) (he : e.isInput = false)
    (h : step (cluster sha1) n e = some t) : (t.node toName).handle.mFrom = (n.node toName).handle.mFrom ∨
      (t.node toName).handle.mFrom = fromName := by
  obtain hq | ⟨x, r, hr, -, ha⟩ := step_cases h
  · rw [hq.node]
    exact Or.inl rfl
  · rw [node_of_adds ha]
    by_cases hx : toName = x
    · subst hx
      rw [if_pos rfl]
      exact (hn.pair_node hr he).imp (fun h => (Prod.ext_iff.mp h).1) (fun h => h.2.1)
    · rw [if_neg hx]
      exact Or.inl rfl

lemma party (hn : MigrationInv managerName fromName toName m n) (hr : Reacts (cluster sha1) n e x r)
    (he : e.isInput = false) : Party managerName fromName toName m x r.node := by
  obtain ⟨hmanager, hpair, hstore⟩ := hn.holds.node x
  refine ⟨(manager_of_reacts hr).trans hmanager, ?_, ?_⟩
  · intro hx
    obtain h | ⟨-, hfrom, hto⟩ := hn.pair_node hr he
    · rw [h]
      exact hpair hx
    · exact Prod.ext hfrom (hto.trans (Prod.ext_iff.mp (hpair hx)).2)
  · intro hx key
    obtain h | ⟨z, hash, -, hmem, -⟩ | ⟨p, hash, json, -, hmem, h⟩ := store_cases hr he
    · rw [h.manifests, h.found]
      exact hstore hx key
    · exact absurd (hx.symm.trans (hn.holds.requests _ hmem).2.1) hn.other
    · rw [h.manifests key, h.found, hn.holds.responses _ hmem p hash json rfl rfl, List.mem_append,
        List.mem_singleton, hstore hx key]
      tauto

lemma sent (hn : MigrationInv managerName fromName toName m n) (hr : Reacts (cluster sha1) n e x r)
    (he : e.isInput = false) (h : step (cluster sha1) n e = some t) :
    ∀ b ∈ r.sent, Migrates managerName fromName toName (t.node toName) x b := by
  intro b hb
  obtain ⟨hmanager, hpair, -⟩ := hn.holds.node x
  have hmono : ∀ {y i}, Migrates managerName fromName toName (n.node toName) y i →
      Migrates managerName fromName toName (t.node toName) y i := fun hi => hi.mono (hn.mFrom_step he h)
  -- the joining node sends to `m_from` only after it has taken it from the coordination command
  have hdest : ∀ {y}, y = toName ∧ (n.node toName).handle.mFrom = fromName →
      y = toName ∧ (n.node y).handle.mFrom = fromName ∧ (n.node toName).handle.mFrom = fromName := by
    rintro y ⟨rfl, hy⟩
    exact ⟨rfl, hy, hy⟩
  cases hr with
  | input x c => cases he
  | @request z i hm =>
    have hi := hn.holds.requests _ hm
    obtain ⟨y, version, rfl, -, rfl⟩ | ⟨p, version, rfl, rfl⟩ | ⟨y, w, rfl, rfl⟩ := sent_onInterest hb
    · exact hmanager
    · obtain ⟨hfrom, hto⟩ := Prod.ext_iff.mp (hpair hi)
      exact ⟨hi, hto, hfrom⟩
    · obtain ⟨-, rfl, rfl⟩ := hi
      obtain ⟨-, ha⟩ := (Reacts.request hm).adds h
      refine ⟨rfl, rfl, ?_⟩
      rw [node_of_adds ha]
      exact congrArg (fun s : Node sha1 => s.handle.mFrom) (if_pos rfl)
  | @response x i d hm hp =>
    have hi := hn.holds.pending _ hp
    obtain ⟨p, keys, rfl, -, rfl | ⟨key, -, rfl⟩⟩ | ⟨p, keys, rfl, -, key, -, rfl⟩ := sent_onData hb
    · exact hmono ⟨hi.1, hi.2.2⟩
    · obtain ⟨hx, hfrom, hfrom'⟩ := hdest ⟨hi.1, hi.2.2⟩
      exact hmono ⟨hx, hfrom, hfrom'⟩
    · obtain ⟨hx, hfrom, hfrom'⟩ := hdest hi
      exact hmono ⟨hx, hfrom, hfrom'⟩
  | @timeout x i hp =>
    have hi := hn.holds.pending _ hp
    obtain ⟨_, _, y, rfl, rfl⟩ | ⟨p, version, rfl, rfl⟩ | ⟨y, w, rfl, rfl⟩ | ⟨p, rfl, rfl⟩ := sent_onTimeout hb
    · trivial
    · exact hmanager
    · obtain ⟨hfrom, hto⟩ := Prod.ext_iff.mp (hpair hi.1)
      exact ⟨hi.1, hto, hfrom⟩
    · obtain ⟨hx, hfrom, hfrom'⟩ := hdest ⟨hi.1, hi.2.2⟩
      exact hmono ⟨hx, hfrom, hfrom'⟩

theorem step (hn : MigrationInv managerName fromName toName m n) (hc : NoCommand n e)
    (h : Exchange.step (cluster sha1) n e = some t) : MigrationInv managerName fromName toName m t := by
  refine ⟨hn.other, ?_⟩
  obtain hq | ⟨x, r, hr, -, ha⟩ := step_cases h
  · rw [hq.node]
    exact hn.holds.of_quiet hq
  · refine hn.holds.of_adds ha (fun _ _ hy => hy) ?_ (fun _ _ _ hd => hd) (hn.party hr hc) (hn.sent hr hc h) ?_
    · intro y a hy
      exact hy.mono (hn.mFrom_step hc h)
    · rintro y a d rfl hd p hash json rfl rfl
      cases hr with
      | request hm => exact reply_find (p := p) hd

end MigrationInv

/-! ### Deletions and copies -/

lemma MigrationInv.joining_mono (hn : MigrationInv managerName fromName toName m n) (hc : NoCommand n e)
    (h : Exchange.step (cluster sha1) n e = some t) {key : String} (hk : (n.node toName).manifests.hasManifest key) :
    (t.node toName).manifests.hasManifest key := by
  obtain hq | ⟨x, r, hr, -, ha⟩ := step_cases h
  · rw [hq.node]
    exact hk
  · rw [node_of_adds ha]
    by_cases hx : toName = x
    · subst hx
      rw [if_pos rfl]
      obtain hs | ⟨z, hash, -, hmem, -⟩ | ⟨p, hash, json, -, -, hs⟩ := store_cases hr hc
      · rw [hs.manifests]
        exact hk
      · exact absurd (hn.holds.requests _ hmem).2.1 hn.other
      · exact (hs.manifests key).mpr (Or.inr hk)
    · rw [if_neg hx]
      exact hk

lemma source_step (hc : NoCommand n e) (h : step (cluster sha1) n e = some t) {key : String}
    (hk : (n.node fromName).manifests.hasManifest key) : (t.node fromName).manifests.hasManifest key ∨
      ∃ z, (z, .onlyDeleteManifest fromName key) ∈ n.requests := by
  obtain hq | ⟨x, r, hr, -, ha⟩ := step_cases h
  · rw [hq.node]
    exact Or.inl hk
  · rw [node_of_adds ha]
    by_cases hx : fromName = x
    · subst hx
      rw [if_pos rfl]
      obtain hs | ⟨z, hash, -, hmem, hs⟩ | ⟨p, hash, json, -, -, hs⟩ := store_cases hr hc
      · rw [hs.manifests]
        exact Or.inl hk
      · by_cases hkey : key = hash
        · exact Or.inr ⟨z, hkey ▸ hmem⟩
        · exact Or.inl ((hs.manifests key).mpr ⟨hkey, hk⟩)
      · exact Or.inl ((hs.manifests key).mpr (Or.inr hk))
    · rw [if_neg hx]
      exact Or.inl hk

lemma delete_sent {p key : String} (hr : Reacts (cluster sha1) n e x r) (hb : .onlyDeleteManifest p key ∈ r.sent) :
    ∃ q d, e = .response x (.complete q) d ∧ (x, .complete q) ∈ n.pending ∧
      key ∈ (n.node x).handle.selectedKeys ((n.node x).handle.mManifestList.getD []) := by
  cases hr with
  | input x c =>
    obtain ⟨_, _, _, heq⟩ := sent_onCommand hb
    cases heq
  | request h =>
    obtain ⟨_, _, _, _, heq⟩ | ⟨_, _, _, heq⟩ | ⟨_, _, _, heq⟩ := sent_onInterest hb <;> cases heq
  | @response x i d h hp =>
    obtain ⟨_, _, _, _, heq | ⟨_, _, heq⟩⟩ | ⟨q, keys, rfl, hkeys, k, hk, heq⟩ := sent_onData hb <;> cases heq
    exact ⟨q, d, rfl, hp, by rw [hkeys]; exact hk⟩
  | timeout h =>
    obtain ⟨_, _, _, _, heq⟩ | ⟨_, _, _, heq⟩ | ⟨_, _, _, heq⟩ | ⟨_, _, heq⟩ := sent_onTimeout hb <;> cases heq

theorem KeepsManifests.step (hk : KeepsManifests fromName toName m n)
    (hn : MigrationInv managerName fromName toName m n)
    (hc : NoCommand n e) (hcopied : Copied m n e) (h : Exchange.step (cluster sha1) n e = some t) :
    KeepsManifests fromName toName m t where
  deletes := by
    intro x p key hkey
    apply hn.joining_mono hc h
    by_cases hold : (x, .onlyDeleteManifest p key) ∈ n.requests ∨ (x, .onlyDeleteManifest p key) ∈ n.pending
    · exact hk.deletes x p key hold
    · obtain ⟨hreq, hpend⟩ := not_or.mp hold
      obtain hq | ⟨y, r, hr, -, ha⟩ := step_cases h
      · exact absurd (hkey.imp (hq.requests _) (fun hp => hq.pending ▸ hp)) hold
      · have hsent : ∃ b ∈ r.sent, (x, .onlyDeleteManifest p key) = (y, b) :=
          hkey.elim (fun hkey => (ha.requests _ hkey).resolve_left hreq)
            (fun hkey => (ha.mem_pending _ hkey).resolve_left hpend)
        obtain ⟨b, hb, heq⟩ := hsent
        obtain ⟨rfl, rfl⟩ := Prod.ext_iff.mp heq
        obtain ⟨q, d, rfl, hp, hselected⟩ := delete_sent hr hb
        obtain ⟨rfl, -⟩ := hn.holds.pending _ hp
        exact ((hn.holds.node x).2.2 rfl key).mpr (hcopied hp key hselected)
  keeps := by
    intro key hkey
    obtain hsource | hjoining := hk.keeps key hkey
    · obtain hsource | ⟨z, hz⟩ := source_step hc h hsource
      · exact Or.inl hsource
      · exact Or.inr (hn.joining_mono hc h (hk.deletes z fromName key (Or.inl hz)))
    · exact Or.inr (hn.joining_mono hc h hjoining)

lemma complete_deletes {s : Node sha1} {p key : String} {d : Content}
    (hkey : key ∈ s.handle.selectedKeys (s.handle.mManifestList.getD [])) :
    SameStore s (s.onData (.complete p) d).node ∧
      .onlyDeleteManifest s.handle.mFrom key ∈ (s.onData (.complete p) d).sent := by
  constructor
  · obtain h | ⟨_, _, _, heq, _⟩ := onData_store (s := s) (i := .complete p) (d := d)
    · exact h
    · cases heq
  · have hs : (s.onData (.complete p) d).sent = s.handle.onCompleteCommandResponse.sent := by cases d <;> rfl
    rw [hs]
    unfold KeySpaceHandle.onCompleteCommandResponse
    cases hl : s.handle.mManifestList with
    | none =>
      rw [hl] at hkey
      exact absurd hkey List.not_mem_nil
    | some keys =>
      rw [hl] at hkey
      exact List.mem_map_of_mem hkey

/-- A step after which the deletions in flight are of held keys meets the condition. -/
lemma copied_of_keepsManifests (hn : MigrationInv managerName fromName toName m n)
    (h : step (cluster sha1) n e = some t) (ht : KeepsManifests fromName toName m t) : Copied m n e := by
  unfold Copied
  split
  · rename_i x p d
    intro hp key hkey
    obtain ⟨rfl, -⟩ := hn.holds.pending _ hp
    have hm : (x, .complete p, d) ∈ n.responses := by
      simp only [step, Option.ite_none_right_eq_some] at h
      exact h.1.1
    obtain ⟨-, ha⟩ := (Reacts.response hm hp).adds h
    obtain ⟨hstore, hsent⟩ := complete_deletes (p := p) (d := d) hkey
    have hheld := ht.deletes x _ key (Or.inl (ha.sent _ hsent))
    rw [node_of_adds ha, if_pos rfl] at hheld
    apply ((hn.holds.node x).2.2 rfl key).mp
    rw [← hstore.manifests]
    exact hheld
  · trivial

end Steps

/-! ### Runs -/

section Runs

variable {managerName fromName toName : String} {m n : Cluster sha1} {es : List ClusterEvent}

lemma migrationInv_start (hb : Begins managerName fromName toName m) :
    MigrationInv managerName fromName toName m m := by
  refine ⟨hb.other, ?_, fun p hp => (hb.requests p hp).migrates, ?_, fun p hp => (hb.pending p hp).migrates⟩
  · intro x
    refine ⟨hb.managed x, fun hx => hx ▸ hb.pair, ?_⟩
    intro hx key
    subst hx
    rw [hb.found]
    simp
  · intro q hq p hash json hi
    have hopens := hb.responses q hq
    rw [hi] at hopens
    exact absurd hopens id

lemma keepsManifests_start (hb : Begins managerName fromName toName m) : KeepsManifests fromName toName m m where
  deletes := by
    intro x p key hkey
    exact absurd (hkey.elim (hb.requests _) (hb.pending _)) id
  keeps := fun key hkey => Or.inl hkey

lemma keepsManifests_run (hb : Begins managerName fromName toName m)
    (hc : Meets (step (cluster sha1)) NoCommand m es) (hcopied : Meets (step (cluster sha1)) (Copied m) m es)
    (hrun : run (step (cluster sha1)) m es = some n) : KeepsManifests fromName toName m n :=
  (run_invariant (I := fun n => MigrationInv managerName fromName toName m n ∧ KeepsManifests fromName toName m n)
    (fun _ _ _ hn hc h => ⟨hn.1.step hc.1 h, hn.2.step hn.1 hc.1 hc.2 h⟩)
    ⟨migrationInv_start hb, keepsManifests_start hb⟩ (hc.and hcopied) hrun).2

/-- A join that the manager handles while nothing is in flight begins a migration. -/
theorem begins_of_join {n : Cluster sha1} (hother : toName ≠ fromName)
    (hmanaged : ∀ x, (n.node x).handle.mManagerPrefix = managerName) (hfound : (n.node toName).found = [])
    (hidle : n.requests = [] ∧ n.responses = [] ∧ n.pending = [])
    (h : step (cluster sha1) n (.input managerName (.addNode fromName toName)) = some m) :
    Begins managerName fromName toName m := by
  have hr : Reacts (cluster sha1) n (.input managerName (.addNode fromName toName)) managerName _ := Reacts.input _ _
  obtain ⟨-, ha⟩ := hr.adds h
  obtain ⟨hreq, hresp, hpend⟩ := hidle
  have hver : ∀ b ∈ ((n.node managerName).onCommand (.addNode fromName toName)).sent,
      Opens managerName fromName toName managerName b := by
    intro b hb
    obtain ⟨y, file, -, rfl⟩ := sent_onCommand hb
    trivial
  refine ⟨hother, ?_, ?_, ?_, ?_, ?_, ?_⟩
  · intro x
    rw [node_of_adds ha]
    by_cases hx : x = managerName
    · rw [if_pos hx, manager_of_reacts hr]
      exact hmanaged managerName
    · rw [if_neg hx]
      exact hmanaged x
  · rw [node_of_adds ha, if_pos rfl]
    exact pair_onCommand
  · rw [node_of_adds ha]
    by_cases hx : toName = managerName
    · rw [if_pos hx]
      rw [hx] at hfound
      exact found_onCommand.trans hfound
    · rw [if_neg hx]
      exact hfound
  · intro p hp
    obtain hp | ⟨b, hb, rfl⟩ := ha.requests p hp
    · simp [hreq] at hp
    · exact hver b hb
  · intro q hq
    obtain hq | ⟨y, i, d, he, -, -⟩ := ha.responses q hq
    · simp [hresp] at hq
    · cases he
  · intro p hp
    obtain hp | ⟨b, hb, rfl⟩ := ha.mem_pending p hp
    · simp [hpend] at hp
    · exact hver b hb

/-- A migration loses no manifest exactly when every complete reply comes after the replies to
the finds. -/
theorem keeps_manifests_iff (hb : Begins managerName fromName toName m)
    (hc : Meets (step (cluster sha1)) NoCommand m es) (hrun : run (step (cluster sha1)) m es = some n) :
    (∀ ds t, ds <+: es → run (step (cluster sha1)) m ds = some t → KeepsManifests fromName toName m t) ↔
      Meets (step (cluster sha1)) (Copied m) m es := by
  constructor
  · intro hkeeps
    rw [meets_iff]
    intro ds e us u heq hu
    subst heq
    have hpre : ds <+: ds ++ e :: us := List.prefix_append _ _
    have hn := run_invariant (I := MigrationInv managerName fromName toName m)
      (fun _ _ _ hn hc h => hn.step hc h) (migrationInv_start hb) (hc.of_isPrefix hpre) hu
    obtain ⟨u', hu', hrest⟩ := run_append_eq_some.mp hrun
    rw [hu, Option.some_inj] at hu'
    subst hu'
    obtain ⟨v, hv, -⟩ := run_cons_eq_some.mp hrest
    have hsnoc : ds ++ [e] <+: ds ++ e :: us := ⟨us, by simp⟩
    exact copied_of_keepsManifests hn hv (hkeeps _ v hsnoc (run_snoc_eq_some.mpr ⟨u, hu, hv⟩))
  · intro hcopied ds t hpre ht
    exact keepsManifests_run hb (hc.of_isPrefix hpre) (hcopied.of_isPrefix hpre) ht

end Runs

instance (m n : Cluster sha1) (e : ClusterEvent) : Decidable (Copied m n e) := by
  unfold Copied
  split <;> infer_instance

instance (n : Cluster sha1) (e : ClusterEvent) : Decidable (NoCommand n e) :=
  inferInstanceAs (Decidable (_ = _))

def filmDigest (name : String) : String :=
  if name = "/film" then "f1146b13f1fcbc375bd9c9ddf55e362c62e59b02" else ""

def filmStore : ManifestStore filmDigest :=
  ManifestStore.empty.insertManifest
    { mName := "/film", mRepos := [⟨"/m", 0, 2⟩], mStartBlockId := 0, mEndBlockId := 2 } rfl

def filmSettings : String → Setting filmDigest := fun x => ⟨"", (0, 0), if x = "/m" then filmStore else .empty⟩

def filmJoin : Cluster filmDigest :=
  (step (cluster filmDigest) (start "/m" filmSettings) (.input "/m" (.addNode "/m" "/a"))).getD
    (start "/m" filmSettings)

lemma filmJoin_begins : Begins "/m" "/m" "/a" filmJoin := by
  apply begins_of_join (n := start "/m" filmSettings) (by decide) ?_ rfl ⟨rfl, rfl, rfl⟩ rfl
  intro x
  exact unwrapped_start.holds.node x

abbrev filmKey : String := "f1146b13f1fcbc375bd9c9ddf55e362c62e59b02"

/-- Up to the manifest list, after which a find and the complete command are under way. -/
def filmListed : List ClusterEvent :=
  [.request "/m" (.ver "/a" "v1"), .request "/a" (.fetch "/m" "v1"),
    .response "/a" (.fetch "/m" "v1") (.keySpaces firstFile), .request "/m" (.coordination "/a" "/m"),
    .request "/a" (.manifestlist "/m"), .response "/a" (.manifestlist "/m") (.manifestList [filmKey])]

def filmCompleted : List ClusterEvent :=
  [.request "/a" (.complete "/m"), .response "/a" (.complete "/m") (.status 200),
    .request "/a" (.onlyDeleteManifest "/m" filmKey)]

def filmCopied : List ClusterEvent :=
  filmListed ++ [.request "/a" (.find "/m" filmKey),
    .response "/a" (.find "/m" filmKey) (.manifest ⟨"/film", filmKey, 0, 2, some [⟨"/m", 0, 2⟩], none⟩)] ++
    filmCompleted

theorem film_kept : ∃ n : Cluster filmDigest, run (step (cluster filmDigest)) filmJoin filmCopied = some n ∧
    (n.node "/m").manifests.hasManifest filmKey = false ∧ (n.node "/a").manifests.hasManifest filmKey = true ∧
      ∀ ds t, ds <+: filmCopied → run (step (cluster filmDigest)) filmJoin ds = some t →
        KeepsManifests "/m" "/a" filmJoin t := by
  have hc : Meets (step (cluster filmDigest)) NoCommand filmJoin filmCopied := by decide
  have hcopied : Meets (step (cluster filmDigest)) (Copied filmJoin) filmJoin filmCopied := by decide
  obtain ⟨n, hrun, hm, ha⟩ : ∃ n : Cluster filmDigest,
      run (step (cluster filmDigest)) filmJoin filmCopied = some n ∧
        (n.node "/m").manifests.hasManifest filmKey = false ∧ (n.node "/a").manifests.hasManifest filmKey = true :=
    ⟨_, rfl, by decide, by decide⟩
  exact ⟨n, hrun, hm, ha, (keeps_manifests_iff filmJoin_begins hc hrun).mpr hcopied⟩

def filmLost : List ClusterEvent :=
  filmListed ++ [.loseRequest "/a" (.find "/m" filmKey), .timeout "/a" (.find "/m" filmKey)] ++ filmCompleted

theorem film_lost : Begins "/m" "/m" "/a" filmJoin ∧
    ∃ n : Cluster filmDigest, run (step (cluster filmDigest)) filmJoin filmLost = some n ∧
      Meets (step (cluster filmDigest)) NoCommand filmJoin filmLost ∧
      (filmJoin.node "/m").manifests.hasManifest filmKey = true ∧
      (n.node "/m").manifests.hasManifest filmKey = false ∧ (n.node "/a").manifests.hasManifest filmKey = false :=
  ⟨filmJoin_begins, _, rfl, by decide, by decide, by decide, by decide⟩

end Difs
