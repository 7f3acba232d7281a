import Difs.Cluster.Order

/-!
# Coordination of joins

The manager remembers the pair of one join and sends its coordination command on the side of
answering a fetch. A join is coordinated if the manager answers a fetch before it takes the
next one.
-/

namespace Difs

open Exchange EventRun

variable {sha1 : String → String}

namespace Record

def joinedPair : Record → Option (String × String)
  | .joined fromName toName => some (fromName, toName)
  | _ => none

def fetchedPair : Record → Option (String × String)
  | .fetched fromName toName => some (fromName, toName)
  | _ => none

def coordinatedFrom : Record → Option String
  | .coordinated fromName => some fromName
  | _ => none

end Record

namespace Node

def joins (s : Node sha1) : List (String × String) := s.log.filterMap Record.joinedPair

/-- The pairs that were in `m_from` and `m_to` when a fetch was handled. -/
def fetchedPairs (s : Node sha1) : List (String × String) := s.log.filterMap Record.fetchedPair

/-- The From fields of the coordination commands the node has handled. -/
def coordinated (s : Node sha1) : List String := s.log.filterMap Record.coordinatedFrom

def pair (s : Node sha1) : String × String := (s.handle.mFrom, s.handle.mTo)

def Accepts (s : Node sha1) (fromName toName : String) : Prop :=
  publication s.handle (s.handle.handleAddCommand fromName toName) ≠ []

instance (s : Node sha1) (fromName toName : String) : Decidable (s.Accepts fromName toName) :=
  inferInstanceAs (Decidable (_ ≠ _))

end Node

/-! ### What the handlers do to the pair -/

section Handlers

variable {s s' : Node sha1} {i : Interest} {d : Content}

/-- The pair and the three records are left alone. -/
structure SameDuty (s s' : Node sha1) : Prop where
  joins : s'.joins = s.joins
  fetchedPairs : s'.fetchedPairs = s.fetchedPairs
  coordinated : s'.coordinated = s.coordinated
  pair : s'.pair = s.pair

lemma SameDuty.refl (s : Node sha1) : SameDuty s s := ⟨rfl, rfl, rfl, rfl⟩

lemma sameDuty_after {o : Outcome} {records : List Record} (hf : o.handle.mFrom = s.handle.mFrom)
    (ht : o.handle.mTo = s.handle.mTo) (hj : records.filterMap Record.joinedPair = [])
    (hp : records.filterMap Record.fetchedPair = []) (hc : records.filterMap Record.coordinatedFrom = []) :
    SameDuty s (s.after o records) where
  joins := by rw [Node.joins, Node.after, List.filterMap_append, hj, List.append_nil, Node.joins]
  fetchedPairs := by
    rw [Node.fetchedPairs, Node.after, List.filterMap_append, hp, List.append_nil, Node.fetchedPairs]
  coordinated := by
    rw [Node.coordinated, Node.after, List.filterMap_append, hc, List.append_nil, Node.coordinated]
  pair := by rw [Node.pair, Node.after, hf, ht, Node.pair]

lemma Inert.sameDuty (h : Inert s s') : SameDuty s s' where
  joins := by rw [Node.joins, h.log, Node.joins]
  fetchedPairs := by rw [Node.fetchedPairs, h.log, Node.fetchedPairs]
  coordinated := by rw [Node.coordinated, h.log, Node.coordinated]
  pair := by rw [Node.pair, h.handle, Node.pair]

theorem sameDuty_onData : SameDuty s (s.onData i d).node := by
  obtain h | ⟨p, version, file, rfl, rfl, h⟩ | ⟨_, _, rfl, rfl, h⟩ | ⟨_, hash, json, m, hm, rfl, rfl, h⟩ :=
    onData_changes (s := s) (i := i) (d := d)
  · exact h.sameDuty
  · obtain ⟨_, _, _, ho, -⟩ := s.handle.onFetchCommandResponse_some file version
    rw [h]
    exact sameDuty_after (by rw [ho]) (by rw [ho]) rfl rfl rfl
  · rw [h]
    exact sameDuty_after rfl rfl rfl rfl rfl
  · rw [h]
    refine ⟨?_, ?_, ?_, rfl⟩
    · simp [Node.joins, Record.joinedPair]
    · simp [Node.fetchedPairs, Record.fetchedPair]
    · simp [Node.coordinated, Record.coordinatedFrom]

structure Coordinates (s : Node sha1) (r : Reaction (Node sha1) Interest Content) : Prop where
  joins : r.node.joins = s.joins
  fetchedPairs : r.node.fetchedPairs = s.fetchedPairs ++ [s.pair]
  coordinated : r.node.coordinated = s.coordinated
  pair : r.node.pair = s.pair
  sent : r.sent = [.coordination s.pair.2 s.pair.1]

structure Coordinated (s s' : Node sha1) (fromName : String) : Prop where
  joins : s'.joins = s.joins
  fetchedPairs : s'.fetchedPairs = s.fetchedPairs
  coordinated : s'.coordinated = s.coordinated ++ [fromName]
  pair : s'.pair = (fromName, s.pair.2)

theorem onInterest_duty : SameDuty s (s.onInterest i).node ∨
    (∃ p version, i = .fetch p version ∧ Coordinates s (s.onInterest i)) ∨
      ∃ toName fromName, i = .coordination toName fromName ∧ Coordinated s (s.onInterest i).node fromName := by
  obtain h | ⟨p, version, rfl, h⟩ | ⟨toName, fromName, rfl, h⟩ | ⟨_, _, rfl, h⟩ := onInterest_changes (s := s) (i := i)
  · exact Or.inl h.sameDuty
  · refine Or.inr (Or.inl ⟨p, version, rfl, ?_, ?_, ?_, rfl, rfl⟩)
    · simp [h, Node.after, Node.joins, Record.joinedPair]
    · simp [h, Node.after, Node.fetchedPairs, Record.fetchedPair, Node.pair]
    · simp [h, Node.after, Node.coordinated, Record.coordinatedFrom]
  · refine Or.inr (Or.inr ⟨toName, fromName, rfl, ?_, ?_, ?_, rfl⟩)
    · simp [h, Node.after, Node.joins, Record.joinedPair]
    · simp [h, Node.after, Node.fetchedPairs, Record.fetchedPair]
    · simp [h, Node.after, Node.coordinated, Record.coordinatedFrom]
  · rw [h]
    exact Or.inl ⟨rfl, rfl, rfl, rfl⟩

/-- An accepted join is the manager's new pair; every node of the new file but the first gets
a notice of its version. -/
structure Joins (s : Node sha1) (fromName toName : String) (r : Reaction (Node sha1) Interest Content) : Prop where
  joins : r.node.joins = s.joins ++ [(fromName, toName)]
  fetchedPairs : r.node.fetchedPairs = s.fetchedPairs
  coordinated : r.node.coordinated = s.coordinated
  pair : r.node.pair = (fromName, toName)
  publishes : ∃ file, Publishes s r.node file
  sent : .ver toName r.node.handle.mVersion ∈ r.sent

theorem onCommand_joins {fromName toName : String} (h : s.Accepts fromName toName) :
    Joins s fromName toName (s.onCommand (.addNode fromName toName)) := by
  obtain ⟨ho, -⟩ | ⟨file, node, hne, hnode, ho⟩ := s.handle.handleAddCommand_cases fromName toName
  · exact absurd (publication_of_same (by rw [ho])) h
  · have hp : ∃ file, Publishes s (s.onCommand (.addNode fromName toName)).node file := by
      obtain ⟨hs, -⟩ | ⟨file, hp, -⟩ := onCommand_cases (s := s) (c := .addNode fromName toName)
      · refine absurd (publication_of_same ?_) h
        rw [← hs.file.num]
        rfl
      · exact ⟨file, hp⟩
    simp only [Node.onCommand, ho, publication_publish] at hp ⊢
    refine ⟨?_, ?_, ?_, rfl, hp, ?_⟩
    · simp [Node.after, Node.joins, Record.joinedPair, List.filterMap_cons]
    · simp [Node.after, Node.fetchedPairs, Record.fetchedPair, List.filterMap_cons]
    · simp [Node.after, Node.coordinated, Record.coordinatedFrom, List.filterMap_cons]
    · rw [KeySpaceHandle.onVersionCommand_publish]
      refine List.mem_map.mpr ⟨node, ?_, by rw [hnode]; rfl⟩
      rw [List.tail_append_of_ne_nil hne]
      exact List.mem_append_right _ (List.mem_singleton_self node)

end Handlers

/-! ### Runs without loss -/

/-- Nothing is lost, and the commands are add-node commands that the manager accepts. -/
def Lossless (managerName : String) (n : Cluster sha1) : ClusterEvent → Prop
  | .input x (.addNode fromName toName) => x = managerName ∧ (n.node managerName).Accepts fromName toName
  | .input _ (.delNode _ _ _) => False
  | .loseRequest _ _ => False
  | .loseResponse _ _ _ => False
  | _ => True

instance (managerName : String) (n : Cluster sha1) (e : ClusterEvent) : Decidable (Lossless managerName n e) := by
  unfold Lossless
  split <;> infer_instance

/-- The next join comes when a fetch has been handled for every earlier one of another pair. -/
def Settled (managerName : String) (n : Cluster sha1) : ClusterEvent → Prop
  | .input _ (.addNode fromName toName) => toName ≠ managerName ∧
      (versions managerName n).length < 2 ^ 64 ∧
      ∀ p ∈ (n.node managerName).joins, p ∈ (n.node managerName).fetchedPairs ∨ p = (fromName, toName)
  | _ => True

instance (managerName : String) (n : Cluster sha1) (e : ClusterEvent) : Decidable (Settled managerName n e) := by
  unfold Settled
  split <;> infer_instance

abbrev current (managerName : String) (n : Cluster sha1) : String := (n.node managerName).handle.mVersion

/-- What keeps the coordination of the last join going. -/
structure OwesFetch (managerName : String) (n : Cluster sha1) (y x : String) : Prop where
  other : y ≠ managerName
  notice : (x, Interest.ver y (current managerName n)) ∈ n.requests
  behind : (n.node y).handle.mVersion ≠ current managerName n

structure CoordinationInv (managerName : String) (n : Cluster sha1) : Prop where
  unwrapped : Unwrapped managerName n
  known : ∀ y, (n.node y).handle.mVersion = "" ∨ (n.node y).handle.mVersion ∈ versions managerName n
  idle : (n.node managerName).joins = [] → n.requests = [] ∧ n.pending = []
  away : (n.node managerName).joins ≠ [] → (n.node managerName).pair.2 ≠ managerName
  fromManager : Holds (fun _ _ => True)
    (fun x i => ∀ toName fromName, i = .coordination toName fromName → x = managerName ∧ toName ≠ managerName)
    (fun _ _ _ => True) n
  remembered : ∀ p ∈ (n.node managerName).joins,
    p ∈ (n.node managerName).fetchedPairs ∨ p = (n.node managerName).pair
  told : ∀ p ∈ (n.node managerName).fetchedPairs,
    (∃ x, (x, Interest.coordination p.2 p.1) ∈ n.requests) ∨ p.1 ∈ (n.node p.2).coordinated
  owed : (n.node managerName).joins ≠ [] → (n.node managerName).pair ∈ (n.node managerName).fetchedPairs ∨
    (∃ x version, (x, Interest.fetch managerName version) ∈ n.requests) ∨ ∃ y x, OwesFetch managerName n y x
  answered : ∀ x, ∀ q ∈ n.responses, ∀ version ∈ replyVersion x q, version = current managerName n →
    (n.node managerName).pair ∈ (n.node managerName).fetchedPairs

section Steps

variable {managerName : String} {n t : Cluster sha1} {e : ClusterEvent}

theorem duty_cases {x : String} {r : Reaction (Node sha1) Interest Content} (hr : Reacts (cluster sha1) n e x r) :
    SameDuty (n.node x) r.node ∨
      (∃ z version, e = .request z (.fetch x version) ∧ (z, .fetch x version) ∈ n.requests ∧
        Coordinates (n.node x) r) ∨
      (∃ z fromName, e = .request z (.coordination x fromName) ∧ (z, .coordination x fromName) ∈ n.requests ∧
        Coordinated (n.node x) r.node fromName) ∨
      ∃ c, e = .input x c ∧ r = (n.node x).onCommand c := by
  cases hr with
  | input x c => exact Or.inr (Or.inr (Or.inr ⟨c, rfl, rfl⟩))
  | @request z i h =>
    obtain hs | ⟨p, version, rfl, hc⟩ | ⟨toName, fromName, rfl, hc⟩ :=
      onInterest_duty (s := n.node ((cluster sha1).dest i)) (i := i)
    · exact Or.inl hs
    · exact Or.inr (Or.inl ⟨z, version, rfl, h, hc⟩)
    · exact Or.inr (Or.inr (Or.inl ⟨z, fromName, rfl, h, hc⟩))
  | response h hp => exact Or.inl sameDuty_onData
  | timeout h => exact Or.inl inert_onTimeout.sameDuty

theorem manager_duty (hn : CoordinationInv managerName n) (hl : Lossless managerName n e)
    (h : step (cluster sha1) n e = some t) :
    SameDuty (n.node managerName) (t.node managerName) ∨
      (∃ z version r, e = .request z (.fetch managerName version) ∧ t.node managerName = r.node ∧
        Adds n e managerName r t ∧ Coordinates (n.node managerName) r) ∨
      ∃ fromName toName r, e = .input managerName (.addNode fromName toName) ∧ t.node managerName = r.node ∧
        Adds n e managerName r t ∧ Joins (n.node managerName) fromName toName r := by
  obtain hq | ⟨x, r, hr, -, ha⟩ := step_cases h
  · rw [hq.node]
    exact Or.inl (SameDuty.refl _)
  · have hnode := node_of_adds ha managerName
    by_cases hx : managerName = x
    · subst hx
      rw [if_pos rfl] at hnode
      obtain hs | ⟨z, version, rfl, -, hc⟩ | ⟨z, fromName, rfl, hmem, -⟩ | ⟨c, rfl, rfl⟩ := duty_cases hr
      · exact Or.inl (by rw [hnode]; exact hs)
      · exact Or.inr (Or.inl ⟨z, version, r, rfl, hnode, ha, hc⟩)
      · exact absurd rfl (hn.fromManager.requests _ hmem managerName fromName rfl).2
      · cases c with
        | addNode fromName toName =>
          exact Or.inr (Or.inr ⟨fromName, toName, _, rfl, hnode, ha, onCommand_joins hl.2⟩)
        | delNode fromName toName unassigned => exact absurd hl id
    · rw [if_neg hx] at hnode
      rw [hnode]
      exact Or.inl (SameDuty.refl _)

lemma Lossless.toManager (hl : Lossless managerName n e) : ToManager managerName n e := by
  cases e with
  | input x c =>
    cases c with
    | addNode fromName toName => exact hl.1
    | delNode fromName toName unassigned => exact absurd hl id
  | _ => trivial

lemma Settled.countsOn (hl : Lossless managerName n e) (hs : Settled managerName n e) : CountsOn managerName n e := by
  intro hinput
  cases e with
  | input x c =>
    cases c with
    | addNode fromName toName => exact hs.2.1
    | delNode fromName toName unassigned => exact absurd hl id
  | _ => cases hinput

/-- In a run without loss a request leaves the network by being handled. -/
lemma Lossless.mem_requests (hl : Lossless managerName n e) (h : step (cluster sha1) n e = some t)
    {p : String × Interest} (hp : p ∈ n.requests) : p ∈ t.requests ∨ e = .request p.1 p.2 := by
  by_cases he : e = .request p.1 p.2
  · exact Or.inr he
  · refine Or.inl (mem_requests_of_step h hp he ?_)
    rintro rfl
    exact hl

lemma coordinated_mono (hl : Lossless managerName n e) (h : step (cluster sha1) n e = some t) (y : String) :
    (n.node y).coordinated ⊆ (t.node y).coordinated := by
  obtain hq | ⟨x, r, hr, -, ha⟩ := step_cases h
  · rw [hq.node]
    exact List.Subset.refl _
  · rw [node_of_adds ha y]
    by_cases hy : y = x
    · rw [if_pos hy]
      subst hy
      obtain hs | ⟨z, version, -, -, hc⟩ | ⟨z, fromName, -, -, hc⟩ | ⟨c, rfl, rfl⟩ := duty_cases hr
      · rw [hs.coordinated]
        exact List.Subset.refl _
      · rw [hc.coordinated]
        exact List.Subset.refl _
      · rw [hc.coordinated]
        exact List.subset_append_left _ _
      · cases c with
        | addNode fromName toName =>
          obtain ⟨rfl, hacc⟩ := hl
          rw [(onCommand_joins hacc).coordinated]
          exact List.Subset.refl _
        | delNode fromName toName unassigned => exact absurd hl id
    · rw [if_neg hy]
      exact List.Subset.refl _

lemma remembered_step (hn : CoordinationInv managerName n) (hl : Lossless managerName n e)
    (hs : Settled managerName n e) (h : step (cluster sha1) n e = some t) :
    ∀ p ∈ (t.node managerName).joins,
      p ∈ (t.node managerName).fetchedPairs ∨ p = (t.node managerName).pair := by
  intro p hp
  obtain hd | ⟨z, version, r, -, hnode, -, hc⟩ | ⟨fromName, toName, r, rfl, hnode, -, hj⟩ := manager_duty hn hl h
  · rw [hd.joins] at hp
    rw [hd.fetchedPairs, hd.pair]
    exact hn.remembered p hp
  · rw [hnode, hc.joins] at hp
    rw [hnode, hc.fetchedPairs, hc.pair]
    exact (hn.remembered p hp).imp_left (List.mem_append_left _)
  · rw [hnode, hj.joins, List.mem_append, List.mem_singleton] at hp
    rw [hnode, hj.fetchedPairs, hj.pair]
    obtain hp | rfl := hp
    · exact hs.2.2 p hp
    · exact Or.inr rfl

lemma told_step (hn : CoordinationInv managerName n) (hl : Lossless managerName n e)
    (h : step (cluster sha1) n e = some t) :
    ∀ p ∈ (t.node managerName).fetchedPairs,
      (∃ x, (x, Interest.coordination p.2 p.1) ∈ t.requests) ∨ p.1 ∈ (t.node p.2).coordinated := by
  -- a coordination command that leaves the network has been handled by its node
  have hold : ∀ p ∈ (n.node managerName).fetchedPairs,
      (∃ x, (x, Interest.coordination p.2 p.1) ∈ t.requests) ∨ p.1 ∈ (t.node p.2).coordinated := by
    intro p hp
    obtain ⟨x, hx⟩ | hc := hn.told p hp
    · obtain hx | rfl := hl.mem_requests h hx
      · exact Or.inl ⟨x, hx⟩
      · right
        have hr : Reacts (cluster sha1) n (.request x (.coordination p.2 p.1)) p.2 _ := Reacts.request hx
        obtain ⟨-, ha⟩ := hr.adds h
        rw [node_of_adds ha, if_pos rfl]
        simp [cluster, Node.onInterest, Node.after, Node.coordinated, Record.coordinatedFrom]
    · exact Or.inr (coordinated_mono hl h p.2 hc)
  intro p hp
  obtain hd | ⟨z, version, r, -, hnode, ha, hc⟩ | ⟨fromName, toName, r, rfl, hnode, -, hj⟩ := manager_duty hn hl h
  · rw [hd.fetchedPairs] at hp
    exact hold p hp
  · rw [hnode, hc.fetchedPairs, List.mem_append, List.mem_singleton] at hp
    obtain hp | rfl := hp
    · exact hold p hp
    · refine Or.inl ⟨managerName, ha.sent _ ?_⟩
      rw [hc.sent]
      exact List.mem_singleton_self _
  · rw [hnode, hj.fetchedPairs] at hp
    exact hold p hp

lemma fetch_handled {z version : String}
    (h : step (cluster sha1) n (.request z (.fetch managerName version)) = some t) :
    (t.node managerName).pair ∈ (t.node managerName).fetchedPairs := by
  have hm : (z, Interest.fetch managerName version) ∈ n.requests := by
    simp only [step, Option.ite_none_right_eq_some] at h
    exact h.1.1
  have hr : Reacts (cluster sha1) n (.request z (.fetch managerName version)) managerName _ := Reacts.request hm
  obtain ⟨-, ha⟩ := hr.adds h
  rw [node_of_adds ha, if_pos rfl]
  obtain ⟨_, hfetched, _, hpair, _⟩ : Coordinates (n.node managerName)
      ((n.node managerName).onInterest (.fetch managerName version)) := by
    obtain hs | ⟨_, _, _, hc⟩ | ⟨_, _, heq, _⟩ :=
      onInterest_duty (s := n.node managerName) (i := .fetch managerName version)
    · have := hs.fetchedPairs
      simp [Node.onInterest, Node.after, Node.fetchedPairs, Record.fetchedPair] at this
    · exact hc
    · cases heq
  change ((n.node managerName).onInterest _).node.pair ∈ ((n.node managerName).onInterest _).node.fetchedPairs
  rw [hfetched, hpair]
  exact List.mem_append_right _ (List.mem_singleton_self _)

lemma pair_fetched_step (hn : CoordinationInv managerName n) (hl : Lossless managerName n e)
    (h : step (cluster sha1) n e = some t) (hinput : e.isInput = false)
    (hp : (n.node managerName).pair ∈ (n.node managerName).fetchedPairs) :
    (t.node managerName).pair ∈ (t.node managerName).fetchedPairs := by
  obtain hd | ⟨z, version, r, rfl, hnode, -, hc⟩ | ⟨fromName, toName, r, rfl, hnode, -, hj⟩ := manager_duty hn hl h
  · rw [hd.fetchedPairs, hd.pair]
    exact hp
  · exact fetch_handled h
  · cases hinput

lemma current_of_no_input (hn : CoordinationInv managerName n) (h : step (cluster sha1) n e = some t)
    (hinput : e.isInput = false) : current managerName t = current managerName n := by
  obtain ⟨-, hcur⟩ | ⟨c, file, rfl, -⟩ := hn.unwrapped.manager_cases h
  · exact hcur
  · cases hinput

lemma input_joins (hl : Lossless managerName n e) (h : step (cluster sha1) n e = some t) (hinput : e.isInput = true) :
    ∃ fromName toName r, e = .input managerName (.addNode fromName toName) ∧ t.node managerName = r.node ∧
      Adds n e managerName r t ∧ Joins (n.node managerName) fromName toName r := by
  cases e with
  | input x c =>
    cases c with
    | addNode fromName toName =>
      obtain ⟨rfl, hacc⟩ := hl
      have hr : Reacts (cluster sha1) n (.input x (.addNode fromName toName)) x _ := Reacts.input _ _
      obtain ⟨-, ha⟩ := hr.adds h
      refine ⟨fromName, toName, _, rfl, ?_, ha, onCommand_joins hacc⟩
      rw [node_of_adds ha, if_pos rfl]
    | delNode fromName toName unassigned => exact absurd hl id
  | _ => cases hinput

lemma answered_step (hn : CoordinationInv managerName n) (hl : Lossless managerName n e)
    (hs : Settled managerName n e) (h : step (cluster sha1) n e = some t) :
    ∀ x, ∀ q ∈ t.responses, ∀ version ∈ replyVersion x q, version = current managerName t →
      (t.node managerName).pair ∈ (t.node managerName).fetchedPairs := by
  intro x q hq version hv hcur
  obtain hqn | ⟨⟨z, rfl⟩, -⟩ := reply_cases hn.unwrapped h hq hv
  · cases hinput : e.isInput with
    | true =>
      obtain ⟨fromName, toName, r, rfl, hnode, -, hj⟩ := input_joins hl h hinput
      obtain ⟨file, hpub⟩ := hj.publishes
      have hfresh := hn.unwrapped.fresh (hs.countsOn hl rfl) hpub
      rw [hcur, current, hnode] at hv
      exact absurd (reply_mem hn.unwrapped hqn hv) hfresh
    | false =>
      rw [current_of_no_input hn h hinput] at hcur
      exact pair_fetched_step hn hl h hinput (hn.answered x q hqn version hv hcur)
  · exact fetch_handled h

lemma known_step (hn : CoordinationInv managerName n) (hl : Lossless managerName n e)
    (h : step (cluster sha1) n e = some t) (y : String) :
    (t.node y).handle.mVersion = "" ∨ (t.node y).handle.mVersion ∈ versions managerName t := by
  have hmono : ∀ v ∈ versions managerName n, v ∈ versions managerName t := Unwrapped.versions_mono h
  obtain heq | ⟨p, version, file, hmem, heq⟩ | ⟨c, file, rfl, -⟩ := version_cases h y
  · rw [heq]
    exact (hn.known y).imp_right (hmono _)
  · rw [heq]
    exact Or.inr (hmono _ (hn.unwrapped.holds.responses _ hmem p version file rfl rfl).2)
  · obtain rfl : y = managerName := hl.toManager
    exact Or.inr (List.mem_of_getLast? (hn.unwrapped.last_of_step h))

lemma versionText_ne_empty (k : ℕ) : versionText k ≠ "" := by
  intro h
  have hlen := congrArg String.length h
  rw [versionText, String.length_append] at hlen
  simp at hlen

lemma owes_of_join (hn : CoordinationInv managerName n) (hl : Lossless managerName n e)
    (hs : Settled managerName n e) (h : step (cluster sha1) n e = some t) (hinput : e.isInput = true) :
    ∃ y x, OwesFetch managerName t y x := by
  obtain ⟨fromName, toName, r, rfl, hnode, ha, hj⟩ := input_joins hl h hinput
  obtain ⟨file, hpub⟩ := hj.publishes
  have hfresh := hn.unwrapped.fresh (hs.countsOn hl rfl) hpub
  refine ⟨toName, managerName, hs.1, ?_, ?_⟩
  · rw [current, hnode]
    exact ha.sent _ hj.sent
  · rw [current, hnode, node_of_adds ha, if_neg hs.1]
    obtain hempty | hmem := hn.known toName
    · rw [hempty, hpub.version]
      exact (versionText_ne_empty _).symm
    · exact fun heq => hfresh (heq ▸ hmem)

lemma fetch_of_notice (hn : CoordinationInv managerName n) {y x : String} (ho : OwesFetch managerName n y x)
    (h : step (cluster sha1) n (.request x (.ver y (current managerName n))) = some t) :
    (y, Interest.fetch managerName (current managerName n)) ∈ t.requests := by
  have hr : Reacts (cluster sha1) n (.request x (.ver y (current managerName n))) y _ := Reacts.request ho.notice
  obtain ⟨-, ha⟩ := hr.adds h
  apply ha.sent
  change _ ∈ ((n.node y).handle.handleVersionCommand (current managerName n)).sent
  unfold KeySpaceHandle.handleVersionCommand
  rw [if_pos (Ne.symm ho.behind)]
  have hprefix : (n.node y).handle.mManagerPrefix = managerName := hn.unwrapped.holds.node y
  rw [← hprefix]
  exact List.mem_singleton_self _

lemma owed_step (hn : CoordinationInv managerName n) (hl : Lossless managerName n e)
    (hs : Settled managerName n e) (h : step (cluster sha1) n e = some t)
    (hj : (t.node managerName).joins ≠ []) : (t.node managerName).pair ∈ (t.node managerName).fetchedPairs ∨
    (∃ x version, (x, Interest.fetch managerName version) ∈ t.requests) ∨ ∃ y x, OwesFetch managerName t y x := by
  cases hinput : e.isInput with
  | true => exact Or.inr (Or.inr (owes_of_join hn hl hs h hinput))
  | false =>
    have hjn : (n.node managerName).joins ≠ [] := by
      obtain hd | ⟨_, _, r, -, hnode, -, hc⟩ | ⟨_, _, r, rfl, _, -, _⟩ := manager_duty hn hl h
      · rwa [hd.joins] at hj
      · rwa [hnode, hc.joins] at hj
      · cases hinput
    have hcur := current_of_no_input hn h hinput
    obtain hp | ⟨x, version, hx⟩ | ⟨y, x, ho⟩ := hn.owed hjn
    · exact Or.inl (pair_fetched_step hn hl h hinput hp)
    · obtain hx | rfl := hl.mem_requests h hx
      · exact Or.inr (Or.inl ⟨x, version, hx⟩)
      · exact Or.inl (fetch_handled h)
    · obtain hx | rfl := hl.mem_requests h ho.notice
      · obtain heq | ⟨p, version, file, hmem, heq⟩ | ⟨c, file, rfl, -⟩ := version_cases h y
        · exact Or.inr (Or.inr ⟨y, x, ho.other, by rw [hcur]; exact hx, by rw [hcur, heq]; exact ho.behind⟩)
        · by_cases hv : version = current managerName n
          · have hrv : version ∈ replyVersion y (y, Interest.fetch p version, Content.keySpaces file) := by
              simp [replyVersion]
            exact Or.inl (pair_fetched_step hn hl h hinput (hn.answered y _ hmem version hrv hv))
          · exact Or.inr (Or.inr ⟨y, x, ho.other, by rw [hcur]; exact hx, by rw [hcur, heq]; exact hv⟩)
        · cases hinput
      · exact Or.inr (Or.inl ⟨y, _, fetch_of_notice hn ho h⟩)

lemma idle_step (hn : CoordinationInv managerName n) (hl : Lossless managerName n e)
    (h : step (cluster sha1) n e = some t) (hj : (t.node managerName).joins = []) :
    t.requests = [] ∧ t.pending = [] := by
  have hjn : (n.node managerName).joins = [] := by
    obtain hd | ⟨_, _, r, -, hnode, -, hc⟩ | ⟨_, _, r, -, hnode, -, hj'⟩ := manager_duty hn hl h
    · rwa [hd.joins] at hj
    · rwa [hnode, hc.joins] at hj
    · rw [hnode, hj'.joins] at hj
      simp at hj
  obtain ⟨hreq, hpend⟩ := hn.idle hjn
  obtain hq | ⟨x, r, hr, -, ha⟩ := step_cases h
  · refine ⟨List.eq_nil_iff_forall_not_mem.mpr fun p hp => ?_, hq.pending.trans hpend⟩
    simpa [hreq] using hq.requests p hp
  · cases hr with
    | input x c =>
      obtain ⟨_, _, r, -, hnode, -, hj'⟩ := input_joins hl h rfl
      rw [hnode, hj'.joins] at hj
      simp at hj
    | request hm => simp [hreq] at hm
    | response hm hp => simp [hpend] at hp
    | timeout hp => simp [hpend] at hp

lemma away_step (hn : CoordinationInv managerName n) (hl : Lossless managerName n e)
    (hs : Settled managerName n e) (h : step (cluster sha1) n e = some t)
    (hj : (t.node managerName).joins ≠ []) : (t.node managerName).pair.2 ≠ managerName := by
  obtain hd | ⟨_, _, r, -, hnode, -, hc⟩ | ⟨_, _, r, rfl, hnode, -, hj'⟩ := manager_duty hn hl h
  · rw [hd.joins] at hj
    rw [hd.pair]
    exact hn.away hj
  · rw [hnode, hc.joins] at hj
    rw [hnode, hc.pair]
    exact hn.away hj
  · rw [hnode, hj'.pair]
    exact hs.1

lemma fromManager_step (hn : CoordinationInv managerName n) (h : step (cluster sha1) n e = some t) :
    Holds (fun _ _ => True)
      (fun x i => ∀ toName fromName, i = .coordination toName fromName → x = managerName ∧ toName ≠ managerName)
      (fun _ _ _ => True) t := by
  refine hn.fromManager.of_step h ?_
  intro x r hr _
  refine ⟨trivial, ?_, fun _ _ _ _ _ => trivial⟩
  rintro i hi toName fromName rfl
  obtain ⟨rfl, -, hwhy⟩ := coordination_sent hr hi
  have hx : x = managerName := by
    obtain ⟨z, version, hz⟩ | ⟨to', from', hp⟩ := hwhy
    · exact (hn.unwrapped.holds.requests _ hz).1
    · exact (hn.fromManager.pending _ hp to' from' rfl).1
  subst hx
  refine ⟨rfl, hn.away ?_⟩
  intro hj
  obtain ⟨hreq, hpend⟩ := hn.idle hj
  obtain ⟨z, version, hz⟩ | ⟨to', from', hp⟩ := hwhy
  · simp [hreq] at hz
  · simp [hpend] at hp

theorem CoordinationInv.step (hn : CoordinationInv managerName n) (hl : Lossless managerName n e)
    (hs : Settled managerName n e) (h : Exchange.step (cluster sha1) n e = some t) : CoordinationInv managerName t where
  unwrapped := hn.unwrapped.step hl.toManager (hs.countsOn hl) h
  known := known_step hn hl h
  idle := idle_step hn hl h
  away := away_step hn hl hs h
  fromManager := fromManager_step hn h
  remembered := remembered_step hn hl hs h
  told := told_step hn hl h
  owed := owed_step hn hl hs h
  answered := answered_step hn hl hs h

end Steps

/-! ### Runs from the start -/

section Runs

variable {managerName : String} {settings : String → Setting sha1} {n : Cluster sha1} {es : List ClusterEvent}

lemma coordinationInv_start : CoordinationInv managerName (start managerName settings) := by
  have hlog : ∃ version file, ((start managerName settings).node managerName).log = [.published version file] := by
    obtain ⟨h, -, hnode⟩ := start_manager managerName settings
    rw [hnode]
    exact ⟨_, _, rfl⟩
  obtain ⟨version, file, hlog⟩ := hlog
  have hjoins : ((start managerName settings).node managerName).joins = [] := by rw [Node.joins, hlog]; rfl
  have hfetched : ((start managerName settings).node managerName).fetchedPairs = [] := by
    rw [Node.fetchedPairs, hlog]
    rfl
  refine ⟨unwrapped_start, ?_, fun _ => ⟨rfl, rfl⟩, fun hj => absurd hjoins hj, ?_, ?_, ?_,
    fun hj => absurd hjoins hj, ?_⟩
  · intro y
    by_cases hy : y = managerName
    · rw [hy]
      exact Or.inr unwrapped_start.current_mem
    · rw [start_other hy]
      exact Or.inl rfl
  · exact ⟨fun _ => trivial, by simp [start], by simp [start], by simp [start]⟩
  · rw [hjoins]
    simp
  · rw [hfetched]
    simp
  · simp [start]

/-- The requests on the way from a join to its coordination. -/
def Interest.leadsToCoordination : Interest → Bool
  | .ver _ _ | .fetch _ _ | .coordination _ _ => true
  | _ => false

/-- No version notice, fetch or coordination command is in flight. -/
def Quiescent (n : Cluster sha1) : Prop := ∀ p ∈ n.requests, p.2.leadsToCoordination = false

instance (n : Cluster sha1) : Decidable (Quiescent n) := inferInstanceAs (Decidable (∀ p ∈ n.requests, _))

/-- If each join has been answered for before the next one, every join is coordinated. -/
theorem joins_coordinated (hl : Meets (step (cluster sha1)) (Lossless managerName) (start managerName settings) es)
    (hs : Meets (step (cluster sha1)) (Settled managerName) (start managerName settings) es)
    (hrun : run (step (cluster sha1)) (start managerName settings) es = some n) (hq : Quiescent n) :
    ∀ p ∈ (n.node managerName).joins, p.1 ∈ (n.node p.2).coordinated := by
  have hn : CoordinationInv managerName n :=
    run_invariant (fun _ _ _ hn hc h => CoordinationInv.step hn hc.1 hc.2 h) coordinationInv_start (hl.and hs) hrun
  have hpair : (n.node managerName).joins ≠ [] → (n.node managerName).pair ∈ (n.node managerName).fetchedPairs := by
    intro hj
    obtain hp | ⟨x, version, hx⟩ | ⟨y, x, ho⟩ := hn.owed hj
    · exact hp
    · cases hq _ hx
    · cases hq _ ho.notice
  intro p hp
  have hfetched : p ∈ (n.node managerName).fetchedPairs := by
    obtain hf | rfl := hn.remembered p hp
    · exact hf
    · exact hpair (List.ne_nil_of_mem hp)
  obtain ⟨x, hx⟩ | hc := hn.told p hfetched
  · cases hq _ hx
  · exact hc

end Runs

/-- Every message of the join of `/a` up to its coordination is delivered. -/
def oneCoordinated : List ClusterEvent :=
  oneJoin ++ [.request "/m" (.coordination "/a" "/m"), .request "/a" (.manifestlist "/m")]

/-- `/b` joins when the fetch for the join of `/a` has been handled; both nodes fetch the new file. -/
def twoCoordinated : List ClusterEvent :=
  oneCoordinated ++ [.input "/m" (.addNode "/m" "/b"), .request "/m" (.ver "/a" "v2"), .request "/m" (.ver "/b" "v2"),
    .request "/a" (.fetch "/m" "v2"), .request "/b" (.fetch "/m" "v2"), .request "/m" (.coordination "/b" "/m"),
    .request "/m" (.coordination "/b" "/m")]

theorem two_joins_coordinated : ∃ n : Cluster id,
    run (step (cluster id)) (start "/m" exampleSettings) twoCoordinated = some n ∧
      (n.node "/m").joins = [("/m", "/a"), ("/m", "/b")] ∧
      ∀ p ∈ (n.node "/m").joins, p.1 ∈ (n.node p.2).coordinated := by
  have hl : Meets (step (cluster id)) (Lossless "/m") (start "/m" exampleSettings) twoCoordinated := by decide
  have hs : Meets (step (cluster id)) (Settled "/m") (start "/m" exampleSettings) twoCoordinated := by decide
  obtain ⟨n, hrun, hj, hq⟩ : ∃ n : Cluster id,
      run (step (cluster id)) (start "/m" exampleSettings) twoCoordinated = some n ∧
        (n.node "/m").joins = [("/m", "/a"), ("/m", "/b")] ∧ Quiescent n := ⟨_, rfl, by decide, by decide⟩
  exact ⟨n, hrun, hj, joins_coordinated hl hs hrun hq⟩

/-- The requests that follow when `/b` joins before any notice of the join of `/a` arrives. -/
def overwrittenRequests : List (String × Interest) :=
  [("/m", .ver "/a" "v1"), ("/m", .ver "/a" "v2"), ("/m", .ver "/b" "v2"), ("/a", .fetch "/m" "v1"),
    ("/a", .fetch "/m" "v2"), ("/b", .fetch "/m" "v2"), ("/m", .coordination "/b" "/m"),
    ("/m", .coordination "/b" "/m"), ("/m", .coordination "/b" "/m"), ("/b", .manifestlist "/m"),
    ("/b", .manifestlist "/m"), ("/b", .manifestlist "/m")]

def overwrittenResponses : List (String × Interest × Content) :=
  [("/m", .ver "/a" "v1", .status 200), ("/m", .ver "/a" "v2", .status 200), ("/m", .ver "/b" "v2", .status 200),
    ("/a", .fetch "/m" "v1", .empty), ("/a", .fetch "/m" "v2", .keySpaces secondFile),
    ("/b", .fetch "/m" "v2", .keySpaces secondFile), ("/m", .coordination "/b" "/m", .status 200),
    ("/m", .coordination "/b" "/m", .status 200), ("/m", .coordination "/b" "/m", .status 200),
    ("/b", .manifestlist "/m", .manifestList []), ("/b", .manifestlist "/m", .manifestList []),
    ("/b", .manifestlist "/m", .manifestList [])]

/-- The manager accepts both joins at once; every message is delivered. -/
def overwritten : List ClusterEvent :=
  [.input "/m" (.addNode "/m" "/a"), .input "/m" (.addNode "/m" "/b")] ++
    overwrittenRequests.map (fun p => .request p.1 p.2) ++
    overwrittenResponses.map (fun q => .response q.1 q.2.1 q.2.2) ++
    List.replicate 3 (.request "/b" (.complete "/m")) ++
    List.replicate 3 (.response "/b" (.complete "/m") (.status 200))

theorem overwritten_not_coordinated : ∃ n : Cluster id,
    run (step (cluster id)) (start "/m" exampleSettings) overwritten = some n ∧
      Meets (step (cluster id)) (Lossless "/m") (start "/m" exampleSettings) overwritten ∧
      n.requests = [] ∧ n.responses = [] ∧ ("/m", "/a") ∈ (n.node "/m").joins ∧ (n.node "/a").coordinated = [] :=
  ⟨_, rfl, by decide, by decide, by decide, by decide, by decide⟩

end Difs
