import Difs.Cluster.Coordination

/-!
# Ranges and migrations

Only the reply to a fetch assigns the range of a node, and nothing that starts a migration looks
whether it did. A coordination command may come first, and the manager sends one to itself when a
node leaves to it, though it never fetches. Where every coordination command finds the range of
its node assigned, every manifest list does too.
-/

namespace Difs

open Exchange EventRun

variable {sha1 : String → String}

/-- Node `x` goes through a manifest list: the one that arrives, or the stored one at the end of
the migration. -/
def ProcessesList (n : Cluster sha1) (e : ClusterEvent) (x : String) : Prop :=
  (∃ p keys, e = .response x (.manifestlist p) (.manifestList keys) ∧ (x, .manifestlist p) ∈ n.pending) ∨
    ∃ p d, e = .response x (.complete p) d ∧ (x, .complete p) ∈ n.pending

/-- A coordination command is handled by a node whose range is assigned. -/
def CoordinatesAssigned (n : Cluster sha1) : ClusterEvent → Prop
  | .request _ (.coordination toName _) => (n.node toName).handle.rangeAssigned = true
  | _ => True

instance (n : Cluster sha1) : DecidablePred (CoordinatesAssigned n) := by
  intro e
  unfold CoordinatesAssigned
  split <;> infer_instance

/-! ### The only assignment -/

section Steps

variable {n t : Cluster sha1} {e : ClusterEvent} {x : String} {r : Reaction (Node sha1) Interest Content}
  {s : Node sha1} {i : Interest} {d : Content} {c : Command}

namespace KeySpaceHandle

variable (h : KeySpaceHandle)

lemma rangeAssigned_assignRange (node : KeySpaceNode) (ha : h.rangeAssigned = true) :
    (h.assignRange node).handle.rangeAssigned = true := by
  unfold assignRange
  split
  · exact ha
  · split
    · exact ha
    · rfl

lemma rangeAssigned_onFetchCommandResponse (version : String) (content : Option KeySpaceFile)
    (ha : h.rangeAssigned = true) : (h.onFetchCommandResponse version content).handle.rangeAssigned = true := by
  unfold onFetchCommandResponse
  split
  · exact ha
  · dsimp only
    split
    · exact ha
    · exact rangeAssigned_assignRange _ _ ha

lemma rangeAssigned_handleAddCommand (fromName toName : String) :
    (h.handleAddCommand fromName toName).handle.rangeAssigned = h.rangeAssigned := by
  obtain ⟨ho, -⟩ | ⟨file, node, -, -, ho⟩ := h.handleAddCommand_cases fromName toName
  · rw [ho]
  · rw [ho]
    rfl

lemma rangeAssigned_handleDeleteCommand (fromName toName : String) (unassigned : ℤ × ℤ) :
    (h.handleDeleteCommand fromName toName unassigned).handle.rangeAssigned = h.rangeAssigned := by
  obtain ⟨ho, -⟩ | ⟨file, ho⟩ := h.handleDeleteCommand_cases fromName toName unassigned
  · rw [ho]
  · rw [ho]
    rfl

end KeySpaceHandle

lemma rangeAssigned_onCommand : (s.onCommand c).node.handle.rangeAssigned = s.handle.rangeAssigned := by
  cases c with
  | addNode fromName toName => exact s.handle.rangeAssigned_handleAddCommand fromName toName
  | delNode fromName toName unassigned => exact s.handle.rangeAssigned_handleDeleteCommand fromName toName unassigned

lemma rangeAssigned_onInterest : (s.onInterest i).node.handle.rangeAssigned = s.handle.rangeAssigned := by
  obtain h | ⟨_, _, rfl, h⟩ | ⟨_, _, rfl, h⟩ | ⟨_, _, rfl, h⟩ := onInterest_changes (s := s) (i := i)
  · rw [h.handle]
  · rw [h]
    rfl
  · rw [h]
    rfl
  · rw [h]

/-- A range is assigned by the reply to a fetch and stays so. -/
lemma rangeAssigned_onData : (s.onData i d).node.handle.rangeAssigned = s.handle.rangeAssigned ∨
    ∃ p version file, i = .fetch p version ∧ d = .keySpaces file ∧
      (s.handle.rangeAssigned = true → (s.onData i d).node.handle.rangeAssigned = true) := by
  obtain h | ⟨p, version, file, rfl, rfl, h⟩ | ⟨_, _, rfl, rfl, h⟩ | ⟨_, hash, json, m, hm, rfl, rfl, h⟩ :=
    onData_changes (s := s) (i := i) (d := d)
  · exact Or.inl (by rw [h.handle])
  · refine Or.inr ⟨p, version, file, rfl, rfl, ?_⟩
    intro ha
    rw [h]
    exact s.handle.rangeAssigned_onFetchCommandResponse version (some file) ha
  · rw [h]
    exact Or.inl rfl
  · rw [h]
    exact Or.inl rfl

theorem rangeAssigned_cases (hr : Reacts (cluster sha1) n e x r) :
    r.node.handle.rangeAssigned = (n.node x).handle.rangeAssigned ∨
      ∃ p version file, e = .response x (.fetch p version) (.keySpaces file) ∧
        ((n.node x).handle.rangeAssigned = true → r.node.handle.rangeAssigned = true) := by
  cases hr with
  | input x c => exact Or.inl rangeAssigned_onCommand
  | request h => exact Or.inl rangeAssigned_onInterest
  | @response x i d h hp =>
    obtain h | ⟨p, version, file, rfl, rfl, h⟩ := rangeAssigned_onData (s := n.node x) (i := i) (d := d)
    · exact Or.inl h
    · exact Or.inr ⟨p, version, file, rfl, h⟩
  | @timeout x i h => exact Or.inl (congrArg KeySpaceHandle.rangeAssigned (inert_onTimeout (i := i)).handle)

lemma rangeAssigned_step (h : step (cluster sha1) n e = some t) (y : String) :
    (t.node y).handle.rangeAssigned = (n.node y).handle.rangeAssigned ∨
      ∃ p version file, e = .response y (.fetch p version) (.keySpaces file) ∧
        ((n.node y).handle.rangeAssigned = true → (t.node y).handle.rangeAssigned = true) := by
  obtain hq | ⟨x, r, hr, -, ha⟩ := step_cases h
  · exact Or.inl (by rw [hq.node])
  · rw [node_of_adds ha y]
    by_cases hy : y = x
    · subst hy
      rw [if_pos rfl]
      exact rangeAssigned_cases hr
    · rw [if_neg hy]
      exact Or.inl rfl

lemma rangeAssigned_mono (h : step (cluster sha1) n e = some t) {y : String}
    (ha : (n.node y).handle.rangeAssigned = true) : (t.node y).handle.rangeAssigned = true := by
  obtain heq | ⟨_, _, _, -, hmono⟩ := rangeAssigned_step h y
  · rw [heq, ha]
  · exact hmono ha

/-! ### Why a node migrates -/

/-- A manifest list is asked for on a coordination command, or again after a timeout. -/
theorem manifestlist_sent {p : String} (hr : Reacts (cluster sha1) n e x r) (hb : .manifestlist p ∈ r.sent) :
    (∃ y fromName, e = .request y (.coordination x fromName)) ∨ ∃ p', (x, .manifestlist p') ∈ n.pending := by
  cases hr with
  | input x c =>
    obtain ⟨_, _, _, heq⟩ := sent_onCommand hb
    cases heq
  | @request z i h =>
    obtain ⟨_, _, _, _, heq⟩ | ⟨_, _, _, heq⟩ | ⟨toName, fromName, rfl, heq⟩ := sent_onInterest hb <;> cases heq
    exact Or.inl ⟨z, _, rfl⟩
  | response h hp =>
    obtain ⟨_, _, _, _, heq | ⟨_, _, heq⟩⟩ | ⟨_, _, _, _, _, _, heq⟩ := sent_onData hb <;> cases heq
  | timeout h =>
    obtain ⟨_, _, _, _, heq⟩ | ⟨_, _, _, heq⟩ | ⟨_, _, _, heq⟩ | ⟨p', rfl, heq⟩ := sent_onTimeout hb <;> cases heq
    exact Or.inr ⟨p', h⟩

/-- The end of a migration follows on a manifest list. -/
theorem complete_sent {p : String} (hr : Reacts (cluster sha1) n e x r) (hb : .complete p ∈ r.sent) :
    ∃ p', (x, .manifestlist p') ∈ n.pending := by
  cases hr with
  | input x c =>
    obtain ⟨_, _, _, heq⟩ := sent_onCommand hb
    cases heq
  | request h =>
    obtain ⟨_, _, _, _, heq⟩ | ⟨_, _, _, heq⟩ | ⟨_, _, _, heq⟩ := sent_onInterest hb <;> cases heq
  | response h hp =>
    obtain ⟨p', _, rfl, _, heq | ⟨_, _, heq⟩⟩ | ⟨_, _, _, _, _, _, heq⟩ := sent_onData hb <;> cases heq
    exact ⟨p', hp⟩
  | timeout h =>
    obtain ⟨_, _, _, _, heq⟩ | ⟨_, _, _, heq⟩ | ⟨_, _, _, heq⟩ | ⟨_, _, heq⟩ := sent_onTimeout hb <;> cases heq

def Interest.migrates : Interest → Bool
  | .manifestlist _ | .complete _ => true
  | _ => false

/-- Who awaits a manifest list or the end of a migration has its range assigned. -/
def MigratesAssigned (n : Cluster sha1) : Prop :=
  ∀ p ∈ n.pending, p.2.migrates = true → (n.node p.1).handle.rangeAssigned = true

theorem migratesAssigned_step (hn : MigratesAssigned n) (hc : CoordinatesAssigned n e)
    (h : step (cluster sha1) n e = some t) : MigratesAssigned t := by
  intro p hp hmigrates
  apply rangeAssigned_mono h
  obtain hq | ⟨x, r, hr, -, ha⟩ := step_cases h
  · exact hn p (hq.pending ▸ hp) hmigrates
  · obtain hp | ⟨b, hb, rfl⟩ := ha.mem_pending p hp
    · exact hn p hp hmigrates
    · cases b with
      | manifestlist q =>
        obtain ⟨y, fromName, rfl⟩ | ⟨p', hp'⟩ := manifestlist_sent hr hb
        · exact hc
        · exact hn (x, .manifestlist p') hp' rfl
      | complete q =>
        obtain ⟨p', hp'⟩ := complete_sent hr hb
        exact hn (x, .manifestlist p') hp' rfl
      | _ => cases hmigrates

end Steps

/-! ### Runs -/

section Runs

variable {managerName x : String} {settings : String → Setting sha1} {n : Cluster sha1} {e : ClusterEvent}
  {es : List ClusterEvent}

lemma rangeAssigned_start (x : String) : ((start managerName settings).node x).handle.rangeAssigned = false := by
  change (KeySpaceHandle.create _ _ _ _ _).rangeAssigned = false
  unfold KeySpaceHandle.create
  dsimp only
  split_ifs <;> rfl

/-- A range that is assigned was so by a reply to a fetch. -/
theorem assigned_by_reply (hrun : run (step (cluster sha1)) (start managerName settings) es = some n) (x : String)
    (ha : (n.node x).handle.rangeAssigned = true) :
    ∃ p version file, .response x (.fetch p version) (.keySpaces file) ∈ es := by
  induction es using List.reverseRecOn generalizing n with
  | nil =>
    cases hrun
    rw [rangeAssigned_start] at ha
    cases ha
  | append_singleton ds e ih =>
    obtain ⟨m, hm, he⟩ := run_snoc_eq_some.mp hrun
    obtain heq | ⟨p, version, file, rfl, -⟩ := rangeAssigned_step he x
    · obtain ⟨p, version, file, hmem⟩ := ih hm (heq ▸ ha)
      exact ⟨p, version, file, List.mem_append_left _ hmem⟩
    · exact ⟨p, version, file, List.mem_append_right _ (List.mem_singleton_self _)⟩

theorem lists_processed_with_range
    (hc : Meets (step (cluster sha1)) CoordinatesAssigned (start managerName settings) es)
    (hrun : run (step (cluster sha1)) (start managerName settings) es = some n) (hlist : ProcessesList n e x) :
    (n.node x).handle.rangeAssigned = true ∧
      ∃ p version file, .response x (.fetch p version) (.keySpaces file) ∈ es := by
  have hstart : MigratesAssigned (start managerName settings) := fun p hp _ => absurd hp List.not_mem_nil
  have hn : MigratesAssigned n := run_invariant (fun _ _ _ hn hc h => migratesAssigned_step hn hc h) hstart hc hrun
  have ha : (n.node x).handle.rangeAssigned = true := by
    obtain ⟨p, keys, -, hp⟩ | ⟨p, d, -, hp⟩ := hlist
    · exact hn _ hp rfl
    · exact hn _ hp rfl
  exact ⟨ha, assigned_by_reply hrun x ha⟩

end Runs

/-- The manifest list of the manager arrives at the node that joined. -/
theorem lists_processed_after_join : ∃ n : Cluster id,
    run (step (cluster id)) (start "/m" exampleSettings) oneCoordinated = some n ∧
      ProcessesList n (.response "/a" (.manifestlist "/m") (.manifestList [])) "/a" ∧
      (n.node "/a").handle.rangeAssigned = true ∧
      ∃ p version file, .response "/a" (.fetch p version) (.keySpaces file) ∈ oneCoordinated := by
  have hc : Meets (step (cluster id)) CoordinatesAssigned (start "/m" exampleSettings) oneCoordinated := by decide
  obtain ⟨n, hrun, hp⟩ : ∃ n : Cluster id,
      run (step (cluster id)) (start "/m" exampleSettings) oneCoordinated = some n ∧
        ("/a", .manifestlist "/m") ∈ n.pending := ⟨_, rfl, by decide⟩
  have hlist : ProcessesList n (.response "/a" (.manifestlist "/m") (.manifestList [])) "/a" :=
    Or.inl ⟨"/m", [], rfl, hp⟩
  exact ⟨n, hrun, hlist, lists_processed_with_range hc hrun hlist⟩

/-- Of two joiners the first leaves to the manager. The fetch of the second makes the manager
coordinate itself, and its request for the manifest list of `/a` is answered. -/
def leftToManager : List ClusterEvent :=
  [.input "/m" (.addNode "/m" "/a"), .input "/m" (.addNode "/m" "/b"), .input "/m" (.delNode "/a" "/m" (0, 0)),
    .request "/m" (.ver "/b" "v3"), .request "/b" (.fetch "/m" "v3"), .request "/m" (.coordination "/m" "/a"),
    .request "/m" (.manifestlist "/a")]

theorem manager_processes_unset : ∃ n : Cluster id,
    run (step (cluster id)) (start "/m" exampleSettings) leftToManager = some n ∧
      (step (cluster id) n (.response "/m" (.manifestlist "/a") (.manifestList []))).isSome ∧
      ProcessesList n (.response "/m" (.manifestlist "/a") (.manifestList [])) "/m" ∧
      (n.node "/m").handle.rangeAssigned = false :=
  ⟨_, rfl, by decide, Or.inl ⟨"/a", [], rfl, by decide⟩, by decide⟩

end Difs
