import Difs.KeySpace.Notices
import Difs.Lib.Threads

/-!
# Retries of version notices

The manager with its version Interests pending. Each ends with its Data, or with a timeout or a
nack, which sends the current version to all listed nodes behind the first and not only to the
one that did not answer. Data that answers several Interests ends them one after the other.
-/

namespace Difs

open EventRun Threads

/-- A command that was applied outputs the version it published. -/
def versionHandlers : Handlers KeySpaceHandle MembershipCommand Interest Unit String where
  onCommand h _ cmd :=
    let o := cmd.outcome h
    if o.threw then none
    else
      some { node := o.handle
             output := if o.handle.mVersionNum = h.mVersionNum then [] else [o.handle.mVersion]
             calls := o.sent }
  onEnd h _
    | some _ => some { node := h }
    | none =>
      let o := h.onVersionCommandTimeout
      if o.threw then none else some { node := o.handle, calls := o.sent }

abbrev VersionSystem := System KeySpaceHandle MembershipCommand Interest Unit String

abbrev VersionEvent := Event MembershipCommand Interest Unit

abbrev VersionRecord := LogRecord Interest Unit String

def Interest.versionNode : Interest → Option String
  | .ver nodeName _ => some nodeName
  | _ => none

namespace VersionSystem

def initial (h : KeySpaceHandle) : VersionSystem := { node := h.initKeySpaceFile }

/-- The number of version Interests pending for a node. -/
def pendingFor (s : VersionSystem) (nodeName : String) : ℕ :=
  s.pending.countP (fun call => call.2.versionNode = some nodeName)

/-- The number of membership changes accepted so far. -/
def changes (s : VersionSystem) : ℕ := (s.log.filterMap (fun record => record.2.output?)).length

def Bounded (s : VersionSystem) : Prop := ∀ nodeName, s.pendingFor nodeName ≤ s.changes

/-- A command lists no node twice behind the first entry, and an Interest times out only while its node is
the only one that is listed there. -/
def RetriesAlone (s : VersionSystem) : VersionEvent → Prop
  | .command cmd => Accepted s.node cmd → (cmd.listed s.node.nodeNames).tail.Nodup
  | .ends _ i none => s.node.nodeNames.tail = [] ∨ s.node.nodeNames.tail = i.versionNode.toList
  | .ends _ _ (some _) => True

instance (s : VersionSystem) : DecidablePred s.RetriesAlone
  | .command _ => inferInstanceAs (Decidable (_ → _))
  | .ends _ _ none => inferInstanceAs (Decidable (_ ∨ _))
  | .ends _ _ (some _) => inferInstanceAs (Decidable True)

variable {s t : VersionSystem} {e : VersionEvent} {h : KeySpaceHandle} {nodeName : String}

lemma countP_onVersionCommand (h : KeySpaceHandle) (nodeName : String) :
    h.onVersionCommand.sent.countP (fun i => i.versionNode = some nodeName) = h.nodeNames.tail.count nodeName := by
  unfold KeySpaceHandle.onVersionCommand KeySpaceHandle.nodeNames
  cases h.mKeySpaceFile with
  | none => rfl
  | some file =>
    dsimp only
    rw [List.countP_map, Option.getD_some, ← List.map_tail, List.count, List.countP_map]
    apply List.countP_congr
    intro it _
    simp [Interest.versionNode]

lemma pendingFor_absorb (a : ℕ) (ended : List VersionRecord)
    (r : Reaction KeySpaceHandle Interest String) : pendingFor (s.absorb a ended r) nodeName =
      s.pendingFor nodeName + r.calls.countP (fun i => i.versionNode = some nodeName) := by
  unfold pendingFor System.absorb
  rw [List.countP_append, List.countP_map]
  rfl

lemma outputs_records (r : Reaction KeySpaceHandle Interest String) :
    (r.records : List VersionRecord).filterMap LogRecord.output? = r.output := by
  have hcalls : (r.calls.map (.call : Interest → VersionRecord)).filterMap LogRecord.output? = [] := by
    rw [List.filterMap_map, List.filterMap_eq_nil_iff]
    exact fun _ _ => rfl
  unfold Reaction.records
  rw [List.filterMap_append, hcalls, List.append_nil, List.filterMap_map]
  exact List.filterMap_some

lemma changes_absorb (a : ℕ) (ended : List VersionRecord)
    (r : Reaction KeySpaceHandle Interest String) (hended : ended.filterMap LogRecord.output? = []) :
    changes (s.absorb a ended r) = s.changes + r.output.length := by
  have houtputs : ((ended ++ r.records).map (fun record : VersionRecord => (a, record))).filterMap
      (fun record : ℕ × VersionRecord => record.2.output?) = r.output := by
    rw [List.filterMap_map]
    change (ended ++ r.records).filterMap LogRecord.output? = r.output
    rw [List.filterMap_append, hended, outputs_records, List.nil_append]
  unfold changes System.absorb
  rw [List.filterMap_append, List.length_append, houtputs]

/-! ### One event -/

/-- What a command does to both numbers. -/
lemma command_step {cmd : MembershipCommand} (ht : step versionHandlers s (.command cmd) = some t) :
    ∃ u, memberStep s.node cmd = some u ∧ t.node = u ∧
      (∀ nodeName, t.pendingFor nodeName = s.pendingFor nodeName +
        (cmd.outcome s.node).sent.countP (fun i => i.versionNode = some nodeName)) ∧
      t.changes = s.changes + if u.mVersionNum = s.node.mVersionNum then 0 else 1 := by
  obtain ⟨r, hr, rfl⟩ := Option.map_eq_some_iff.mp ht
  simp only [versionHandlers, Option.ite_none_left_eq_some, Bool.not_eq_true, Option.some_inj] at hr
  obtain ⟨hthrew, rfl⟩ := hr
  refine ⟨_, memberStep_eq_some_iff.mpr ⟨hthrew, rfl⟩, rfl, fun nodeName => pendingFor_absorb _ _ _, ?_⟩
  rw [changes_absorb _ _ _ rfl]
  dsimp only
  split_ifs <;> rfl

lemma pendingFor_erase {a : ℕ} {i : Interest} (hm : (a, i) ∈ s.pending) (nodeName : String) :
    pendingFor { s with pending := s.pending.erase (a, i) } nodeName +
        (if i.versionNode = some nodeName then 1 else 0) =
      s.pendingFor nodeName := by
  have hcount := (List.perm_cons_erase hm).countP_eq (fun call => call.2.versionNode = some nodeName)
  unfold pendingFor
  rw [hcount, List.countP_cons]
  simp only [decide_eq_true_eq]

lemma reply_step {a : ℕ} {i : Interest} (ht : step versionHandlers s (.ends a i (some ())) = some t) :
    (∀ nodeName, t.pendingFor nodeName ≤ s.pendingFor nodeName) ∧ t.changes = s.changes := by
  obtain ⟨b, hsteps⟩ := step_eq_some_iff.mp ht
  cases hsteps with
  | ends hm hr =>
    cases hr
    have hm' := mem_ofNumber.mp hm
    constructor
    · intro nodeName
      have herase := pendingFor_erase hm' nodeName
      rw [pendingFor_absorb]
      change pendingFor { s with pending := s.pending.erase (a, i) } nodeName + 0 ≤ _
      omega
    · exact changes_absorb _ _ _ rfl

/-- A timeout takes one Interest away and sends to all behind the first entry. -/
lemma timeout_step {a : ℕ} {i : Interest} (ht : step versionHandlers s (.ends a i none) = some t) :
    (∀ nodeName, t.pendingFor nodeName + (if i.versionNode = some nodeName then 1 else 0) =
      s.pendingFor nodeName + s.node.nodeNames.tail.count nodeName) ∧ t.changes = s.changes := by
  obtain ⟨b, hsteps⟩ := step_eq_some_iff.mp ht
  cases hsteps with
  | ends hm hr =>
    have hm' := mem_ofNumber.mp hm
    simp only [versionHandlers, Option.ite_none_left_eq_some, Option.some_inj] at hr
    obtain ⟨-, rfl⟩ := hr
    constructor
    · intro nodeName
      have herase := pendingFor_erase hm' nodeName
      have hsent := countP_onVersionCommand s.node nodeName
      rw [pendingFor_absorb]
      change pendingFor { s with pending := s.pending.erase (a, i) } nodeName +
        s.node.onVersionCommand.sent.countP _ + _ = _
      omega
    · exact changes_absorb _ _ _ rfl

/-- What a timeout sends to the only node that is listed takes the place of what has ended. -/
lemma count_of_alone {i : Interest} (h : s.node.nodeNames.tail = [] ∨ s.node.nodeNames.tail = i.versionNode.toList)
    (nodeName : String) : s.node.nodeNames.tail.count nodeName ≤ if i.versionNode = some nodeName then 1 else 0 := by
  obtain h | h := h
  · rw [h, List.count_nil]
    exact Nat.zero_le _
  · rw [h]
    cases hnode : i.versionNode with
    | none => exact Nat.zero_le _
    | some other =>
      rw [Option.toList_some, List.count_singleton]
      by_cases heq : other = nodeName <;> simp [heq]

theorem bounded_step (hs : Bounded s) (hc : s.RetriesAlone e) (ht : step versionHandlers s e = some t) :
    Bounded t := by
  intro nodeName
  have hbound := hs nodeName
  cases e with
  | command cmd =>
    obtain ⟨u, hu, -, hpending, hchanges⟩ := command_step ht
    by_cases haccepted : Accepted s.node cmd
    · obtain ⟨file, hpublish, hnames⟩ := outcome_of_accepted haccepted hu
      have hnum : u.mVersionNum ≠ s.node.mVersionNum := by
        rw [← (memberStep_eq_some_iff.mp hu).2, hpublish]
        exact uint64_succ_ne s.node.mVersionNum
      have hcount : (cmd.listed s.node.nodeNames).tail.count nodeName ≤ 1 :=
        List.nodup_iff_count_le_one.mp (hc haccepted) nodeName
      rw [hpending, hpublish, countP_onVersionCommand, nodeNames_publish, hnames, hchanges, if_neg hnum]
      omega
    · have hsent := (outcome_of_not_accepted haccepted).2
      rw [hpending, hsent, List.countP_nil, hchanges]
      omega
  | ends a i d =>
    cases d with
    | none =>
      obtain ⟨hpending, hchanges⟩ := timeout_step ht
      have hnode := hpending nodeName
      have hcount := count_of_alone hc nodeName
      omega
    | some _ =>
      obtain ⟨hpending, hchanges⟩ := reply_step ht
      have hnode := hpending nodeName
      omega

lemma bounded_initial (h : KeySpaceHandle) : Bounded (initial h) := fun _ => le_rfl

end VersionSystem

/-! ### Runs -/

/-- No more version Interests are pending for a node than changes were accepted, in all states of a run
whose Interests time out only while no other node would be notified again. -/
theorem retries_bounded {h₀ : KeySpaceHandle} {events : List VersionEvent}
    (hmeets : Meets (step versionHandlers) VersionSystem.RetriesAlone (VersionSystem.initial h₀) events)
    {pre : List VersionEvent} {s : VersionSystem} (hpre : pre <+: events)
    (hrun : run (step versionHandlers) (VersionSystem.initial h₀) pre = some s) : s.Bounded :=
  run_invariant (fun _ _ _ hs hc ht => VersionSystem.bounded_step hs hc ht) (VersionSystem.bounded_initial h₀)
    (hmeets.of_isPrefix hpre) hrun

/-- The first joiner is slow to answer before the second joins and after it has left. -/
def slowJoiner : List VersionEvent :=
  [.command (.addNode ⟨"/m/repo", "/a/repo"⟩), .ends 0 (.ver "/a/repo" "v1") none,
    .ends 0 (.ver "/a/repo" "v1") none, .command (.addNode ⟨"/a/repo", "/b/repo"⟩),
    .ends 1 (.ver "/b/repo" "v2") (some ()), .command (.delNode ⟨"/b/repo", "/a/repo", 0⟩),
    .ends 1 (.ver "/a/repo" "v2") none, .ends 2 (.ver "/a/repo" "v3") none]

theorem retries_bounded_slowJoiner :
    (run (step versionHandlers) (VersionSystem.initial exampleManager) slowJoiner).map (fun s : VersionSystem =>
        (s.changes, s.pendingFor "/a/repo")) = some (3, 3) ∧
      ∀ (pre : List VersionEvent) (s : VersionSystem), pre <+: slowJoiner →
        run (step versionHandlers) (VersionSystem.initial exampleManager) pre = some s → s.Bounded := by
  refine ⟨by decide +kernel, ?_⟩
  intro pre s hpre hrun
  have hmeets : Meets (step versionHandlers) VersionSystem.RetriesAlone (VersionSystem.initial exampleManager)
      slowJoiner := by decide +kernel
  exact retries_bounded hmeets hpre hrun

/-- Neither of two joiners answers, and the Interests for the first time out twice. -/
def silentJoiners : List VersionEvent :=
  [.command (.addNode ⟨"/m/repo", "/a/repo"⟩), .command (.addNode ⟨"/a/repo", "/b/repo"⟩),
    .ends 0 (.ver "/a/repo" "v1") none, .ends 1 (.ver "/a/repo" "v2") none]

theorem retries_multiply :
    ∃ s : VersionSystem, run (step versionHandlers) (VersionSystem.initial exampleManager) silentJoiners = some s ∧
      s.changes = 2 ∧ s.pendingFor "/b/repo" = 3 ∧ ¬ s.Bounded := by
  have hnumbers : (run (step versionHandlers) (VersionSystem.initial exampleManager) silentJoiners).map
      (fun s : VersionSystem => (s.changes, s.pendingFor "/b/repo")) = some (2, 3) := by decide +kernel
  obtain ⟨s, hs, heq⟩ := Option.map_eq_some_iff.mp hnumbers
  obtain ⟨hchanges, hpending⟩ := Prod.ext_iff.mp heq
  refine ⟨s, hs, hchanges, hpending, ?_⟩
  intro hbounded
  have hb := hbounded "/b/repo"
  dsimp only at hchanges hpending
  omega

end Difs
