import Difs.KeySpace.Inapplicable

/-!
# Version notices

`onVersionCommand` leaves out the first entry of the file, whoever it is. Joins append and the
file begins with the manager, so that the entries behind the first are the other nodes until
the first entry is deleted.
-/

namespace Difs

open HexText EventRun

namespace MembershipCommand

/-- The names that a published file lists. -/
def listed (names : List String) : MembershipCommand → List String
  | .addNode c => names ++ [c.toName]
  | .delNode c => names.erase c.fromName

end MembershipCommand

/-- The handler gets to publish a file, unless it throws. -/
def Accepted (h : KeySpaceHandle) : MembershipCommand → Prop
  | .addNode c => c.fromName ∈ h.nodeNames
  | .delNode _ => True

instance (h : KeySpaceHandle) : DecidablePred (Accepted h)
  | .addNode c => inferInstanceAs (Decidable (c.fromName ∈ h.nodeNames))
  | .delNode _ => inferInstanceAs (Decidable True)

/-- The new version goes to every listed node other than the manager, and to no one else. -/
def NotifiesOthers (h : KeySpaceHandle) (cmd : MembershipCommand) : Prop :=
  Accepted h cmd → ∀ i, i ∈ (cmd.outcome h).sent ↔
    ∃ nodeName ∈ (cmd.outcome h).handle.nodeNames, nodeName ≠ h.mRepoPrefix ∧
      i = .ver nodeName (cmd.outcome h).handle.mVersion

/-- The manager does not join itself, and its entry at the front is not deleted, unless it is the
only one or the next entry's node is listed again. -/
def KeepsFirst (h : KeySpaceHandle) : MembershipCommand → Prop
  | .addNode c => c.fromName ∈ h.nodeNames → c.toName ≠ h.mRepoPrefix
  | .delNode c => ∀ second rest, h.nodeNames = c.fromName :: second :: rest → second ∈ rest

instance (h : KeySpaceHandle) : DecidablePred (KeepsFirst h)
  | .addNode c => inferInstanceAs (Decidable (c.fromName ∈ h.nodeNames → c.toName ≠ h.mRepoPrefix))
  | .delNode c =>
    match hnames : h.nodeNames with
    | [] => isTrue (by simp [KeepsFirst, hnames])
    | [_] => isTrue (by simp [KeepsFirst, hnames])
    | first :: second :: rest => decidable_of_iff (first = c.fromName → second ∈ rest) (by simp [KeepsFirst, hnames])

/-! ### What a published file lists -/

section Publishing

variable {h t : KeySpaceHandle} {cmd : MembershipCommand}

lemma memberStep_eq_some_iff :
    memberStep h cmd = some t ↔ (cmd.outcome h).threw = false ∧ (cmd.outcome h).handle = t := by
  cases cmd with
  | addNode c =>
    change addStep h c = some t ↔ (h.handleAddCommand c.fromName c.toName).threw = false ∧ _
    unfold addStep
    cases (h.handleAddCommand c.fromName c.toName).threw <;> simp [MembershipCommand.outcome]
  | delNode c =>
    change delStep h c = some t ↔ (h.handleDeleteCommand c.fromName c.toName c.unassigned).threw = false ∧ _
    unfold delStep
    cases (h.handleDeleteCommand c.fromName c.toName c.unassigned).threw <;> simp [MembershipCommand.outcome]

lemma map_eraseP_node (file : KeySpaceFile) (nodeName : String) :
    (file.eraseP (fun node => node.node = nodeName)).map KeySpaceNode.node =
      (file.map KeySpaceNode.node).erase nodeName := by
  rw [List.erase_eq_eraseP', List.eraseP_map]
  rfl

/-- An add-node throws when a bound of the entry to split does not parse. -/
lemma threw_of_span_eq_none {c : AddNode} {file pre post : KeySpaceFile} {it : KeySpaceNode}
    (hf : h.mKeySpaceFile = some file) (hfe : FirstEntry file c.fromName pre it post) (hs : it.span = none) :
    (h.handleAddCommand c.fromName c.toName).threw = true := by
  have hfind := find_eq_some_iff.mpr ⟨pre, post, hfe⟩
  unfold KeySpaceNode.span at hs
  unfold KeySpaceHandle.handleAddCommand
  rw [hf]
  dsimp only
  rw [hfind]
  dsimp only
  cases h1 : stoi16 it.startText with
  | none => rfl
  | some start =>
    cases h2 : stoi16 it.endText with
    | none => rfl
    | some stop => simp [h1, h2] at hs

theorem outcome_of_accepted (haccepted : Accepted h cmd) (ht : memberStep h cmd = some t) :
    ∃ file, cmd.outcome h = (h.publish cmd.fromName cmd.toName file).onVersionCommand ∧
      file.map KeySpaceNode.node = cmd.listed h.nodeNames := by
  cases cmd with
  | addNode c =>
    obtain ⟨file, pre, it, post, hf, hfe⟩ := exists_file haccepted
    cases hs : it.span with
    | none =>
      have hthrew := (memberStep_eq_some_iff.mp ht).1
      change (h.handleAddCommand c.fromName c.toName).threw = false at hthrew
      rw [threw_of_span_eq_none hf hfe hs] at hthrew
      cases hthrew
    | some s =>
      refine ⟨_, handleAddCommand_eq hf hfe hs, ?_⟩
      rw [KeySpaceHandle.nodeNames_eq hf, hfe.eq]
      simp [keptNode, givenNode, MembershipCommand.listed]
  | delNode c =>
    obtain ⟨file, range, file', hf, -, htake, htEq⟩ := delStep_eq_some_iff.mp ht
    have hhandle := (memberStep_eq_some_iff.mp ht).2
    have hnames : file'.map KeySpaceNode.node = h.nodeNames.erase c.fromName := by
      rw [takeOver_names htake, map_eraseP_node, KeySpaceHandle.nodeNames_eq hf]
    change (h.handleDeleteCommand c.fromName c.toName c.unassigned).handle = t at hhandle
    obtain hnot | ⟨file'', hpublish⟩ := h.handleDeleteCommand_cases c.fromName c.toName c.unassigned
    · rw [hnot.1, ← htEq] at hhandle
      exact absurd (congrArg KeySpaceHandle.mVersionNum hhandle).symm (uint64_succ_ne h.mVersionNum)
    · rw [hpublish, ← htEq] at hhandle
      have hfile := congrArg KeySpaceHandle.mKeySpaceFile hhandle
      obtain rfl : file'' = file' := Option.some.inj hfile
      exact ⟨file'', hpublish, hnames⟩

lemma outcome_of_not_accepted (h' : ¬ Accepted h cmd) :
    (cmd.outcome h).handle = { h with mFrom := cmd.fromName, mTo := cmd.toName } ∧ (cmd.outcome h).sent = [] := by
  cases cmd with
  | addNode c =>
    have hends : EndsEarly h (.addNode c) := trivial
    exact outcome_of_endsEarly h' hends
  | delNode c => exact absurd trivial h'

end Publishing

/-! ### Who is left out -/

/-- The entries behind the first are those of the nodes other than the manager. -/
def ManagerFirst (names : List String) (manager : String) : Prop :=
  ∀ nodeName, nodeName ∈ names.tail ↔ nodeName ∈ names ∧ nodeName ≠ manager

section Order

variable {names : List String} {manager name : String}

lemma managerFirst_append_iff (h : ManagerFirst names manager) (hne : names ≠ []) :
    ManagerFirst (names ++ [name]) manager ↔ name ≠ manager := by
  unfold ManagerFirst at h ⊢
  simp only [List.tail_append_of_ne_nil hne, List.mem_append, List.mem_singleton, h]
  constructor
  · intro hall
    exact ((hall name).mp (Or.inr rfl)).2
  · intro hname nodeName
    constructor
    · rintro (hm | rfl)
      · exact ⟨Or.inl hm.1, hm.2⟩
      · exact ⟨Or.inr rfl, hname⟩
    · rintro ⟨hm | rfl, hother⟩
      · exact Or.inl ⟨hm, hother⟩
      · exact Or.inr rfl

/-- Without its first entry the file begins with another node, which is then left out. -/
lemma managerFirst_tail_iff {second : String} {rest : List String} (h : ManagerFirst (name :: second :: rest) manager) :
    ManagerFirst (second :: rest) manager ↔ second ∈ rest := by
  have hother : ∀ nodeName ∈ second :: rest, nodeName ≠ manager := fun nodeName hm => ((h nodeName).mp hm).2
  constructor
  · intro htail
    exact (htail second).mpr ⟨List.mem_cons_self, hother second List.mem_cons_self⟩
  · intro hagain nodeName
    constructor
    · intro hm
      have hm' := List.mem_cons_of_mem second hm
      exact ⟨hm', hother nodeName hm'⟩
    · intro hm
      obtain rfl | hm := List.mem_cons.mp hm.1
      · exact hagain
      · exact hm

lemma managerFirst_erase_of_ne {first : String} {rest : List String} (h : ManagerFirst (first :: rest) manager)
    (hne : first ≠ name) : ManagerFirst (first :: rest.erase name) manager := by
  intro nodeName
  rw [List.tail_cons]
  constructor
  · intro hm
    exact ⟨List.mem_cons_of_mem first hm, ((h nodeName).mp (List.mem_of_mem_erase hm)).2⟩
  · intro hm
    obtain ⟨hm, hother⟩ := hm
    obtain rfl | hm := List.mem_cons.mp hm
    · have hrest := (h nodeName).mpr ⟨List.mem_cons_self, hother⟩
      exact (List.mem_erase_of_ne hne).mpr hrest
    · exact hm

lemma managerFirst_erase_iff (h : ManagerFirst names manager) :
    ManagerFirst (names.erase name) manager ↔ ∀ second rest, names = name :: second :: rest → second ∈ rest := by
  cases names with
  | nil => simp [ManagerFirst]
  | cons first rest =>
    by_cases hfirst : first = name
    · subst hfirst
      rw [List.erase_cons_head]
      cases rest with
      | nil => simp [ManagerFirst]
      | cons second rest =>
        rw [managerFirst_tail_iff h]
        constructor
        · rintro hagain _ _ ⟨rfl, rfl⟩
          exact hagain
        · intro hall
          exact hall second rest rfl
    · rw [List.erase_cons_tail (by simpa using hfirst)]
      apply iff_of_true (managerFirst_erase_of_ne h hfirst)
      intro second rest' heq
      exact absurd (List.cons.inj heq).1 hfirst

end Order

/-! ### Runs -/

section Runs

variable {h t : KeySpaceHandle} {cmd : MembershipCommand}

lemma nodeNames_publish (fromName toName : String) (file : KeySpaceFile) :
    (h.publish fromName toName file).nodeNames = file.map KeySpaceNode.node := rfl

/-- The notices are those to the names behind the first. -/
lemma mem_sent_iff {file : KeySpaceFile} {i : Interest} {fromName toName : String} :
    i ∈ (h.publish fromName toName file).onVersionCommand.sent ↔
      ∃ nodeName ∈ (file.map KeySpaceNode.node).tail, i = .ver nodeName (h.publish fromName toName file).mVersion := by
  rw [KeySpaceHandle.onVersionCommand_publish, ← List.map_tail]
  simp only [List.mem_map]
  constructor
  · intro hm
    obtain ⟨it, hit, rfl⟩ := hm
    exact ⟨it.node, ⟨it, hit, rfl⟩, rfl⟩
  · intro hm
    obtain ⟨_, ⟨it, hit, rfl⟩, rfl⟩ := hm
    exact ⟨it, hit, rfl⟩

lemma notifiesOthers_iff (haccepted : Accepted h cmd) (ht : memberStep h cmd = some t) :
    NotifiesOthers h cmd ↔ ManagerFirst (cmd.listed h.nodeNames) h.mRepoPrefix := by
  obtain ⟨file, hpublish, hnames⟩ := outcome_of_accepted haccepted ht
  unfold NotifiesOthers ManagerFirst
  rw [imp_iff_right haccepted, hpublish, ← hnames]
  change (∀ i, _ ↔ ∃ nodeName ∈ file.map KeySpaceNode.node, _) ↔ _
  simp only [mem_sent_iff]
  constructor
  · intro hall nodeName
    have hver := hall (.ver nodeName (h.publish cmd.fromName cmd.toName file).mVersion)
    constructor
    · intro hm
      obtain ⟨n, hn, hother, heq⟩ := hver.mp ⟨nodeName, hm, rfl⟩
      obtain ⟨rfl, -⟩ := Interest.ver.inj heq
      exact ⟨hn, hother⟩
    · intro hm
      obtain ⟨n, hn, heq⟩ := hver.mpr ⟨nodeName, hm.1, hm.2, rfl⟩
      obtain ⟨rfl, -⟩ := Interest.ver.inj heq
      exact hn
  · intro hall i
    constructor
    · intro hm
      obtain ⟨n, hn, rfl⟩ := hm
      exact ⟨n, ((hall n).mp hn).1, ((hall n).mp hn).2, rfl⟩
    · intro hm
      obtain ⟨n, hn, hother, rfl⟩ := hm
      exact ⟨n, (hall n).mpr ⟨hn, hother⟩, rfl⟩

/-- A step leaves the order as it is unless it publishes, which it then notifies as it should
exactly when the command keeps the manager first. -/
theorem managerFirst_step (hfirst : ManagerFirst h.nodeNames h.mRepoPrefix) (ht : memberStep h cmd = some t) :
    (NotifiesOthers h cmd ↔ KeepsFirst h cmd) ∧
      (KeepsFirst h cmd → ManagerFirst t.nodeNames t.mRepoPrefix) := by
  by_cases haccepted : Accepted h cmd
  · obtain ⟨file, hpublish, hnames⟩ := outcome_of_accepted haccepted ht
    have hkeeps : ManagerFirst (cmd.listed h.nodeNames) h.mRepoPrefix ↔ KeepsFirst h cmd := by
      cases cmd with
      | addNode c =>
        have hne : h.nodeNames ≠ [] := List.ne_nil_of_mem haccepted
        exact (managerFirst_append_iff hfirst hne).trans (imp_iff_right haccepted).symm
      | delNode c => exact managerFirst_erase_iff hfirst
    rw [notifiesOthers_iff haccepted ht, hkeeps]
    refine ⟨Iff.rfl, fun hcond => ?_⟩
    rw [← (memberStep_eq_some_iff.mp ht).2, hpublish]
    change ManagerFirst (file.map KeySpaceNode.node) h.mRepoPrefix
    rw [hnames]
    exact hkeeps.mpr hcond
  · have hhandle := (outcome_of_not_accepted haccepted).1
    rw [(memberStep_eq_some_iff.mp ht).2] at hhandle
    constructor
    · apply iff_of_true (fun h' => absurd h' haccepted)
      cases cmd with
      | addNode c => exact fun h' => absurd h' haccepted
      | delNode c => exact absurd trivial haccepted
    · intro _
      rw [hhandle]
      exact hfirst

theorem notices_run {cmds : List MembershipCommand} :
    ∀ {h t : KeySpaceHandle}, ManagerFirst h.nodeNames h.mRepoPrefix → run memberStep h cmds = some t →
      (Meets memberStep NotifiesOthers h cmds ↔ Meets memberStep KeepsFirst h cmds) := by
  induction cmds with
  | nil =>
    intro h t _ _
    exact Iff.rfl
  | cons cmd cmds ih =>
    intro h t hfirst hrun
    obtain ⟨u, hu, hut⟩ := run_cons_eq_some.mp hrun
    obtain ⟨hiff, hnext⟩ := managerFirst_step hfirst hu
    unfold Meets
    rw [hiff, hu]
    simp only [Option.some.injEq, forall_eq']
    exact and_congr_right (fun hcond => ih (hnext hcond) hut)

end Runs

/-- From the initial file on, every accepted command notifies the other nodes exactly when every
command keeps the manager first. -/
theorem notices_iff {h₀ t : KeySpaceHandle} {cmds : List MembershipCommand}
    (hrun : run memberStep h₀.initKeySpaceFile cmds = some t) :
    Meets memberStep NotifiesOthers h₀.initKeySpaceFile cmds ↔
      Meets memberStep KeepsFirst h₀.initKeySpaceFile cmds := by
  apply notices_run _ hrun
  intro nodeName
  change nodeName ∈ [] ↔ nodeName ∈ [h₀.mRepoPrefix] ∧ nodeName ≠ h₀.mRepoPrefix
  simp

/-- Two nodes join, and the first of them leaves. -/
def joinerLeaves : List MembershipCommand := twoJoins.map .addNode ++ [.delNode ⟨"/a/repo", "/m/repo", 0, 0⟩]

theorem notices_joinerLeaves :
    (run memberStep exampleManager.initKeySpaceFile joinerLeaves).isSome ∧
      Meets memberStep NotifiesOthers exampleManager.initKeySpaceFile joinerLeaves := by
  have hrun : (run memberStep exampleManager.initKeySpaceFile joinerLeaves).isSome := by decide
  obtain ⟨t, ht⟩ := Option.isSome_iff_exists.mp hrun
  exact ⟨hrun, (notices_iff ht).mpr (by decide)⟩

/-- Two nodes join and the manager leaves to the first of them, which is not told. -/
theorem manager_leaves_unnoticed :
    run memberStep exampleManager.initKeySpaceFile (twoJoins.map .addNode) = some afterTwoJoins ∧
      "/m/repo" ∈ afterTwoJoins.nodeNames ∧ "/a/repo" ∈ afterTwoJoins.nodeNames ∧
      ¬ NotifiesOthers afterTwoJoins (.delNode ⟨"/m/repo", "/a/repo", 0, 0⟩) := by
  refine ⟨run_map_addNode.trans rfl, by decide, by decide, ?_⟩
  intro hnotifies
  have hsent := (hnotifies trivial (.ver "/a/repo" "v3")).mpr ⟨"/a/repo", by decide, by decide, by decide⟩
  exact absurd hsent (by decide)

end Difs
