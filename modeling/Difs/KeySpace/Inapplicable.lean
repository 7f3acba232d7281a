import Difs.KeySpace.Leave
import Difs.KeySpace.Versions

/-!
# Commands that cannot be applied

Both membership handlers store the names of a command before they look for them. An add-node
whose `from` is not listed stops there. A del-node goes on to publish a file whether it found
its names or not, unless a bound that it reads does not parse.
-/

namespace Difs

open HexText EventRun

namespace MembershipCommand

def outcome (h : KeySpaceHandle) : MembershipCommand → Outcome
  | .addNode c => h.handleAddCommand c.fromName c.toName
  | .delNode c => h.handleDeleteCommand c.fromName c.toName c.unassigned

def fromName : MembershipCommand → String
  | .addNode c => c.fromName
  | .delNode c => c.fromName

def toName : MembershipCommand → String
  | .addNode c => c.toName
  | .delNode c => c.toName

end MembershipCommand

def Inapplicable (h : KeySpaceHandle) : MembershipCommand → Prop
  | .addNode c => c.fromName ∉ h.nodeNames
  | .delNode c => c.fromName ∉ h.nodeNames ∨ c.toName ∉ h.nodeNames ∨ c.fromName = c.toName

/-- The file, the version and the stored pair are as before, and no version notice goes out. -/
structure Unchanged (h : KeySpaceHandle) (o : Outcome) : Prop where
  sameFile : h.SameFile o.handle
  fromName : o.handle.mFrom = h.mFrom
  toName : o.handle.mTo = h.mTo
  silent : ∀ nodeName version, .ver nodeName version ∉ o.sent

/-- A bound of the leaving entry or the start of a taking entry does not parse. -/
def ReadsUnparsed (file : KeySpaceFile) (c : DelNode) : Prop :=
  (∃ node, file.find? (fun node => node.node = c.fromName) = some node ∧ node.span = none) ∨
    ∃ node ∈ file.eraseP (fun node => node.node = c.fromName), node.node = c.toName ∧ stoi16 node.startText = none

/-- The handler ends before it writes a file. -/
def EndsEarly (h : KeySpaceHandle) : MembershipCommand → Prop
  | .addNode _ => True
  | .delNode c => ∀ file, h.mKeySpaceFile = some file → ReadsUnparsed file c

section Outcomes

variable {h : KeySpaceHandle} {c : DelNode} {file : KeySpaceFile} {cmd : MembershipCommand}

lemma leavingRange_eq_none_iff : leavingRange file c.fromName c.unassigned = none ↔
    ∃ node, file.find? (fun node => node.node = c.fromName) = some node ∧ node.span = none := by
  unfold leavingRange KeySpaceNode.span
  cases file.find? (fun node => node.node = c.fromName) with
  | none => simp
  | some node =>
    cases hs : stoi16 node.startText with
    | none => simp [hs]
    | some start =>
      cases he : stoi16 node.endText with
      | none => simp [hs, he]
      | some stop => simp [hs, he]

lemma takeOver_eq_none_iff {toName : String} {fromStart fromEnd : ℤ} {stream : String} :
    takeOver toName fromStart fromEnd stream file = none ↔
      ∃ node ∈ file, node.node = toName ∧ stoi16 node.startText = none := by
  induction file generalizing stream with
  | nil => simp [takeOver]
  | cons it rest ih =>
    rw [List.exists_mem_cons_iff, takeOver]
    by_cases hn : it.node = toName
    · rw [if_pos hn]
      cases hs : stoi16 it.startText with
      | none => simp [hn]
      | some toStart =>
        dsimp only
        split_ifs
        · rw [Option.map_eq_none_iff, ih]
          simp
        · rw [Option.map_eq_none_iff, ih]
          simp
    · rw [if_neg hn, Option.map_eq_none_iff, ih]
      simp [hn]

lemma outcome_of_endsEarly (hinapplicable : Inapplicable h cmd) (hends : EndsEarly h cmd) :
    (cmd.outcome h).handle = { h with mFrom := cmd.fromName, mTo := cmd.toName } ∧ (cmd.outcome h).sent = [] := by
  cases cmd with
  | addNode c =>
    have hfind : ∀ file, h.mKeySpaceFile = some file → file.find? (fun it => it.node = c.fromName) = none := by
      intro file hf
      change c.fromName ∉ h.nodeNames at hinapplicable
      rw [KeySpaceHandle.nodeNames_eq hf] at hinapplicable
      rw [List.find?_eq_none]
      intro node hm heq
      exact hinapplicable (of_decide_eq_true heq ▸ List.mem_map_of_mem hm)
    change (h.handleAddCommand c.fromName c.toName).handle = _ ∧ (h.handleAddCommand c.fromName c.toName).sent = []
    unfold KeySpaceHandle.handleAddCommand
    cases hf : h.mKeySpaceFile with
    | none => exact ⟨rfl, rfl⟩
    | some file =>
      dsimp only
      rw [hfind file hf]
      exact ⟨rfl, rfl⟩
  | delNode c =>
    change (h.handleDeleteCommand c.fromName c.toName c.unassigned).handle = _ ∧
      (h.handleDeleteCommand c.fromName c.toName c.unassigned).sent = []
    unfold KeySpaceHandle.handleDeleteCommand
    cases hf : h.mKeySpaceFile with
    | none => exact ⟨rfl, rfl⟩
    | some file =>
      obtain hleaving | htaking := hends file hf
      · dsimp only
        rw [leavingRange_eq_none_iff.mpr hleaving]
        exact ⟨rfl, rfl⟩
      · dsimp only
        cases leavingRange file c.fromName c.unassigned with
        | none => exact ⟨rfl, rfl⟩
        | some range =>
          dsimp only
          rw [takeOver_eq_none_iff.mpr htaking]
          exact ⟨rfl, rfl⟩

/-- A handler that does not end early publishes. -/
lemma outcome_of_not_endsEarly (hends : ¬ EndsEarly h cmd) :
    ∃ file, cmd.outcome h = (h.publish cmd.fromName cmd.toName file).onVersionCommand := by
  cases cmd with
  | addNode c => exact absurd trivial hends
  | delNode c =>
    change ¬ ∀ file, h.mKeySpaceFile = some file → ReadsUnparsed file c at hends
    push Not at hends
    obtain ⟨file, hf, hparsed⟩ := hends
    unfold ReadsUnparsed at hparsed
    rw [not_or, ← leavingRange_eq_none_iff] at hparsed
    obtain ⟨range, hrange⟩ := Option.ne_none_iff_exists'.mp hparsed.1
    have htaking : takeOver c.toName range.1 range.2 "" (file.eraseP (fun node => node.node = c.fromName)) ≠ none :=
      fun hnone => hparsed.2 (takeOver_eq_none_iff.mp hnone)
    obtain ⟨file', hfile'⟩ := Option.ne_none_iff_exists'.mp htaking
    refine ⟨file', ?_⟩
    change h.handleDeleteCommand c.fromName c.toName c.unassigned = _
    unfold KeySpaceHandle.handleDeleteCommand
    rw [hf]
    dsimp only
    rw [hrange]
    dsimp only
    rw [hfile']
    rfl

lemma not_unchanged_publish (fromName toName : String) (file : KeySpaceFile) :
    ¬ Unchanged h (h.publish fromName toName file).onVersionCommand := by
  intro hunchanged
  exact uint64_succ_ne h.mVersionNum hunchanged.sameFile.num

end Outcomes

lemma unchanged_iff_of_inapplicable {h : KeySpaceHandle} {cmd : MembershipCommand}
    (hinapplicable : Inapplicable h cmd) :
    Unchanged h (cmd.outcome h) ↔ (h.mFrom = cmd.fromName ∧ h.mTo = cmd.toName) ∧ EndsEarly h cmd := by
  by_cases hends : EndsEarly h cmd
  · obtain ⟨hhandle, hsent⟩ := outcome_of_endsEarly hinapplicable hends
    rw [and_iff_left hends]
    constructor
    · intro hunchanged
      have hfrom := hunchanged.fromName
      have hto := hunchanged.toName
      rw [hhandle] at hfrom hto
      exact ⟨hfrom.symm, hto.symm⟩
    · intro hpair
      obtain ⟨hfrom, hto⟩ := hpair
      constructor
      · rw [hhandle]
        exact ⟨rfl, rfl, rfl, rfl⟩
      · rw [hhandle, hfrom]
      · rw [hhandle, hto]
      · rw [hsent]
        exact fun _ _ => List.not_mem_nil
  · obtain ⟨file, hpublish⟩ := outcome_of_not_endsEarly hends
    rw [hpublish]
    constructor
    · intro hunchanged
      exact absurd hunchanged (not_unchanged_publish _ _ file)
    · intro hcond
      exact absurd hcond.2 hends

def LeavesUnchanged (h : KeySpaceHandle) (cmd : MembershipCommand) : Prop :=
  Inapplicable h cmd → Unchanged h (cmd.outcome h)

/-- Such a command has the names of the pair stored before, and its handler ends early. -/
def RepeatsPair (h : KeySpaceHandle) (cmd : MembershipCommand) : Prop :=
  Inapplicable h cmd → (h.mFrom = cmd.fromName ∧ h.mTo = cmd.toName) ∧ EndsEarly h cmd

/-- In a run from any state the inapplicable commands change nothing exactly when all of them
are such repetitions. -/
theorem inapplicable_unchanged_iff (h : KeySpaceHandle) (cmds : List MembershipCommand) :
    Meets memberStep LeavesUnchanged h cmds ↔ Meets memberStep RepeatsPair h cmds := by
  have hstep : LeavesUnchanged = RepeatsPair := by
    funext h cmd
    apply propext
    exact imp_congr_right unchanged_iff_of_inapplicable
  rw [hstep]

/-- Of three nodes the last leaves to one that is not listed. Its range goes with it, and a new
version is published. -/
theorem inapplicable_publishes :
    run memberStep exampleManager.initKeySpaceFile (twoJoins.map .addNode) = some afterTwoJoins ∧
      Inapplicable afterTwoJoins (.delNode ⟨"/b/repo", "/x/repo", 0, 0⟩) ∧
      ¬ Unchanged afterTwoJoins (MembershipCommand.outcome afterTwoJoins (.delNode ⟨"/b/repo", "/x/repo", 0, 0⟩)) := by
  refine ⟨run_map_addNode.trans rfl, Or.inr (Or.inl (by decide)), ?_⟩
  intro hunchanged
  exact absurd hunchanged.sameFile.file (by decide)

end Difs
