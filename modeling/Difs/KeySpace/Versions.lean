import Difs.KeySpace.Handle

/-!
# Versions

What the handlers do to the version and to the file it stands for. A membership command
either publishes a file under the next version or leaves both alone, and no other handler
but that of a fetch reply touches them.
-/

namespace Difs

open HexText

def versionText (n : ℕ) : String := "v" ++ toString n

lemma versionText_injective {a b : ℕ} (h : versionText a = versionText b) : a = b := by
  have hrepr : Nat.repr a = Nat.repr b := (String.append_right_inj "v").mp h
  have hdigits := congrArg String.toList hrepr
  rw [Nat.toList_repr, Nat.toList_repr] at hdigits
  calc
    a = Nat.ofDigitChars 10 (Nat.toDigits 10 a) 0 := Nat.ofDigitChars_ten_toDigits.symm
    _ = Nat.ofDigitChars 10 (Nat.toDigits 10 b) 0 := by rw [hdigits]
    _ = b := Nat.ofDigitChars_ten_toDigits

lemma uint64_succ_ne (n : UInt64) : n + 1 ≠ n := by
  intro h
  have hn := congrArg UInt64.toNat h
  rw [UInt64.toNat_add] at hn
  have hlt := n.toNat_lt
  simp at hn
  omega

namespace KeySpaceHandle

/-- The handle after an applied membership command. -/
def publish (h : KeySpaceHandle) (fromName toName : String) (file : KeySpaceFile) : KeySpaceHandle :=
  { { h with mFrom := fromName, mTo := toName } with mKeySpaceFile := some file }.nextVersion

structure SameFile (h h' : KeySpaceHandle) : Prop where
  manager : h'.mManagerPrefix = h.mManagerPrefix
  num : h'.mVersionNum = h.mVersionNum
  version : h'.mVersion = h.mVersion
  file : h'.mKeySpaceFile = h.mKeySpaceFile

variable (h : KeySpaceHandle) (fromName toName : String)

/-- An add-node is either not applied or lists the new node last, behind the others. -/
theorem handleAddCommand_cases :
    (h.handleAddCommand fromName toName).handle = { h with mFrom := fromName, mTo := toName } ∧
        (h.handleAddCommand fromName toName).sent = [] ∨
      ∃ file node, file ≠ [] ∧ node.node = toName ∧
        h.handleAddCommand fromName toName = (h.publish fromName toName (file ++ [node])).onVersionCommand := by
  unfold handleAddCommand
  cases hf : h.mKeySpaceFile with
  | none => exact Or.inl ⟨rfl, rfl⟩
  | some keySpaces =>
    cases hi : keySpaces.find? (fun it => it.node = fromName) with
    | none => exact Or.inl (by simp [hi])
    | some it =>
      cases h1 : stoi16 it.startText with
      | none => exact Or.inl (by simp [hi, h1])
      | some start =>
        cases h2 : stoi16 it.endText with
        | none => exact Or.inl (by simp [hi, h1, h2])
        | some stop =>
          refine Or.inr ?_
          simp only [hi, h1, h2]
          refine ⟨_, ⟨toName, _, _⟩, ?_, rfl, rfl⟩
          intro hnil
          have hlen := congrArg List.length hnil
          rw [List.length_replaceF, List.length_nil, List.length_eq_zero_iff] at hlen
          simp [hlen] at hi

theorem handleDeleteCommand_cases (unassigned : ℤ × ℤ) :
    (h.handleDeleteCommand fromName toName unassigned).handle = { h with mFrom := fromName, mTo := toName } ∧
        (h.handleDeleteCommand fromName toName unassigned).sent = [] ∨
      ∃ file, h.handleDeleteCommand fromName toName unassigned =
        (h.publish fromName toName file).onVersionCommand := by
  unfold handleDeleteCommand
  cases hf : h.mKeySpaceFile with
  | none => exact Or.inl ⟨rfl, rfl⟩
  | some keySpaces =>
    cases hr : leavingRange keySpaces fromName unassigned with
    | none => exact Or.inl (by simp [hr])
    | some range =>
      obtain ⟨fromStart, fromEnd⟩ := range
      cases ht : takeOver toName fromStart fromEnd "" (keySpaces.eraseP (fun node => node.node = fromName)) with
      | none => exact Or.inl (by simp [hr, ht])
      | some file => exact Or.inr ⟨file, by simp only [hr, ht]; rfl⟩

variable (file : KeySpaceFile)

lemma onVersionCommand_publish : (h.publish fromName toName file).onVersionCommand =
    { handle := h.publish fromName toName file,
      sent := file.tail.map (fun it => .ver it.node (h.publish fromName toName file).mVersion) } := rfl

lemma onFetchCommandResponse_some (version : String) :
    ∃ start stop assigned, (h.onFetchCommandResponse version (some file)).handle =
      { h with mVersion := version, mKeySpaceFile := some file, mStart := start, mEnd := stop,
               rangeAssigned := assigned } ∧
      (h.onFetchCommandResponse version (some file)).sent = [] := by
  unfold onFetchCommandResponse
  dsimp only
  split
  · exact ⟨_, _, _, rfl, rfl⟩
  · unfold assignRange
    split
    · exact ⟨_, _, _, rfl, rfl⟩
    · split <;> exact ⟨_, _, _, rfl, rfl⟩

end KeySpaceHandle

end Difs
