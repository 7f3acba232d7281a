import Mathlib

/-!
# Ordered maps

The entries of a `std::map` in the order of their keys. `insertNew` is its `insert`, which leaves
a key that is there as it is. Entries without an order are looked up.
-/

namespace SortedMap

variable {κ α : Type*} [LinearOrder κ]

def insertNew (key : κ) (value : α) : List (κ × α) → List (κ × α)
  | [] => [(key, value)]
  | entry :: entries =>
    if key < entry.1 then (key, value) :: entry :: entries
    else if key = entry.1 then entry :: entries
    else entry :: insertNew key value entries

def Sorted (entries : List (κ × α)) : Prop := entries.Pairwise (fun a b => a.1 < b.1)

variable {key : κ} {value : α} {entries others : List (κ × α)} {entry : κ × α}

lemma mem_insertNew (h : Sorted entries) :
    entry ∈ insertNew key value entries ↔ entry ∈ entries ∨ entry = (key, value) ∧ key ∉ entries.map Prod.fst := by
  induction entries with
  | nil => simp [insertNew]
  | cons head entries ih =>
    obtain ⟨hhead, hsorted⟩ := List.pairwise_cons.mp h
    unfold insertNew
    by_cases hlt : key < head.1
    · have hnew : key ∉ (head :: entries).map Prod.fst := by
        intro hmem
        obtain ⟨e, he, heq⟩ := List.mem_map.mp hmem
        obtain rfl | he := List.mem_cons.mp he
        · exact hlt.ne heq.symm
        · exact (hlt.trans (hhead e he)).ne heq.symm
      rw [if_pos hlt, List.mem_cons, or_comm, and_iff_left hnew]
    · rw [if_neg hlt]
      by_cases heq : key = head.1
      · rw [if_pos heq]
        have hold : key ∈ (head :: entries).map Prod.fst := by
          rw [heq]
          exact List.mem_map_of_mem List.mem_cons_self
        exact (or_iff_left (fun hnew => hnew.2 hold)).symm
      · rw [if_neg heq, List.mem_cons, List.mem_cons, ih hsorted, List.map_cons, List.mem_cons, not_or, or_assoc,
          and_iff_right heq]

lemma sorted_insertNew (h : Sorted entries) (key : κ) (value : α) : Sorted (insertNew key value entries) := by
  induction entries with
  | nil => exact List.pairwise_singleton _ _
  | cons head entries ih =>
    obtain ⟨hhead, hsorted⟩ := List.pairwise_cons.mp h
    unfold insertNew
    by_cases hlt : key < head.1
    · rw [if_pos hlt]
      refine List.pairwise_cons.mpr ⟨?_, h⟩
      intro e he
      obtain rfl | he := List.mem_cons.mp he
      · exact hlt
      · exact hlt.trans (hhead e he)
    · rw [if_neg hlt]
      by_cases heq : key = head.1
      · rw [if_pos heq]
        exact h
      · rw [if_neg heq]
        refine List.pairwise_cons.mpr ⟨?_, ih hsorted⟩
        intro e he
        obtain he | ⟨rfl, -⟩ := (mem_insertNew hsorted).mp he
        · exact hhead e he
        · exact lt_of_le_of_ne (not_lt.mp hlt) (fun h => heq h.symm)

/-- Maps with the same entries are equal. -/
lemma eq_of_mem_iff (h : Sorted entries) (h' : Sorted others) (hmem : ∀ entry, entry ∈ entries ↔ entry ∈ others) :
    entries = others := by
  have hirrefl : Std.Irrefl (fun a b : κ × α => a.1 < b.1) := ⟨fun a => lt_irrefl a.1⟩
  have hasymm : Std.Asymm (fun a b : κ × α => a.1 < b.1) := ⟨fun a b => lt_asymm⟩
  exact List.Pairwise.eq_of_mem_iff h h' (fun entry => hmem entry)

/-! ### Entries without an order -/

omit [LinearOrder κ] in
/-- Entries of other keys make no difference. -/
lemma lookup_filter_ne [DecidableEq κ] [BEq κ] [LawfulBEq κ] {entries : List (κ × α)} {key k : κ} (h : key ≠ k) :
    (entries.filter (fun entry => entry.1 ≠ k)).lookup key = entries.lookup key := by
  induction entries with
  | nil => rfl
  | cons entry entries ih =>
    rw [List.lookup_cons]
    by_cases hk : entry.1 = k
    · rw [List.filter_cons_of_neg (by simp [hk]), ih, hk, beq_false_of_ne h]
    · rw [List.filter_cons_of_pos (by simp [hk]), List.lookup_cons, ih]

end SortedMap
