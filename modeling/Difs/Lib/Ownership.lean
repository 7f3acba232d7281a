import Mathlib

/-!
# Owners of keys

Every key of a finite linear order has one owner. A node that joins takes the upper half of
another one's share, and a node that leaves hands its whole share over.
-/

namespace Ownership

variable {ι α : Type*}

section Moves

variable [DecidableEq ι] [LinearOrder α]

def share (keys : Finset α) (owner : α → ι) (node : ι) : Finset α := keys.filter (fun key => owner key = node)

/-- The keys with fewer than half of the set above them. -/
def upperHalf (s : Finset α) : Finset α := s.filter (fun key => 2 * (s.filter (key < ·)).card < s.card)

def join (keys : Finset α) (owner : α → ι) (fromNode toNode : ι) (key : α) : ι :=
  if key ∈ upperHalf (share keys owner fromNode) then toNode else owner key

def leave (owner : α → ι) (fromNode toNode : ι) (key : α) : ι :=
  if owner key = fromNode then toNode else owner key

end Moves

section Half

variable [LinearOrder α] {s : Finset α} {key : α}

lemma mem_upperHalf : key ∈ upperHalf s ↔ key ∈ s ∧ 2 * (s.filter (key < ·)).card < s.card := Finset.mem_filter

lemma upperHalf_subset : upperHalf s ⊆ s := Finset.filter_subset _ s

/-- As many keys have a rank from the top below `k` as there are, up to `k`. -/
lemma card_filter_rank (s : Finset α) (k : ℕ) :
    (s.filter (fun key => (s.filter (key < ·)).card < k)).card = min k s.card := by
  induction s using Finset.induction_on_min with
  | empty => simp
  | insert a s ha ih =>
    have hnot : a ∉ s := fun hm => lt_irrefl a (ha a hm)
    have hself : (insert a s).filter (a < ·) = s := by
      rw [Finset.filter_insert, if_neg (lt_irrefl a)]
      exact Finset.filter_true_of_mem ha
    have hothers : ∀ key ∈ s, (insert a s).filter (key < ·) = s.filter (key < ·) := by
      intro key hm
      rw [Finset.filter_insert, if_neg (lt_asymm (ha key hm))]
    rw [Finset.filter_insert, hself, Finset.filter_congr (fun key hm => by rw [hothers key hm]),
      Finset.card_insert_of_notMem hnot]
    split_ifs with hlt
    · rw [Finset.card_insert_of_notMem (fun hm => hnot (Finset.mem_filter.mp hm).1), ih]
      omega
    · rw [ih]
      omega

/-- The joining node gets one key more where the share is odd. -/
theorem card_upperHalf (s : Finset α) : (upperHalf s).card = (s.card + 1) / 2 := by
  have hrank := card_filter_rank s ((s.card + 1) / 2)
  have hhalf : upperHalf s = s.filter (fun key => (s.filter (key < ·)).card < (s.card + 1) / 2) := by
    apply Finset.filter_congr
    intro key hm
    omega
  rw [hhalf, hrank]
  omega

theorem upperHalf_Icc (lo hi : ℤ) : upperHalf (Finset.Icc lo hi) = Finset.Icc (hi - (hi - lo) / 2) hi := by
  ext v
  have habove : (Finset.Icc lo hi).filter (v < ·) = Finset.Icc (max lo (v + 1)) hi := by
    ext w
    rw [Finset.mem_filter, Finset.mem_Icc, Finset.mem_Icc]
    omega
  rw [mem_upperHalf, habove, Int.card_Icc, Int.card_Icc, Finset.mem_Icc, Finset.mem_Icc]
  omega

end Half

section Shares

variable [DecidableEq ι] [LinearOrder α] {keys : Finset α} {owner : α → ι} {fromNode toNode node : ι} {key : α}

omit [LinearOrder α] in
lemma mem_share : key ∈ share keys owner node ↔ key ∈ keys ∧ owner key = node := Finset.mem_filter

lemma share_join_of_ne (hnode : node ≠ toNode) :
    share keys (join keys owner fromNode toNode) node =
      if node = fromNode then share keys owner fromNode \ upperHalf (share keys owner fromNode)
      else share keys owner node := by
  ext key
  rw [mem_share, join]
  split_ifs with hkey heq heq
  · simp [hnode.symm, hkey]
  · have hother : owner key ≠ node := by
      intro howner
      exact heq (howner.symm.trans (mem_share.mp (upperHalf_subset hkey)).2)
    simp [mem_share, hnode.symm, hother]
  · rw [Finset.mem_sdiff, mem_share, heq]
    simp [hkey]
  · rw [mem_share]

end Shares

end Ownership
