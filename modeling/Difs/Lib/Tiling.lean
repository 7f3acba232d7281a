import Mathlib

/-!
# Tilings by labelled intervals

A list of labelled closed intervals tiles a set when the intervals are nonempty, pairwise
disjoint and cover exactly that set. Every point then has one owner. Intervals can be split
and merged as long as the points of the pieces are those of the whole.
-/

/-- A closed interval with the label of its owner. -/
structure Span (ι α : Type*) where
  label : ι
  lo : α
  hi : α
deriving DecidableEq

namespace Span

variable {ι α : Type*} [LinearOrder α]

def points (s : Span ι α) : Set α := Set.Icc s.lo s.hi

lemma mem_points {s : Span ι α} {x : α} : x ∈ s.points ↔ s.lo ≤ x ∧ x ≤ s.hi := Set.mem_Icc

lemma lo_mem_points {s : Span ι α} (h : s.lo ≤ s.hi) : s.lo ∈ s.points := ⟨le_rfl, h⟩

/-- The first span that contains a point gives its owner. -/
def owner (ss : List (Span ι α)) (x : α) : Option ι :=
  (ss.find? (fun s => s.lo ≤ x ∧ x ≤ s.hi)).map Span.label

lemma owner_cons (s : Span ι α) (ss : List (Span ι α)) (x : α) :
    owner (s :: ss) x = if s.lo ≤ x ∧ x ≤ s.hi then some s.label else owner ss x := by
  unfold owner
  by_cases h : s.lo ≤ x ∧ x ≤ s.hi <;> simp [h]

end Span

/-- The spans are nonempty, pairwise disjoint and cover exactly `u`. -/
structure Tiles {ι α : Type*} [LinearOrder α] (ss : List (Span ι α)) (u : Set α) : Prop where
  le : ∀ s ∈ ss, s.lo ≤ s.hi
  disjoint : ss.Pairwise (fun s t => Disjoint s.points t.points)
  cover : ∀ x, x ∈ u ↔ ∃ s ∈ ss, x ∈ s.points

namespace Tiles

variable {ι α : Type*} [LinearOrder α] {ss ts rest : List (Span ι α)} {a b c s t : Span ι α} {u : Set α}

theorem perm (h : Tiles ss u) (hp : ss.Perm ts) : Tiles ts u where
  le s hs := h.le s (hp.mem_iff.mpr hs)
  disjoint := (hp.pairwise_iff (fun hxy => hxy.symm)).mp h.disjoint
  cover x := by
    rw [h.cover x]
    exact exists_congr (fun s => by rw [hp.mem_iff])

lemma perm_iff (hp : ss.Perm ts) : Tiles ss u ↔ Tiles ts u :=
  ⟨fun h => h.perm hp, fun h => h.perm hp.symm⟩

lemma singleton (h : s.lo ≤ s.hi) : Tiles [s] s.points where
  le t ht := by
    rw [List.mem_singleton.mp ht]
    exact h
  disjoint := List.pairwise_singleton _ _
  cover x := by simp

lemma mem_of_mem_points {x : α} (h : Tiles ss u) (hs : s ∈ ss) (hx : x ∈ s.points) : x ∈ u :=
  (h.cover x).mpr ⟨s, hs, hx⟩

lemma span_unique {x : α} (h : Tiles ss u) (hs : s ∈ ss) (ht : t ∈ ss) (hxs : x ∈ s.points)
    (hxt : x ∈ t.points) : s = t := by
  by_contra hne
  have : Std.Symm (fun s t : Span ι α => Disjoint s.points t.points) := ⟨fun _ _ hd => hd.symm⟩
  have hd := h.disjoint.forall hs ht hne
  exact Set.disjoint_left.mp hd hxs hxt

/-- On a tiling, first-match lookup is membership. -/
theorem owner_eq_some_iff (h : Tiles ss u) {x : α} {l : ι} :
    Span.owner ss x = some l ↔ ∃ s ∈ ss, s.label = l ∧ x ∈ s.points := by
  simp only [Span.owner, Option.map_eq_some_iff]
  constructor
  · rintro ⟨s, hs, rfl⟩
    have hx := List.find?_some hs
    exact ⟨s, List.mem_of_find?_eq_some hs, rfl, Span.mem_points.mpr (by simpa using hx)⟩
  · rintro ⟨s, hs, rfl, hx⟩
    obtain ⟨t, ht⟩ : ∃ t, ss.find? (fun r => r.lo ≤ x ∧ x ≤ r.hi) = some t := by
      rw [← Option.isSome_iff_exists, List.find?_isSome]
      exact ⟨s, hs, by simpa using Span.mem_points.mp hx⟩
    have hxt : x ∈ t.points := Span.mem_points.mpr (by simpa using List.find?_some ht)
    exact ⟨t, ht, by rw [h.span_unique hs (List.mem_of_find?_eq_some ht) hx hxt]⟩

theorem owner_isSome_iff (h : Tiles ss u) {x : α} : (Span.owner ss x).isSome ↔ x ∈ u := by
  rw [h.cover, Option.isSome_iff_exists]
  constructor
  · rintro ⟨l, hl⟩
    obtain ⟨s, hs, -, hx⟩ := h.owner_eq_some_iff.mp hl
    exact ⟨s, hs, hx⟩
  · rintro ⟨s, hs, hx⟩
    exact ⟨s.label, h.owner_eq_some_iff.mpr ⟨s, hs, rfl, hx⟩⟩

lemma head_disjoint (h : Tiles (s :: rest) u) (ht : t ∈ rest) : Disjoint s.points t.points :=
  (List.pairwise_cons.mp h.disjoint).1 t ht

lemma mem_head_iff (h : Tiles (s :: rest) u) {x : α} :
    x ∈ s.points ↔ x ∈ u ∧ ∀ t ∈ rest, x ∉ t.points := by
  rw [h.cover x]
  constructor
  · intro hx
    exact ⟨⟨s, List.mem_cons_self, hx⟩, fun t ht => Set.disjoint_left.mp (h.head_disjoint ht) hx⟩
  · rintro ⟨⟨t, ht, hx⟩, hn⟩
    rcases List.mem_cons.mp ht with rfl | ht
    · exact hx
    · exact absurd hx (hn t ht)

theorem split (h : Tiles (s :: rest) u) (ha : a.lo ≤ a.hi) (hb : b.lo ≤ b.hi)
    (hab : Disjoint a.points b.points) (hs : s.points = a.points ∪ b.points) :
    Tiles (a :: b :: rest) u := by
  have hrest : ∀ t ∈ rest, Disjoint a.points t.points ∧ Disjoint b.points t.points := by
    intro t ht
    have hd := h.head_disjoint ht
    rw [hs, Set.disjoint_union_left] at hd
    exact hd
  refine ⟨?_, ?_, ?_⟩
  · intro t ht
    rcases List.mem_cons.mp ht with rfl | ht
    · exact ha
    · rcases List.mem_cons.mp ht with rfl | ht
      · exact hb
      · exact h.le t (List.mem_cons_of_mem _ ht)
  · refine List.pairwise_cons.mpr ⟨?_, List.pairwise_cons.mpr ⟨fun t ht => (hrest t ht).2,
      (List.pairwise_cons.mp h.disjoint).2⟩⟩
    intro t ht
    rcases List.mem_cons.mp ht with rfl | ht
    · exact hab
    · exact (hrest t ht).1
  · intro x
    rw [h.cover x]
    simp only [List.mem_cons, exists_eq_or_imp, hs, Set.mem_union, or_assoc]

/-- A span may replace the first two exactly when it has the points of both. -/
theorem merge_iff (h : Tiles (a :: b :: rest) u) (hc : c.lo ≤ c.hi) :
    Tiles (c :: rest) u ↔ c.points = a.points ∪ b.points := by
  have hb : Tiles (b :: a :: rest) u := h.perm (List.Perm.swap b a rest)
  have hmem : ∀ x, x ∈ a.points ∪ b.points ↔ x ∈ u ∧ ∀ t ∈ rest, x ∉ t.points := by
    intro x
    rw [Set.mem_union, h.mem_head_iff, hb.mem_head_iff]
    simp only [List.mem_cons, forall_eq_or_imp]
    constructor
    · rintro (⟨hu, -, hn⟩ | ⟨hu, -, hn⟩) <;> exact ⟨hu, hn⟩
    · rintro ⟨hu, hn⟩
      by_cases hx : x ∈ b.points
      · refine Or.inr ⟨hu, ?_, hn⟩
        exact Set.disjoint_left.mp (hb.head_disjoint List.mem_cons_self) hx
      · exact Or.inl ⟨hu, hx, hn⟩
  constructor
  · intro hct
    ext x
    rw [hct.mem_head_iff, hmem x]
  · intro heq
    refine ⟨?_, ?_, ?_⟩
    · intro t ht
      rcases List.mem_cons.mp ht with rfl | ht
      · exact hc
      · exact h.le t (by simp [ht])
    · refine List.pairwise_cons.mpr ⟨?_, ?_⟩
      · intro t ht
        rw [heq, Set.disjoint_union_left]
        exact ⟨h.head_disjoint (List.mem_cons_of_mem _ ht), hb.head_disjoint (List.mem_cons_of_mem _ ht)⟩
      · exact (List.pairwise_cons.mp (List.pairwise_cons.mp h.disjoint).2).2
    · intro x
      rw [h.cover x]
      simp only [List.mem_cons, exists_eq_or_imp, heq, Set.mem_union, or_assoc]

end Tiles

/-! ### Integer intervals -/

section Integers

variable {a b c d : ℤ}

lemma Icc_split_union (h1 : a < c) (h2 : c ≤ b) : Set.Icc a b = Set.Icc a (c - 1) ∪ Set.Icc c b := by
  ext x
  simp only [Set.mem_Icc, Set.mem_union]
  omega

lemma Icc_split_disjoint : Disjoint (Set.Icc a (c - 1)) (Set.Icc c b) := by
  rw [Set.disjoint_left]
  intro x hx hy
  have h1 := hx.2
  have h2 := hy.1
  omega

/-- The hull of two separated intervals adds no point exactly when they are adjacent. -/
lemma Icc_hull_iff (hab : a ≤ b) (hcd : c ≤ d) (h : b < c) :
    Set.Icc a d = Set.Icc a b ∪ Set.Icc c d ↔ b + 1 = c := by
  constructor
  · intro he
    have hx : b + 1 ∈ Set.Icc a d := ⟨by omega, by omega⟩
    rw [he] at hx
    rcases hx with hx | hx
    · have := hx.2
      omega
    · have := hx.1
      omega
  · intro he
    ext x
    simp only [Set.mem_Icc, Set.mem_union]
    omega

end Integers
