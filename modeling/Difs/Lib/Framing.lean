import Mathlib

/-!
# Self-delimiting elements in a stream

A reader succeeds exactly on the lists that start with an element. Then no element is a proper
prefix of another, two splits of prefixes of one stream agree as far as the shorter one goes,
and the longest split ends where no further element starts. Only elements up to a limit count,
so that what stops a split may show in a buffer of that length.
-/

namespace Framing

variable {α β : Type*}

/-- `read` succeeds exactly on the lists that start with an element, and returns it. -/
structure Reads (read : List α → Option β) (size : β → ℕ) (IsElement : List α → β → Prop) : Prop where
  read_eq_some_iff : ∀ input b, read input = some b ↔ ∃ xs rest, input = xs ++ rest ∧ IsElement xs b
  size_eq : ∀ xs b, IsElement xs b → size b = xs.length
  ne_nil : ∀ xs b, IsElement xs b → xs ≠ []

/-- A list that is a sequence of elements within the limit. -/
inductive Splits (IsElement : List α → β → Prop) (limit : ℕ) : List α → List β → Prop where
  | nil : Splits IsElement limit [] []
  | cons {xs rest : List α} {b : β} {bs : List β} (hx : IsElement xs b) (hlimit : xs.length ≤ limit)
      (hrest : Splits IsElement limit rest bs) : Splits IsElement limit (xs ++ rest) (b :: bs)

/-- No element within the limit starts the list. -/
def Stuck (IsElement : List α → β → Prop) (limit : ℕ) (input : List α) : Prop :=
  ∀ xs b, IsElement xs b → xs.length ≤ limit → ¬ xs <+: input

/-- The longest prefix of a stream that splits, with its elements. -/
structure LongestSplit (IsElement : List α → β → Prop) (limit : ℕ) (stream pre : List α) (bs : List β) :
    Prop where
  isPrefix : pre <+: stream
  splits : Splits IsElement limit pre bs
  longest : ∀ pre' bs', pre' <+: stream → Splits IsElement limit pre' bs' → pre'.length ≤ pre.length

variable {read : List α → Option β} {size : β → ℕ} {IsElement : List α → β → Prop} {limit : ℕ}
  {xs ys input stream pre pre' rest : List α} {b c : β} {bs bs' : List β}

namespace Reads

lemma read_append (h : Reads read size IsElement) (hx : IsElement xs b) : read (xs ++ rest) = some b :=
  (h.read_eq_some_iff _ b).mpr ⟨xs, rest, rfl, hx⟩

/-- Elements that start one list are the same. -/
lemma eq_of_isPrefix (h : Reads read size IsElement) (hx : IsElement xs b) (hy : IsElement ys c)
    (hxp : xs <+: input) (hyp : ys <+: input) : xs = ys ∧ b = c := by
  obtain ⟨u, rfl⟩ := hxp
  obtain ⟨v, hv⟩ := hyp
  have hb : read (xs ++ u) = some b := h.read_append hx
  have hc : read (xs ++ u) = some c := hv ▸ h.read_append hy
  have hbc : b = c := Option.some.inj (hb.symm.trans hc)
  subst hbc
  have hlength : ys.length = xs.length := (h.size_eq ys b hy).symm.trans (h.size_eq xs b hx)
  exact ⟨(List.append_inj_left hv hlength).symm, rfl⟩

lemma size_pos (h : Reads read size IsElement) (hx : IsElement xs b) : 0 < xs.length :=
  List.length_pos_iff.mpr (h.ne_nil xs b hx)

lemma stuck_nil (h : Reads read size IsElement) : Stuck IsElement limit [] := by
  intro xs b hx _ hp
  exact h.ne_nil xs b hx (List.prefix_nil.mp hp)

/-- A failing read shows that the list and, from the limit on, every longer one is stuck. -/
lemma stuck_of_read (h : Reads read size IsElement) (hread : read input = none) :
    Stuck IsElement limit input := by
  intro xs b hx _ hp
  obtain ⟨rest, rfl⟩ := hp
  rw [h.read_append hx] at hread
  cases hread

lemma stuck_append_of_read (h : Reads read size IsElement) (hread : read input = none)
    (hlimit : limit ≤ input.length) : Stuck IsElement limit (input ++ rest) := by
  intro xs b hx hle hp
  have hstuck : Stuck IsElement limit input := h.stuck_of_read hread
  apply hstuck xs b hx hle
  exact List.prefix_of_prefix_length_le hp (List.prefix_append input rest) (hle.trans hlimit)

end Reads

/-! ### Splits -/

lemma Splits.append (h : Splits IsElement limit pre bs) (h' : Splits IsElement limit pre' bs') :
    Splits IsElement limit (pre ++ pre') (bs ++ bs') := by
  induction h with
  | nil => exact h'
  | cons hx hlimit _ ih =>
    rw [List.append_assoc, List.cons_append]
    exact Splits.cons hx hlimit ih

/-- A split of a prefix that ends where the stream is stuck goes on from every other split. -/
theorem Splits.extends (h : Reads read size IsElement) (hs : Splits IsElement limit pre' bs')
    (hp : pre' <+: pre ++ rest) (hpre : Splits IsElement limit pre bs) (hstuck : Stuck IsElement limit rest) :
    pre' <+: pre ∧ bs' <+: bs := by
  induction hs generalizing pre bs with
  | nil => exact ⟨List.nil_prefix, List.nil_prefix⟩
  | @cons xs tail b tailElements hx hlimit _ ih =>
    have hxp : xs <+: pre ++ rest := (List.prefix_append xs tail).trans hp
    cases hpre with
    | nil => exact absurd hxp (hstuck xs b hx hlimit)
    | @cons ys tail' c tailElements' hy hlimit' hrest =>
      have hyp : ys <+: ys ++ tail' ++ rest := (List.prefix_append ys tail').trans (List.prefix_append _ rest)
      obtain ⟨rfl, rfl⟩ := h.eq_of_isPrefix hx hy hxp hyp
      rw [List.append_assoc, List.prefix_append_right_inj] at hp
      obtain ⟨htail, helements⟩ := ih hp hrest
      exact ⟨(List.prefix_append_right_inj xs).mpr htail, List.cons_prefix_cons.mpr ⟨rfl, helements⟩⟩

/-- A split is the longest one exactly when the rest of the stream is stuck. -/
theorem longestSplit_iff (h : Reads read size IsElement) :
    LongestSplit IsElement limit stream pre bs ↔
      ∃ rest, stream = pre ++ rest ∧ Splits IsElement limit pre bs ∧ Stuck IsElement limit rest := by
  constructor
  · intro hl
    obtain ⟨rest, rfl⟩ := hl.isPrefix
    refine ⟨rest, rfl, hl.splits, ?_⟩
    intro xs b hx hlimit hp
    have hone : Splits IsElement limit xs [b] := by
      rw [← List.append_nil xs]
      exact Splits.cons hx hlimit Splits.nil
    have hle := hl.longest (pre ++ xs) (bs ++ [b]) ((List.prefix_append_right_inj pre).mpr hp)
      (hl.splits.append hone)
    have hpos := h.size_pos hx
    rw [List.length_append] at hle
    omega
  · intro hr
    obtain ⟨rest, rfl, hs, hstuck⟩ := hr
    refine ⟨List.prefix_append pre rest, hs, ?_⟩
    intro pre' bs' hp hs'
    exact (hs'.extends h hp hs hstuck).1.length_le

/-- The longest split is unique. -/
theorem LongestSplit.unique (h : Reads read size IsElement) (hl : LongestSplit IsElement limit stream pre bs)
    (hl' : LongestSplit IsElement limit stream pre' bs') : pre' = pre ∧ bs' = bs := by
  obtain ⟨rest, rfl, hs, hstuck⟩ := (longestSplit_iff h).mp hl
  obtain ⟨rest', hrest, hs', hstuck'⟩ := (longestSplit_iff h).mp hl'
  have hone := hs'.extends h hl'.isPrefix hs hstuck
  have htwo := hs.extends h (hrest ▸ hl.isPrefix) hs' hstuck'
  exact ⟨hone.1.eq_of_length_le htwo.1.length_le, hone.2.eq_of_length_le htwo.2.length_le⟩

end Framing
