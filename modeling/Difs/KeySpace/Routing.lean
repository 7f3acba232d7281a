import Difs.KeySpace.Handle
import Difs.Lib.Tiling

/-!
# Routing by ranges

The text of an entry denotes a labelled range of first-byte values. On files whose ranges
lie in `0..255`, `findStorage` compares text prefixes but computes the first-match owner of
the hash's leading byte.
-/

namespace Difs

open HexText

/-- The values a hash is routed by. -/
def keySpace : Set ℤ := Set.Icc 0 255

/-- The labelled range that the text of an entry denotes. -/
def KeySpaceNode.span (node : KeySpaceNode) : Option (Span String ℤ) :=
  match stoi16 node.startText, stoi16 node.endText with
  | some start, some stop => some ⟨node.node, start, stop⟩
  | _, _ => none

def spans (file : KeySpaceFile) : List (Span String ℤ) := file.filterMap KeySpaceNode.span

/-- Every bound parses, and the ranges are nonempty and partition `0..255`. -/
structure IsPartition (file : KeySpaceFile) : Prop where
  parses : ∀ node ∈ file, node.span.isSome
  tiles : Tiles (spans file) keySpace

/-- Forty lower-case hexadecimal digits. -/
structure IsHash (hash : String) : Prop where
  length : hash.toList.length = 40
  digits : ∀ c ∈ hash.toList, c ∈ lowerDigits

instance (hash : String) : Decidable (IsHash hash) :=
  decidable_of_iff (hash.toList.length = 40 ∧ hash.toList.all (fun c => decide (c ∈ lowerDigits)))
    ⟨fun h => ⟨h.1, by simpa using h.2⟩, fun h => ⟨h.length, by simpa using h.digits⟩⟩

def firstByte (hash : String) : ℤ := leadingByte hash.toList

lemma span_eq_some_iff {node : KeySpaceNode} {s : Span String ℤ} :
    node.span = some s ↔
      node.node = s.label ∧ stoi16 node.startText = some s.lo ∧ stoi16 node.endText = some s.hi := by
  unfold KeySpaceNode.span
  cases hs : stoi16 node.startText with
  | none => simp
  | some start =>
    cases he : stoi16 node.endText with
    | none => simp
    | some stop =>
      obtain ⟨l, lo, hi⟩ := s
      simp

lemma mem_spans {file : KeySpaceFile} {s : Span String ℤ} :
    s ∈ spans file ↔ ∃ node ∈ file, node.span = some s := List.mem_filterMap

lemma spans_append (f g : KeySpaceFile) : spans (f ++ g) = spans f ++ spans g := List.filterMap_append

lemma spans_cons {node : KeySpaceNode} {s : Span String ℤ} (h : node.span = some s) (f : KeySpaceFile) :
    spans (node :: f) = s :: spans f := List.filterMap_cons_some h

/-! ### Text prefixes of hashes -/

lemma toList_hexOfInt {v : ℤ} (h0 : 0 ≤ v) (h1 : v < 256) :
    (hexOfInt v).toList = Nat.toDigits 16 v.toNat := by
  have hv : v % 2 ^ 32 = v := Int.emod_eq_of_lt h0 (by omega)
  rw [hexOfInt, hv, String.toList_ofList]

namespace IsHash

variable {hash : String}

lemma two_le (h : IsHash hash) : 2 ≤ hash.toList.length := by
  have := h.length
  omega

lemma firstByte_mem (h : IsHash hash) : firstByte hash ∈ keySpace := by
  have := leadingByte_lt h.two_le h.digits
  exact ⟨by unfold firstByte; omega, by unfold firstByte; omega⟩

lemma exists_firstByte {b : ℕ} (hb : b < 256) : ∃ hash, IsHash hash ∧ firstByte hash = b := by
  have hdigit : ∀ d < 16, d.digitChar ∈ lowerDigits := by decide
  refine ⟨String.ofList ((b / 16).digitChar :: (b % 16).digitChar :: List.replicate 38 '0'), ⟨?_, ?_⟩, ?_⟩
  · rw [String.toList_ofList]
    simp
  · intro c hc
    rw [String.toList_ofList, List.mem_cons, List.mem_cons] at hc
    obtain rfl | rfl | hc := hc
    · exact hdigit _ (by omega)
    · exact hdigit _ (by omega)
    · rw [List.eq_of_mem_replicate hc]
      exact hdigit 0 (by omega)
  · unfold firstByte
    rw [String.toList_ofList, leadingByte_cons (by omega) (by omega)]
    omega

lemma startsWith_padded_iff (h : IsHash hash) {v : ℤ} (h0 : 0 ≤ v) (h1 : v < 256) :
    startsWith hash (formatPadded (hexOfInt v)) ↔ firstByte hash = v := by
  unfold startsWith formatPadded firstByte
  rw [String.toList_ofList, toList_hexOfInt h0 h1, List.isPrefixOf_iff_prefix,
    leftpad_toDigits_prefix_iff (by omega) h.two_le h.digits]
  omega

/-- Unpadded text of a value below 16 selects by the first digit alone. -/
lemma startsWith_hexOfInt_iff (h : IsHash hash) {v : ℤ} (h0 : 0 ≤ v) (h1 : v < 256) :
    startsWith hash (hexOfInt v) ↔ if v < 16 then firstByte hash / 16 = v else firstByte hash = v := by
  unfold startsWith firstByte
  rw [toList_hexOfInt h0 h1, List.isPrefixOf_iff_prefix,
    toDigits_prefix_iff (by omega) h.two_le h.digits]
  split_ifs <;> omega

end IsHash

lemma mem_rangeValues {start stop v : ℤ} : v ∈ rangeValues start stop ↔ start ≤ v ∧ v ≤ stop := by
  unfold rangeValues
  rw [List.mem_map]
  constructor
  · rintro ⟨i, hi, rfl⟩
    have := List.mem_range.mp hi
    omega
  · rintro ⟨h1, h2⟩
    exact ⟨(v - start).toNat, List.mem_range.mpr (by omega), by omega⟩

/-- A range within `0..255` has a value that a hash starts with when it has the leading byte. -/
lemma IsHash.any_padded_iff {hash : String} (h : IsHash hash) {start stop : ℤ} (h0 : 0 ≤ start)
    (h1 : start ≤ stop → stop ≤ 255) :
    (rangeValues start stop).any (fun v => startsWith hash (formatPadded (hexOfInt v))) = true ↔
      start ≤ firstByte hash ∧ firstByte hash ≤ stop := by
  rw [List.any_eq_true]
  constructor
  · intro hany
    obtain ⟨v, hv, hw⟩ := hany
    have hr := mem_rangeValues.mp hv
    rw [(h.startsWith_padded_iff (by omega) (by omega)).mp hw]
    exact hr
  · intro hr
    refine ⟨firstByte hash, mem_rangeValues.mpr hr, ?_⟩
    exact (h.startsWith_padded_iff (by omega) (by omega)).mpr rfl

/-! ### Routing is first-match lookup of the leading byte -/

theorem findStorage_eq_owner {file : KeySpaceFile} {hash : String} (h : IsHash hash)
    (hp : ∀ node ∈ file, node.span.isSome) (hb : ∀ s ∈ spans file, 0 ≤ s.lo ∧ s.hi ≤ 255) :
    findStorage hash file = some ((Span.owner (spans file) (firstByte hash)).getD "") := by
  induction file with
  | nil => rfl
  | cons node rest ih =>
    obtain ⟨s, hs⟩ := Option.isSome_iff_exists.mp (hp node List.mem_cons_self)
    obtain ⟨hn, h1, h2⟩ := span_eq_some_iff.mp hs
    rw [spans_cons hs] at hb ⊢
    obtain ⟨hlo, hhi⟩ := hb s List.mem_cons_self
    have hany : (rangeValues s.lo s.hi).any (fun v => startsWith hash (formatPadded (hexOfInt v))) =
        decide (s.lo ≤ firstByte hash ∧ firstByte hash ≤ s.hi) := by
      rw [Bool.eq_iff_iff, h.any_padded_iff hlo (fun _ => hhi), decide_eq_true_iff]
    have hrest := ih (fun n hn => hp n (List.mem_cons_of_mem _ hn))
      (fun t ht => hb t (List.mem_cons_of_mem _ ht))
    simp only [findStorage, h1, h2, hany, decide_eq_true_iff, Span.owner_cons, hrest, hn]
    split_ifs <;> rfl

namespace IsPartition

variable {file : KeySpaceFile} {hash : String}

lemma bounds (h : IsPartition file) {s : Span String ℤ} (hs : s ∈ spans file) :
    0 ≤ s.lo ∧ s.lo ≤ s.hi ∧ s.hi ≤ 255 := by
  have hle := h.tiles.le s hs
  have h1 := h.tiles.mem_of_mem_points hs (Span.lo_mem_points hle)
  have h2 := h.tiles.mem_of_mem_points hs (x := s.hi) ⟨hle, le_rfl⟩
  exact ⟨h1.1, hle, h2.2⟩

/-- On a partition every hash is routed to the one entry that has its leading byte. -/
theorem findStorage_eq_some_iff (h : IsPartition file) (hh : IsHash hash) {name : String} :
    findStorage hash file = some name ↔ ∃ s ∈ spans file, s.label = name ∧ firstByte hash ∈ s.points := by
  rw [findStorage_eq_owner hh h.parses (fun s hs => ⟨(h.bounds hs).1, (h.bounds hs).2.2⟩), Option.some_inj]
  obtain ⟨l, hl⟩ := Option.isSome_iff_exists.mp (h.tiles.owner_isSome_iff.mpr hh.firstByte_mem)
  rw [← h.tiles.owner_eq_some_iff, hl, Option.getD_some, Option.some_inj]

end IsPartition

end Difs
