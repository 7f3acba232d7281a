import Difs.KeySpace.Routing
import Difs.Lib.EventRun

/-!
# Joins

Runs of add-node commands from the file that `initKeySpaceFile` writes. Next to the file runs
the list of the ranges the handler computed. The texts stay the computed ranges and these stay
a partition as long as every command splits a range of at least two values: a range of one
value `v` leaves `v..v-1` behind.
-/

namespace Difs

open HexText EventRun

structure AddNode where
  fromName : String
  toName : String
deriving DecidableEq, Repr

def addStep (h : KeySpaceHandle) (c : AddNode) : Option KeySpaceHandle :=
  if (h.handleAddCommand c.fromName c.toName).threw then none
  else some (h.handleAddCommand c.fromName c.toName).handle

def KeySpaceHandle.nodeNames (h : KeySpaceHandle) : List String :=
  (h.mKeySpaceFile.getD []).map KeySpaceNode.node

lemma KeySpaceHandle.nodeNames_eq {h : KeySpaceHandle} {file : KeySpaceFile} (hf : h.mKeySpaceFile = some file) :
    h.nodeNames = file.map KeySpaceNode.node := by
  unfold KeySpaceHandle.nodeNames
  rw [hf, Option.getD_some]

/-- `from` is listed and `to` is not. -/
def Fresh (h : KeySpaceHandle) (c : AddNode) : Prop :=
  c.fromName ∈ h.nodeNames ∧ c.toName ∉ h.nodeNames

instance (h : KeySpaceHandle) (c : AddNode) : Decidable (Fresh h c) := inferInstanceAs (Decidable (_ ∧ _))

/-- The range of the first entry of a node. -/
def KeySpaceHandle.rangeOf (h : KeySpaceHandle) (nodeName : String) : Option (Span String ℤ) :=
  (h.mKeySpaceFile.bind (fun file => file.find? (fun node => node.node = nodeName))).bind KeySpaceNode.span

/-- The range of `from` has at least two values. -/
def SplitsTwo (h : KeySpaceHandle) (c : AddNode) : Prop :=
  ∃ s ∈ h.rangeOf c.fromName, s.lo < s.hi

instance (h : KeySpaceHandle) (c : AddNode) : Decidable (SplitsTwo h c) :=
  inferInstanceAs (Decidable (∃ s ∈ h.rangeOf c.fromName, s.lo < s.hi))

def keptRange (s : Span String ℤ) : Span String ℤ := { s with hi := s.hi - (s.hi - s.lo).tdiv 2 - 1 }

def givenRange (s : Span String ℤ) (toName : String) : Span String ℤ :=
  ⟨toName, s.hi - (s.hi - s.lo).tdiv 2, s.hi⟩

/-- A join on the ranges, before they are written as text. -/
def joinSpans (ring : List (Span String ℤ)) (c : AddNode) : List (Span String ℤ) :=
  match ring.find? (fun s => s.label = c.fromName) with
  | none => ring
  | some s =>
    ring.replaceF (fun s => if s.label = c.fromName then some (keptRange s) else none) ++
      [givenRange s c.toName]

/-- The text of every entry parses back to its range. -/
def ParsesTo (h : KeySpaceHandle) (ring : List (Span String ℤ)) : Prop :=
  h.mKeySpaceFile.map (fun file => file.map KeySpaceNode.span) = some (ring.map some)

instance (h : KeySpaceHandle) (ring : List (Span String ℤ)) : Decidable (ParsesTo h ring) :=
  inferInstanceAs (Decidable (_ = _))

/-- The text is that of the computed ranges, and these partition the key space. -/
structure Computed (h : KeySpaceHandle) (ring : List (Span String ℤ)) : Prop where
  parsesTo : ParsesTo h ring
  tiles : Tiles ring keySpace

/-! ### First entries -/

lemma replaceF_first {α : Type} {f : α → Option α} {pre post : List α} {x y : α}
    (hpre : ∀ a ∈ pre, f a = none) (hx : f x = some y) :
    (pre ++ x :: post).replaceF f = pre ++ y :: post := by
  induction pre with
  | nil => exact List.replaceF_cons_of_some f hx
  | cons a pre ih =>
    rw [List.cons_append, List.replaceF_cons_of_none f (hpre a List.mem_cons_self),
      ih (fun b hb => hpre b (List.mem_cons_of_mem _ hb)), List.cons_append]

lemma map_eq_map_some_iff {α β : Type} {f : α → Option β} {xs : List α} {ys : List β} :
    xs.map f = ys.map some ↔ (∀ a ∈ xs, (f a).isSome) ∧ xs.filterMap f = ys := by
  constructor
  · intro h
    refine ⟨fun a ha => ?_, ?_⟩
    · have hm : f a ∈ ys.map some := h ▸ List.mem_map_of_mem ha
      obtain ⟨y, -, hy⟩ := List.mem_map.mp hm
      exact Option.isSome_iff_exists.mpr ⟨y, hy.symm⟩
    · have hid := congrArg (List.filterMap id) h
      simpa [List.filterMap_map] using hid
  · intro h
    obtain ⟨hsome, rfl⟩ := h
    induction xs with
    | nil => rfl
    | cons x xs ih =>
      obtain ⟨y, hy⟩ := Option.isSome_iff_exists.mp (hsome x List.mem_cons_self)
      rw [List.filterMap_cons_some hy, List.map_cons, List.map_cons, hy,
        ih (fun a ha => hsome a (List.mem_cons_of_mem x ha))]

/-- The first entry of a node, with the entries around it. -/
structure FirstEntry (file : KeySpaceFile) (nodeName : String) (pre : KeySpaceFile) (it : KeySpaceNode)
    (post : KeySpaceFile) : Prop where
  eq : file = pre ++ it :: post
  node : it.node = nodeName
  first : ∀ node ∈ pre, node.node ≠ nodeName

lemma find_eq_some_iff {file : KeySpaceFile} {nodeName : String} {it : KeySpaceNode} :
    file.find? (fun node => node.node = nodeName) = some it ↔
      ∃ pre post, FirstEntry file nodeName pre it post := by
  rw [List.find?_eq_some_iff_append]
  constructor
  · intro h
    obtain ⟨hn, pre, post, heq, hfirst⟩ := h
    exact ⟨pre, post, heq, by simpa using hn, fun node hm => by simpa using hfirst node hm⟩
  · intro h
    obtain ⟨pre, post, heq, hn, hfirst⟩ := h
    exact ⟨by simpa using hn, pre, post, heq, fun node hm => by simpa using hfirst node hm⟩

lemma exists_firstEntry {file : KeySpaceFile} {nodeName : String}
    (h : nodeName ∈ file.map KeySpaceNode.node) : ∃ pre it post, FirstEntry file nodeName pre it post := by
  obtain ⟨node, hm, hn⟩ := List.mem_map.mp h
  have hsome : (file.find? (fun node => node.node = nodeName)).isSome :=
    List.find?_isSome.mpr ⟨node, hm, by simpa using hn⟩
  obtain ⟨it, hit⟩ := Option.isSome_iff_exists.mp hsome
  obtain ⟨pre, post, hfe⟩ := find_eq_some_iff.mp hit
  exact ⟨pre, it, post, hfe⟩

/-! ### One join -/

def keptNode (it : KeySpaceNode) (s : Span String ℤ) : KeySpaceNode :=
  { it with endText := "0x" ++ hexOfInt (keptRange s).hi }

def givenNode (s : Span String ℤ) (toName : String) : KeySpaceNode :=
  ⟨toName, "0x" ++ hexOfInt (givenRange s toName).lo, "0x" ++ hexOfInt (givenRange s toName).hi⟩

section Step

variable {h t : KeySpaceHandle} {c : AddNode} {file pre post : KeySpaceFile} {it : KeySpaceNode}
  {s : Span String ℤ} {ring : List (Span String ℤ)}

lemma rangeOf_eq (hf : h.mKeySpaceFile = some file) (hfe : FirstEntry file c.fromName pre it post) :
    h.rangeOf c.fromName = it.span := by
  unfold KeySpaceHandle.rangeOf
  rw [hf, Option.bind_some, find_eq_some_iff.mpr ⟨pre, post, hfe⟩, Option.bind_some]

lemma handleAddCommand_eq (hf : h.mKeySpaceFile = some file) (hfe : FirstEntry file c.fromName pre it post)
    (hs : it.span = some s) : h.handleAddCommand c.fromName c.toName =
      ({ { h with mFrom := c.fromName, mTo := c.toName } with
        mKeySpaceFile := some (pre ++ keptNode it s :: post ++
          [givenNode s c.toName]) }.nextVersion).onVersionCommand := by
  obtain ⟨-, h1, h2⟩ := span_eq_some_iff.mp hs
  have hfind := find_eq_some_iff.mpr ⟨pre, post, hfe⟩
  have hrep : file.replaceF (fun it => if it.node = c.fromName then some (keptNode it s) else none) =
      pre ++ keptNode it s :: post := by
    rw [hfe.eq]
    apply replaceF_first
    · intro node hm
      exact if_neg (hfe.first node hm)
    · exact if_pos hfe.node
  unfold keptNode keptRange at hrep
  simp only [KeySpaceHandle.handleAddCommand, hf, hfind, h1, h2, hrep]
  rfl

lemma addStep_eq (hf : h.mKeySpaceFile = some file) (hfe : FirstEntry file c.fromName pre it post)
    (hs : it.span = some s) :
    addStep h c = some { { h with mFrom := c.fromName, mTo := c.toName } with
      mKeySpaceFile := some (pre ++ keptNode it s :: post ++ [givenNode s c.toName]) }.nextVersion := by
  unfold addStep
  rw [handleAddCommand_eq hf hfe hs]
  rfl

lemma exists_file (hc : c.fromName ∈ h.nodeNames) :
    ∃ file pre it post, h.mKeySpaceFile = some file ∧ FirstEntry file c.fromName pre it post := by
  cases hf : h.mKeySpaceFile with
  | none =>
    unfold KeySpaceHandle.nodeNames at hc
    rw [hf] at hc
    cases hc
  | some file =>
    rw [KeySpaceHandle.nodeNames_eq hf] at hc
    obtain ⟨pre, it, post, hfe⟩ := exists_firstEntry hc
    exact ⟨file, pre, it, post, rfl, hfe⟩

lemma parsesTo_iff (hf : h.mKeySpaceFile = some file) :
    ParsesTo h ring ↔ (∀ node ∈ file, node.span.isSome) ∧ spans file = ring := by
  unfold ParsesTo spans
  rw [hf, Option.map_some, Option.some_inj, map_eq_map_some_iff]

lemma spans_around {nodeName : String} (hfe : FirstEntry file nodeName pre it post) (hs : it.span = some s) :
    spans file = spans pre ++ s :: spans post := by
  rw [hfe.eq, spans_append, spans_cons hs]

lemma joinSpans_around (hfe : FirstEntry file c.fromName pre it post) (hs : it.span = some s) :
    joinSpans (spans file) c = spans pre ++ keptRange s :: spans post ++ [givenRange s c.toName] := by
  have hlabel : s.label = c.fromName := by rw [← (span_eq_some_iff.mp hs).1, hfe.node]
  have hpre : ∀ r ∈ spans pre, r.label ≠ c.fromName := by
    intro r hr
    obtain ⟨node, hm, hn⟩ := mem_spans.mp hr
    rw [← (span_eq_some_iff.mp hn).1]
    exact hfe.first node hm
  have hfind : (spans file).find? (fun r => r.label = c.fromName) = some s := by
    rw [spans_around hfe hs, List.find?_eq_some_iff_append]
    exact ⟨by simpa using hlabel, spans pre, spans post, rfl, fun r hr => by simpa using hpre r hr⟩
  unfold joinSpans
  rw [hfind]
  dsimp only
  rw [spans_around hfe hs, replaceF_first (y := keptRange s)]
  · intro r hr
    exact if_neg (hpre r hr)
  · exact if_pos hlabel

/-- The two halves in front of the other ranges. -/
lemma joined_perm {toName : String} {before after : List (Span String ℤ)} :
    (before ++ keptRange s :: after ++ [givenRange s toName]).Perm
      (keptRange s :: givenRange s toName :: (before ++ after)) := by
  rw [List.append_assoc, List.cons_append]
  apply List.perm_middle.trans
  rw [← List.append_assoc]
  exact (List.perm_append_singleton _ _).cons _

lemma keptNode_span (hs : it.span = some s) (h0 : 0 ≤ (keptRange s).hi) (h1 : (keptRange s).hi < 2 ^ 31) :
    (keptNode it s).span = some (keptRange s) := by
  obtain ⟨hn, hlo, -⟩ := span_eq_some_iff.mp hs
  exact span_eq_some_iff.mpr ⟨hn, hlo, stoi16_hexOfInt h0 h1⟩

lemma givenNode_span {toName : String} (h0 : 0 ≤ (givenRange s toName).lo) (h1 : 0 ≤ (givenRange s toName).hi)
    (h2 : (givenRange s toName).lo < 2 ^ 31) (h3 : (givenRange s toName).hi < 2 ^ 31) :
    (givenNode s toName).span = some (givenRange s toName) :=
  span_eq_some_iff.mpr ⟨rfl, stoi16_hexOfInt h0 h2, stoi16_hexOfInt h1 h3⟩

lemma split_bounds (hlt : s.lo < s.hi) :
    s.lo ≤ s.hi - (s.hi - s.lo).tdiv 2 - 1 ∧ s.hi - (s.hi - s.lo).tdiv 2 ≤ s.hi := by
  rw [Int.tdiv_eq_ediv_of_nonneg (by omega)]
  omega

lemma Computed.isPartition (hC : Computed h ring) (hf : h.mKeySpaceFile = some file) : IsPartition file := by
  obtain ⟨hp, hr⟩ := (parsesTo_iff hf).mp hC.parsesTo
  exact ⟨hp, hr ▸ hC.tiles⟩

/-- The texts of both halves parse back, whether the other ranges tile the key space or not. -/
lemma parsesTo_addStep (hf : h.mKeySpaceFile = some file) (hp : ∀ node ∈ file, node.span.isSome)
    (hfe : FirstEntry file c.fromName pre it post) (hs : it.span = some s) (h0 : 0 ≤ s.lo) (hlt : s.lo < s.hi)
    (h1 : s.hi ≤ 255) (ht : addStep h c = some t) : ParsesTo t (joinSpans (spans file) c) := by
  have hsplit := split_bounds hlt
  have hkept : (keptNode it s).span = some (keptRange s) :=
    keptNode_span hs (by simp only [keptRange]; omega) (by simp only [keptRange]; omega)
  have hgiven : (givenNode s c.toName).span = some (givenRange s c.toName) := by
    apply givenNode_span <;> unfold givenRange <;> dsimp only <;> omega
  rw [joinSpans_around hfe hs]
  rw [addStep_eq hf hfe hs, Option.some_inj] at ht
  subst ht
  rw [parsesTo_iff rfl]
  constructor
  · intro node hm
    rw [hfe.eq] at hp
    simp only [List.mem_append, List.mem_cons, List.not_mem_nil, or_false] at hm hp
    obtain (hm | rfl | hm) | rfl := hm
    · exact hp node (Or.inl hm)
    · exact Option.isSome_of_mem hkept
    · exact hp node (Or.inr (Or.inr hm))
    · exact Option.isSome_of_mem hgiven
  · rw [spans_append, spans_append, spans_cons hkept, spans_cons hgiven]
    rfl

theorem Computed.split (hC : Computed h ring) (hf : h.mKeySpaceFile = some file)
    (hfe : FirstEntry file c.fromName pre it post) (hs : it.span = some s) (hlt : s.lo < s.hi)
    (ht : addStep h c = some t) : Computed t (joinSpans ring c) := by
  obtain ⟨hp, rfl⟩ := (parsesTo_iff hf).mp hC.parsesTo
  have hb := (hC.isPartition hf).bounds (s := s) (by simp [spans_around hfe hs])
  refine ⟨parsesTo_addStep hf hp hfe hs hb.1 hlt hb.2.2 ht, ?_⟩
  have hsplit := split_bounds hlt
  have hperm : (spans pre ++ s :: spans post).Perm (s :: (spans pre ++ spans post)) := List.perm_middle
  have htiles := (spans_around hfe hs ▸ hC.tiles).perm hperm
  have hparts := htiles.split (a := keptRange s) (b := givenRange s c.toName)
    hsplit.1 hsplit.2 Icc_split_disjoint (Icc_split_union (by omega) hsplit.2)
  rw [joinSpans_around hfe hs]
  exact hparts.perm joined_perm.symm

/-- The converse: what is kept of a one-value range is empty. -/
theorem Computed.of_split (hC : Computed h ring) (hf : h.mKeySpaceFile = some file)
    (hfe : FirstEntry file c.fromName pre it post) (hs : it.span = some s)
    (ht : Tiles (joinSpans ring c) keySpace) : s.lo < s.hi := by
  obtain ⟨-, rfl⟩ := (parsesTo_iff hf).mp hC.parsesTo
  have hle := hC.tiles.le s (by simp [spans_around hfe hs])
  rw [joinSpans_around hfe hs] at ht
  have hkept : s.lo ≤ s.hi - (s.hi - s.lo).tdiv 2 - 1 := ht.le (keptRange s) (by simp)
  rw [Int.tdiv_eq_ediv_of_nonneg (by omega)] at hkept
  omega

/-- One join from a computed state: it goes through, and its result is computed exactly when
the range split had two values. -/
theorem Computed.step_iff (hC : Computed h ring) (hc : c.fromName ∈ h.nodeNames) :
    ∃ t, addStep h c = some t ∧ (Computed t (joinSpans ring c) ↔ SplitsTwo h c) := by
  obtain ⟨file, pre, it, post, hf, hfe⟩ := exists_file hc
  obtain ⟨s, hs⟩ : ∃ s, it.span = some s := by
    apply Option.isSome_iff_exists.mp
    exact (hC.isPartition hf).parses it (by simp [hfe.eq])
  refine ⟨_, addStep_eq hf hfe hs, ?_⟩
  unfold SplitsTwo
  rw [rangeOf_eq hf hfe, hs]
  constructor
  · intro ht
    exact ⟨s, rfl, hC.of_split hf hfe hs ht.tiles⟩
  · intro hsplit
    obtain ⟨r, hr, hlt⟩ := hsplit
    cases hr
    exact hC.split hf hfe hs hlt (addStep_eq hf hfe hs)

end Step

/-! ### Runs -/

def initialRing (h : KeySpaceHandle) : List (Span String ℤ) := [⟨h.mRepoPrefix, 0, 255⟩]

lemma computed_initKeySpaceFile (h : KeySpaceHandle) : Computed h.initKeySpaceFile (initialRing h) where
  parsesTo := by
    have h0 : stoi16 "0x00" = some 0 := by decide
    have h1 : stoi16 "0xff" = some 255 := by decide
    simp [ParsesTo, KeySpaceHandle.initKeySpaceFile, KeySpaceHandle.nextVersion, KeySpaceNode.span, h0, h1,
      initialRing]
  tiles := Tiles.singleton (show (0 : ℤ) ≤ 255 by decide)

/-- A run that splits ranges of at least two values stays computed. -/
theorem computed_run {h t : KeySpaceHandle} {ring : List (Span String ℤ)} {cmds : List AddNode}
    (hC : Computed h ring) (hfresh : Meets addStep Fresh h cmds) (htwo : Meets addStep SplitsTwo h cmds)
    (hrun : run addStep h cmds = some t) : Computed t (cmds.foldl joinSpans ring) := by
  induction cmds generalizing h ring with
  | nil =>
    cases hrun
    exact hC
  | cons c cmds ih =>
    obtain ⟨u, hu, hut⟩ := run_cons_eq_some.mp hrun
    obtain ⟨u', hu', hiff⟩ := hC.step_iff hfresh.1.1
    rw [hu] at hu'
    cases hu'
    exact ih (hiff.mpr htwo.1) (hfresh.2 u hu) (htwo.2 u hu) hut

/-- The partition and its text hold in every state of a run exactly when every join splits a
range of at least two values. -/
theorem joins_computed_iff (h : KeySpaceHandle) (cmds : List AddNode)
    (hfresh : Meets addStep Fresh h.initKeySpaceFile cmds) :
    (∀ pre t, pre <+: cmds → run addStep h.initKeySpaceFile pre = some t →
        Computed t (pre.foldl joinSpans (initialRing h))) ↔
      Meets addStep SplitsTwo h.initKeySpaceFile cmds := by
  constructor
  · intro hall
    rw [meets_iff]
    intro ds c us t heq hrun
    have hC := hall ds t ⟨c :: us, heq.symm⟩ hrun
    obtain ⟨u, hu, hiff⟩ := hC.step_iff (meets_iff.mp hfresh ds c us t heq hrun).1
    apply hiff.mp
    have hnext := hall (ds ++ [c]) u ⟨us, by simp [heq]⟩ (run_snoc_eq_some.mpr ⟨t, hrun, hu⟩)
    rwa [List.foldl_append] at hnext
  · intro htwo pre t hpre hrun
    exact computed_run (computed_initKeySpaceFile h) (hfresh.of_isPrefix hpre) (htwo.of_isPrefix hpre) hrun

def exampleManager : KeySpaceHandle :=
  { mRepoPrefix := "/m/repo", mManagerPrefix := "/m/repo", mStart := 0, mEnd := 0 }

theorem joins_computed_three :
    Meets addStep Fresh exampleManager.initKeySpaceFile
        [⟨"/m/repo", "/a/repo"⟩, ⟨"/a/repo", "/b/repo"⟩, ⟨"/m/repo", "/c/repo"⟩] ∧
      ∀ pre t, pre <+: [⟨"/m/repo", "/a/repo"⟩, ⟨"/a/repo", "/b/repo"⟩, ⟨"/m/repo", "/c/repo"⟩] →
        run addStep exampleManager.initKeySpaceFile pre = some t →
        Computed t (pre.foldl joinSpans (initialRing exampleManager)) := by
  have hfresh : Meets addStep Fresh exampleManager.initKeySpaceFile
      [⟨"/m/repo", "/a/repo"⟩, ⟨"/a/repo", "/b/repo"⟩, ⟨"/m/repo", "/c/repo"⟩] := by decide
  exact ⟨hfresh, (joins_computed_iff exampleManager _ hfresh).mpr (by decide)⟩

/-- Nine joins from the manager: the eighth leaves it the one value `0`, the ninth the bounds
`0` and `-1`, written as `0x00` and `0xffffffff`. -/
def nineJoins : List AddNode :=
  ["/1", "/2", "/3", "/4", "/5", "/6", "/7", "/8", "/9"].map (fun toName => ⟨"/m/repo", toName⟩)

theorem nine_joins_not_computed :
    Meets addStep Fresh exampleManager.initKeySpaceFile nineJoins ∧
      ∃ t, run addStep exampleManager.initKeySpaceFile nineJoins = some t ∧
        ¬ ParsesTo t (nineJoins.foldl joinSpans (initialRing exampleManager)) ∧
        ¬ Tiles (nineJoins.foldl joinSpans (initialRing exampleManager)) keySpace := by
  refine ⟨by decide, _, rfl, by decide, ?_⟩
  intro ht
  have hle := ht.le ⟨"/m/repo", 0, -1⟩ (by decide)
  exact absurd hle (by decide)

end Difs
