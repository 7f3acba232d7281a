import Difs.KeySpace.Leave

/-!
# Leaves that undo joins

A joiner that leaves to the node it split gives back exactly the upper half that it got, since
the merge moves the end of a range that starts below. In a well-nested sequence of such pairs
the file lists the same ranges in the same order at the end as at the start. The texts may
differ: a bound that was `0x0f` comes back as `0xf`.
-/

namespace Difs

open HexText EventRun

/-- Every leave is that of the latest joiner, to the node that it split. -/
inductive WellNested : List MembershipCommand → Prop where
  | nil : WellNested []
  | pair (fromName toName : String) (unassigned : ℤ × ℤ) {inner rest : List MembershipCommand}
      (hinner : WellNested inner)
      (hrest : WellNested rest) :
      WellNested (.addNode ⟨fromName, toName⟩ :: (inner ++ .delNode ⟨toName, fromName, unassigned⟩ :: rest))

/-- A join splits a range of at least two values for a node that is not listed. -/
def JoinsApart (h : KeySpaceHandle) : MembershipCommand → Prop
  | .addNode c => Fresh h c ∧ SplitsTwo h c
  | .delNode _ => True

instance (h : KeySpaceHandle) : DecidablePred (JoinsApart h)
  | .addNode c => inferInstanceAs (Decidable (Fresh h c ∧ SplitsTwo h c))
  | .delNode _ => inferInstanceAs (Decidable True)

/-- Ranges of distinct nodes within `0..255`, which may overlap or leave gaps. -/
structure ByteRanges (ring : List (Span String ℤ)) : Prop where
  nodup : (ring.map Span.label).Nodup
  bounds : ∀ s ∈ ring, 0 ≤ s.lo ∧ s.lo ≤ s.hi ∧ s.hi ≤ 255

section Pair

variable {h t : KeySpaceHandle} {c : AddNode} {file pre post : KeySpaceFile} {it : KeySpaceNode}
  {s : Span String ℤ} {ring before after : List (Span String ℤ)}

lemma names_of_parsesTo (hf : h.mKeySpaceFile = some file) (hp : ParsesTo h ring) :
    file.map KeySpaceNode.node = ring.map Span.label := by
  obtain ⟨hsome, rfl⟩ := (parsesTo_iff hf).mp hp
  exact (labels_spans hsome).symm

lemma ByteRanges.halves (hr : ByteRanges (before ++ s :: after)) (hlt : s.lo < s.hi) {toName : String}
    (hto : toName ∉ (before ++ s :: after).map Span.label) :
    ByteRanges (before ++ keptRange s :: after ++ [givenRange s toName]) := by
  have hsplit := split_bounds hlt
  have hs := hr.bounds s (by simp)
  constructor
  · have hlabels : (before ++ keptRange s :: after ++ [givenRange s toName]).map Span.label =
        (before ++ s :: after).map Span.label ++ [toName] := by
      simp [keptRange, givenRange]
    rw [hlabels]
    apply List.Nodup.append hr.nodup (List.nodup_singleton toName)
    exact List.disjoint_singleton.mpr hto
  · intro q hq
    simp only [List.mem_append, List.mem_cons, List.not_mem_nil, or_false] at hq
    obtain (hq | rfl | hq) | rfl := hq
    · exact hr.bounds q (by simp [hq])
    · unfold keptRange
      dsimp only
      omega
    · exact hr.bounds q (by simp [hq])
    · unfold givenRange
      dsimp only
      omega

/-- What was kept, grown by what was given, is the range before the split. -/
lemma grownRange_halves (hlt : s.lo < s.hi) (toName : String) : grownRange (givenRange s toName) (keptRange s) = s := by
  have hnot : ¬ (givenRange s toName).hi < (keptRange s).lo := by
    unfold givenRange keptRange
    dsimp only
    omega
  unfold grownRange
  rw [if_neg hnot]
  rfl

lemma exists_entries {a b : Span String ℤ}
    (hspans : file.map KeySpaceNode.span = (before ++ a :: after ++ [b]).map some) :
    ∃ pre it post last, file = pre ++ it :: post ++ [last] ∧ pre.map KeySpaceNode.span = before.map some ∧
      it.span = some a ∧ post.map KeySpaceNode.span = after.map some ∧ last.span = some b := by
  rw [List.map_append, List.map_append, List.map_cons] at hspans
  obtain ⟨init, tail, rfl, hinit, hlast⟩ := List.map_eq_append_iff.mp hspans
  obtain ⟨pre, tail, rfl, hpre, htail⟩ := List.map_eq_append_iff.mp hinit
  obtain ⟨it, post, rfl, hit, hpost⟩ := List.map_eq_cons_iff.mp htail
  obtain ⟨last, rfl, hspan⟩ := List.map_eq_singleton_iff.mp hlast
  exact ⟨pre, it, post, last, rfl, hpre, hit, hpost, hspan⟩

/-- The last entry leaves to the entry it was split from. -/
lemma delStep_halves (hp : ParsesTo h (before ++ keptRange s :: after ++ [givenRange s c.toName]))
    (hr : ByteRanges (before ++ keptRange s :: after ++ [givenRange s c.toName])) (hlt : s.lo < s.hi)
    (hlabel : s.label = c.fromName) (unassigned : ℤ × ℤ) :
    ∃ t, delStep h ⟨c.toName, c.fromName, unassigned⟩ = some t ∧ ParsesTo t (before ++ s :: after) := by
  obtain ⟨file, hf, hspans⟩ := Option.map_eq_some_iff.mp hp
  have hnodup := hr.nodup
  rw [← names_of_parsesTo hf hp] at hnodup
  obtain ⟨pre, it, post, last, rfl, hpre, hit, hpost, hlast⟩ := exists_entries hspans
  obtain ⟨hlastNode, h1, h2⟩ := span_eq_some_iff.mp hlast
  change last.node = c.toName at hlastNode
  have hitNode : it.node = c.fromName := (span_eq_some_iff.mp hit).1.trans hlabel
  have hgiven := hr.bounds (givenRange s c.toName) (by simp)
  rw [List.map_append, List.map_singleton, List.nodup_append] at hnodup
  obtain ⟨hnodup, -, hfresh⟩ := hnodup
  have hleaves : FirstEntry (pre ++ it :: post ++ [last]) c.toName (pre ++ it :: post) last [] := by
    refine ⟨rfl, hlastNode, ?_⟩
    intro node hm
    rw [← hlastNode]
    exact hfresh _ (List.mem_map_of_mem hm) _ (List.mem_singleton_self _)
  rw [List.map_append, List.map_cons, hitNode, List.nodup_append, List.nodup_cons] at hnodup
  obtain ⟨-, ⟨honce, -⟩, hfirst⟩ := hnodup
  have htakes : FirstEntry (pre ++ it :: post) c.fromName pre it post := by
    refine ⟨rfl, hitNode, ?_⟩
    intro node hm
    exact hfirst _ (List.mem_map_of_mem hm) _ List.mem_cons_self
  have hrange : leavingRange (pre ++ it :: post ++ [last]) c.toName unassigned =
      some ((givenRange s c.toName).lo, (givenRange s c.toName).hi) := by
    unfold leavingRange
    rw [find_eq_some_iff.mpr ⟨_, _, hleaves⟩]
    simp only [h1, h2]
  have htake := takeOver_first htakes hit honce (s := givenRange s c.toName)
  rw [← List.append_nil (pre ++ it :: post), ← eraseP_first (c := ⟨c.toName, c.fromName, unassigned⟩) hleaves] at htake
  refine ⟨_, delStep_eq_some_iff.mpr ⟨_, _, _, hf, hrange, htake, rfl⟩, ?_⟩
  change some (List.map _ _) = some _
  rw [List.map_append, List.map_cons, List.map_append, List.map_cons, hpre, hpost, grownNode_span hit hgiven,
    grownRange_halves hlt]

end Pair

/-! ### Sequences of pairs -/

theorem wellNested_run {cmds : List MembershipCommand} (hnested : WellNested cmds) :
    ∀ {h : KeySpaceHandle} {ring : List (Span String ℤ)}, ParsesTo h ring → ByteRanges ring →
      Meets memberStep JoinsApart h cmds → ∃ t, run memberStep h cmds = some t ∧ ParsesTo t ring := by
  induction hnested with
  | nil =>
    intro h ring hp _ _
    exact ⟨h, rfl, hp⟩
  | pair fromName toName unassigned hinner hrest ihinner ihrest =>
    rename_i inner rest
    intro h ring hp hr hmeets
    obtain ⟨⟨hfresh, htwo⟩, hmeets⟩ := hmeets
    obtain ⟨file, pre, it, post, s, hf, hfe, hs, hlt⟩ := htwo.exists_entry
    obtain ⟨hsome, rfl⟩ := (parsesTo_iff hf).mp hp
    have hadd := addStep_eq hf hfe hs
    have hb := hr.bounds s (by simp [spans_around hfe hs])
    have hto := hfresh.2
    rw [KeySpaceHandle.nodeNames_eq hf, names_of_parsesTo hf hp] at hto
    have hpu := parsesTo_addStep hf hsome hfe hs hb.1 hlt hb.2.2 hadd
    rw [joinSpans_around hfe hs] at hpu
    rw [spans_around hfe hs] at hr hto ⊢
    have hru := hr.halves hlt hto
    have hinnerMeets := hmeets _ hadd
    obtain ⟨v, hv, hpv⟩ := ihinner hpu hru (hinnerMeets.of_isPrefix (List.prefix_append _ _))
    have hlabel : s.label = fromName := (span_eq_some_iff.mp hs).1.symm.trans hfe.node
    obtain ⟨w, hw, hpw⟩ := delStep_halves (c := ⟨fromName, toName⟩) hpv hru hlt hlabel unassigned
    obtain ⟨t, ht, hpt⟩ := ihrest hpw hr ((hinnerMeets.of_append hv).2 w hw)
    refine ⟨t, ?_, hpt⟩
    apply run_cons_eq_some.mpr
    refine ⟨_, hadd, run_append_eq_some.mpr ⟨v, hv, ?_⟩⟩
    exact run_cons_eq_some.mpr ⟨w, hw, ht⟩

theorem leaves_undo_joins {h : KeySpaceHandle} {ring : List (Span String ℤ)} {cmds : List MembershipCommand}
    (hp : ParsesTo h ring) (hr : ByteRanges ring) (hnested : WellNested cmds)
    (hjoins : Meets memberStep JoinsApart h cmds) :
    ∃ t, run memberStep h cmds = some t ∧ ParsesTo t ring :=
  wellNested_run hnested hp hr hjoins

/-- Two ranges that overlap. -/
def overlapping : KeySpaceHandle :=
  { exampleManager with mKeySpaceFile := some [⟨"/m/repo", "0x05", "0x0f"⟩, ⟨"/a/repo", "0x0a", "0xff"⟩] }

/-- Both nodes split their range, the second inside the pair of the first, and the first joiner
has a pair of its own. -/
def nestedPairs : List MembershipCommand :=
  [.addNode ⟨"/m/repo", "/b/repo"⟩, .addNode ⟨"/a/repo", "/c/repo"⟩, .delNode ⟨"/c/repo", "/a/repo", 0, 0⟩,
    .addNode ⟨"/b/repo", "/c/repo"⟩, .delNode ⟨"/c/repo", "/b/repo", 0, 0⟩, .delNode ⟨"/b/repo", "/m/repo", 0, 0⟩,
    .addNode ⟨"/m/repo", "/b/repo"⟩, .delNode ⟨"/b/repo", "/m/repo", 0, 0⟩]

lemma wellNested_nestedPairs : WellNested nestedPairs := by
  have hlater := WellNested.pair "/b/repo" "/c/repo" (0, 0) .nil .nil
  have hinner := WellNested.pair "/a/repo" "/c/repo" (0, 0) .nil hlater
  have hrest := WellNested.pair "/m/repo" "/b/repo" (0, 0) .nil .nil
  exact WellNested.pair "/m/repo" "/b/repo" (0, 0) hinner hrest

theorem leaves_undo_joins_overlapping :
    ∃ t, run memberStep overlapping nestedPairs = some t ∧
      ParsesTo t [⟨"/m/repo", 5, 15⟩, ⟨"/a/repo", 10, 255⟩] :=
  leaves_undo_joins (h := overlapping) (by decide) ⟨by decide, by decide⟩ wellNested_nestedPairs (by decide)

end Difs
