import Difs.KeySpace.Leave

/-!
# Routes

On a partition the search for a hash ends at the one entry that has its leading byte. A join
takes from one node the hashes of the upper half of its range, and leaves all others where
they are.
-/

namespace Difs

open HexText EventRun

/-! ### One entry -/

section Exact

variable {h : KeySpaceHandle} {file pre post : KeySpaceFile} {it : KeySpaceNode} {s : Span String ℤ} {hash : String}

/-- The entry at one place of a partition has no byte in common with the others. -/
lemma IsPartition.not_mem_points_of_ne (hpart : IsPartition file) (heq : file = pre ++ it :: post)
    (hs : it.span = some s) {node : KeySpaceNode} (hm : node ∈ pre ++ post) {r : Span String ℤ}
    (hr : node.span = some r) {v : ℤ} (hv : v ∈ s.points) : v ∉ r.points := by
  have htiles : Tiles (s :: spans (pre ++ post)) keySpace := by
    apply hpart.tiles.perm
    rw [heq, spans_append, spans_append, spans_cons hs]
    exact List.perm_middle
  exact Set.disjoint_left.mp (htiles.head_disjoint (mem_spans.mpr ⟨node, hm, hr⟩)) hv

theorem getManifestStorage_of_partition (hf : h.mKeySpaceFile = some file) (hpart : IsPartition file)
    (hh : IsHash hash) :
    ∃ pre it post s, file = pre ++ it :: post ∧ it.span = some s ∧ firstByte hash ∈ s.points ∧
      (∀ node ∈ pre ++ post, ∀ r ∈ node.span, firstByte hash ∉ r.points) ∧
      h.getManifestStorage hash = some it.node ∧
      ((∀ node ∈ file, node.node ≠ "") → h.getManifestStorage hash ≠ some "") := by
  obtain ⟨s, hs, hv⟩ := (hpart.tiles.cover _).mp hh.firstByte_mem
  obtain ⟨it, hm, hit⟩ := mem_spans.mp hs
  obtain ⟨pre, post, heq⟩ := List.append_of_mem hm
  have hroute : h.getManifestStorage hash = some it.node := by
    unfold KeySpaceHandle.getManifestStorage
    rw [hf, Option.bind_some, hpart.findStorage_eq_some_iff hh]
    exact ⟨s, hs, (span_eq_some_iff.mp hit).1.symm, hv⟩
  refine ⟨pre, it, post, s, heq, hit, hv, ?_, hroute, ?_⟩
  · intro node hnode r hr
    exact hpart.not_mem_points_of_ne heq hit hnode hr hv
  · intro hnames hempty
    rw [hroute, Option.some_inj] at hempty
    exact hnames it hm hempty

lemma isPartition_afterTwoJoins : IsPartition (afterTwoJoins.mKeySpaceFile.getD []) := by
  have hrun : run addStep exampleManager.initKeySpaceFile twoJoins = some afterTwoJoins := rfl
  have hC := computed_run (computed_initKeySpaceFile exampleManager) (by decide) (by decide) hrun
  exact hC.isPartition rfl

/-- The three nodes listed in another order than that of their ranges. -/
def reordered : KeySpaceHandle :=
  { afterTwoJoins with mKeySpaceFile := some (afterTwoJoins.mKeySpaceFile.getD []).reverse }

lemma isPartition_reordered : IsPartition (reordered.mKeySpaceFile.getD []) where
  parses node hm := isPartition_afterTwoJoins.parses node (List.mem_reverse.mp hm)
  tiles := isPartition_afterTwoJoins.tiles.perm ((List.reverse_perm _).filterMap _).symm

theorem getManifestStorage_of_reordered :
    ∃ pre it post s, reordered.mKeySpaceFile.getD [] = pre ++ it :: post ∧ it.span = some s ∧
      firstByte "c0ffee0000000000000000000000000000000000" ∈ s.points ∧
      (∀ node ∈ pre ++ post, ∀ r ∈ node.span, firstByte "c0ffee0000000000000000000000000000000000" ∉ r.points) ∧
      reordered.getManifestStorage "c0ffee0000000000000000000000000000000000" = some it.node ∧
      ((∀ node ∈ reordered.mKeySpaceFile.getD [], node.node ≠ "") →
        reordered.getManifestStorage "c0ffee0000000000000000000000000000000000" ≠ some "") :=
  getManifestStorage_of_partition rfl isPartition_reordered (by decide)

end Exact

/-! ### A join -/

section Join

variable {h t : KeySpaceHandle} {c : AddNode} {file file' pre post : KeySpaceFile} {it : KeySpaceNode}
  {s : Span String ℤ} {rest : List (Span String ℤ)} {hash : String}

lemma rangeOf_append_singleton {node : KeySpaceNode} {nodeName : String} (hf : h.mKeySpaceFile = some (pre ++ [node]))
    (hpre : nodeName ∉ pre.map KeySpaceNode.node) (hn : node.node = nodeName) : h.rangeOf nodeName = node.span := by
  have hfind : (pre ++ [node]).find? (fun it => it.node = nodeName) = some node := by
    apply find_eq_some_iff.mpr
    refine ⟨pre, [], rfl, hn, ?_⟩
    intro it hm heq
    exact hpre (heq ▸ List.mem_map_of_mem hm)
  unfold KeySpaceHandle.rangeOf
  rw [hf, Option.bind_some, hfind, Option.bind_some]

/-- After a join the two halves stand for the range of the node that was split. -/
structure Halved (h t : KeySpaceHandle) (c : AddNode) (s : Span String ℤ) (rest : List (Span String ℤ))
    (file file' : KeySpaceFile) : Prop where
  old : h.mKeySpaceFile = some file
  new : t.mKeySpaceFile = some file'
  partition : IsPartition file
  partition' : IsPartition file'
  label : s.label = c.fromName
  kept : t.rangeOf c.fromName = some (keptRange s)
  given : t.rangeOf c.toName = some (givenRange s c.toName)
  oldPerm : (spans file).Perm (s :: rest)
  newPerm : (spans file').Perm (keptRange s :: givenRange s c.toName :: rest)

lemma exists_halved (hpart : h.Partitioned) (hs : h.rangeOf c.fromName = some s) (hlt : s.lo < s.hi)
    (hto : c.toName ∉ h.nodeNames) :
    ∃ t rest file file', addStep h c = some t ∧ Halved h t c s rest file file' := by
  obtain ⟨file, hf, hpart⟩ := hpart
  obtain ⟨it, hit, hspan⟩ := Option.bind_eq_some_iff.mp hs
  rw [hf, Option.bind_some] at hit
  obtain ⟨pre, post, hfe⟩ := find_eq_some_iff.mp hit
  have hC : Computed h (spans file) := ⟨(parsesTo_iff hf).mpr ⟨hpart.parses, rfl⟩, hpart.tiles⟩
  have ht := addStep_eq hf hfe hspan
  have hCt := hC.split hf hfe hspan hlt ht
  have hb := hpart.bounds (mem_spans.mpr ⟨it, by simp [hfe.eq], hspan⟩)
  have hsplit := split_bounds hlt
  have hnames : (pre ++ keptNode it s :: post).map KeySpaceNode.node = file.map KeySpaceNode.node := by
    rw [hfe.eq, List.map_append, List.map_append, List.map_cons, List.map_cons]
    rfl
  rw [KeySpaceHandle.nodeNames_eq hf, ← hnames] at hto
  refine ⟨_, spans pre ++ spans post, file, pre ++ keptNode it s :: post ++ [givenNode s c.toName], ht, hf, rfl, hpart,
    hCt.isPartition rfl, ?_, ?_, ?_, ?_, ?_⟩
  · rw [← (span_eq_some_iff.mp hspan).1, hfe.node]
  · have hfe' : FirstEntry (pre ++ keptNode it s :: post ++ [givenNode s c.toName]) c.fromName pre (keptNode it s)
        (post ++ [givenNode s c.toName]) := ⟨by simp, hfe.node, hfe.first⟩
    rw [rangeOf_eq rfl hfe']
    apply keptNode_span hspan <;> unfold keptRange <;> dsimp only <;> omega
  · rw [rangeOf_append_singleton rfl hto rfl]
    apply givenNode_span <;> unfold givenRange <;> dsimp only <;> omega
  · rw [spans_around hfe hspan]
    exact List.perm_middle
  · rw [((parsesTo_iff rfl).mp hCt.parsesTo).2, joinSpans_around hfe hspan]
    exact joined_perm

namespace Halved

lemma rest_labels (hv : Halved h t c s rest file file') (hto : c.toName ∉ h.nodeNames) :
    ∀ q ∈ s :: rest, q.label ≠ c.toName := by
  intro q hq heq
  obtain ⟨node, hm, hn⟩ := mem_spans.mp (hv.oldPerm.mem_iff.mpr hq)
  rw [KeySpaceHandle.nodeNames_eq hv.old] at hto
  apply hto
  rw [← heq, ← (span_eq_some_iff.mp hn).1]
  exact List.mem_map_of_mem hm

lemma getManifestStorage_old (hv : Halved h t c s rest file file') (hh : IsHash hash) {q : Span String ℤ}
    (hq : q ∈ s :: rest) (hx : firstByte hash ∈ q.points) : h.getManifestStorage hash = some q.label := by
  unfold KeySpaceHandle.getManifestStorage
  rw [hv.old, Option.bind_some, hv.partition.findStorage_eq_some_iff hh]
  exact ⟨q, hv.oldPerm.mem_iff.mpr hq, rfl, hx⟩

lemma getManifestStorage_new (hv : Halved h t c s rest file file') (hh : IsHash hash) {name : String} :
    t.getManifestStorage hash = some name ↔
      ∃ q ∈ keptRange s :: givenRange s c.toName :: rest, q.label = name ∧ firstByte hash ∈ q.points := by
  unfold KeySpaceHandle.getManifestStorage
  rw [hv.new, Option.bind_some, hv.partition'.findStorage_eq_some_iff hh]
  exact exists_congr (fun q => and_congr_left (fun _ => hv.newPerm.mem_iff))

lemma routes_to_iff (hv : Halved h t c s rest file file') (hto : c.toName ∉ h.nodeNames) (hh : IsHash hash) :
    t.getManifestStorage hash = some c.toName ↔ firstByte hash ∈ (givenRange s c.toName).points := by
  have hlabels := hv.rest_labels hto
  rw [hv.getManifestStorage_new hh]
  constructor
  · intro hroute
    obtain ⟨q, hq, hlabel, hx⟩ := hroute
    rw [List.mem_cons, List.mem_cons] at hq
    obtain rfl | rfl | hq := hq
    · exact absurd hlabel (hlabels s List.mem_cons_self)
    · exact hx
    · exact absurd hlabel (hlabels q (List.mem_cons_of_mem s hq))
  · intro hx
    exact ⟨givenRange s c.toName, by simp, rfl, hx⟩

lemma routes_as_before (hv : Halved h t c s rest file file') (hh : IsHash hash)
    (hx : firstByte hash ∉ (givenRange s c.toName).points) :
    t.getManifestStorage hash = h.getManifestStorage hash := by
  obtain ⟨p, hp, hxp⟩ := (hv.partition.tiles.cover _).mp hh.firstByte_mem
  rw [hv.oldPerm.mem_iff, List.mem_cons] at hp
  obtain rfl | hp := hp
  · rw [hv.getManifestStorage_old hh List.mem_cons_self hxp, hv.getManifestStorage_new hh]
    refine ⟨keptRange p, List.mem_cons_self, rfl, ?_⟩
    rw [Span.mem_points] at hx hxp ⊢
    unfold givenRange at hx
    unfold keptRange
    dsimp only at hx ⊢
    omega
  · rw [hv.getManifestStorage_old hh (List.mem_cons_of_mem s hp) hxp, hv.getManifestStorage_new hh]
    exact ⟨p, by simp [hp], rfl, hxp⟩

end Halved

theorem join_moves_upper_half (hpart : h.Partitioned) (hs : h.rangeOf c.fromName = some s) (hlt : s.lo < s.hi)
    (hto : c.toName ∉ h.nodeNames) :
    ∃ t, addStep h c = some t ∧
      t.rangeOf c.fromName = some ⟨c.fromName, s.lo, s.hi - (s.hi - s.lo) / 2 - 1⟩ ∧
      t.rangeOf c.toName = some ⟨c.toName, s.hi - (s.hi - s.lo) / 2, s.hi⟩ ∧
      s.lo ≤ s.hi - (s.hi - s.lo) / 2 - 1 ∧ s.hi - (s.hi - s.lo) / 2 ≤ s.hi ∧
      ∀ hash, IsHash hash →
        (t.getManifestStorage hash = some c.toName ↔ firstByte hash ∈ Set.Icc (s.hi - (s.hi - s.lo) / 2) s.hi) ∧
        (firstByte hash ∉ Set.Icc (s.hi - (s.hi - s.lo) / 2) s.hi →
          t.getManifestStorage hash = h.getManifestStorage hash) := by
  obtain ⟨t, rest, file, file', ht, hv⟩ := exists_halved hpart hs hlt hto
  have hhalf : (s.hi - s.lo).tdiv 2 = (s.hi - s.lo) / 2 := Int.tdiv_eq_ediv_of_nonneg (by omega)
  have hsplit := split_bounds hlt
  have hkept := hv.kept
  have hgiven := hv.given
  have hroutes (hash : String) (hh : IsHash hash) := hv.routes_to_iff hto hh
  have hothers (hash : String) (hh : IsHash hash) := hv.routes_as_before hh
  unfold keptRange at hkept
  unfold Span.points at hroutes hothers
  unfold givenRange at hgiven hroutes hothers
  rw [hv.label] at hkept
  rw [hhalf] at hsplit hkept hgiven
  simp only [hhalf] at hroutes hothers
  exact ⟨t, ht, hkept, hgiven, hsplit.1, hsplit.2, fun hash hh => ⟨hroutes hash hh, hothers hash hh⟩⟩

theorem join_moves_upper_half_three :
    ∃ t, addStep reordered ⟨"/a/repo", "/c/repo"⟩ = some t ∧
      t.rangeOf "/a/repo" = some ⟨"/a/repo", 128, 191 - (191 - 128) / 2 - 1⟩ ∧
      t.rangeOf "/c/repo" = some ⟨"/c/repo", 191 - (191 - 128) / 2, 191⟩ ∧
      (128 : ℤ) ≤ 191 - (191 - 128) / 2 - 1 ∧ (191 : ℤ) - (191 - 128) / 2 ≤ 191 ∧
      ∀ hash, IsHash hash →
        (t.getManifestStorage hash = some "/c/repo" ↔ firstByte hash ∈ Set.Icc (191 - (191 - 128) / 2) 191) ∧
        (firstByte hash ∉ Set.Icc (191 - (191 - 128) / 2) 191 →
          t.getManifestStorage hash = reordered.getManifestStorage hash) :=
  join_moves_upper_half (h := reordered) (c := ⟨"/a/repo", "/c/repo"⟩) (s := ⟨"/a/repo", 128, 191⟩)
    ⟨_, rfl, isPartition_reordered⟩ (by decide) (by decide) (by decide)

end Join

end Difs
