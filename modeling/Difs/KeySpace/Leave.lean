import Difs.KeySpace.Join

/-!
# Leaves

Runs of joins and leaves from the initial file. `handleDeleteCommand` moves one bound of the
taking entry to a bound of the leaving one. The hull of the two ranges results, which is
their union exactly when they are adjacent.
-/

namespace Difs

open HexText EventRun

structure DelNode where
  fromName : String
  toName : String
  /-- What `fromStart` and `fromEnd` hold before an assignment. -/
  unassigned : ℤ × ℤ
deriving DecidableEq, Repr

def delStep (h : KeySpaceHandle) (c : DelNode) : Option KeySpaceHandle :=
  if (h.handleDeleteCommand c.fromName c.toName c.unassigned).threw then none
  else some (h.handleDeleteCommand c.fromName c.toName c.unassigned).handle

inductive MembershipCommand where
  | addNode (c : AddNode)
  | delNode (c : DelNode)

def memberStep (h : KeySpaceHandle) : MembershipCommand → Option KeySpaceHandle
  | .addNode c => addStep h c
  | .delNode c => delStep h c

namespace KeySpaceHandle

def Partitioned (h : KeySpaceHandle) : Prop := ∃ file, h.mKeySpaceFile = some file ∧ Difs.IsPartition file

/-- A partition with one entry a node. -/
structure RingInv (h : KeySpaceHandle) : Prop where
  partitioned : h.Partitioned
  nodup : h.nodeNames.Nodup

end KeySpaceHandle

/-- A join splits a range of at least two values for a new node, a leave keeps the partition. -/
def KeepsRing (h : KeySpaceHandle) : MembershipCommand → Prop
  | .addNode c => Fresh h c ∧ SplitsTwo h c
  | .delNode c => ∀ t, delStep h c = some t → t.Partitioned

section Join

variable {h t : KeySpaceHandle} {c : AddNode}

lemma SplitsTwo.exists_entry (htwo : SplitsTwo h c) :
    ∃ file pre it post s, h.mKeySpaceFile = some file ∧ FirstEntry file c.fromName pre it post ∧
      it.span = some s ∧ s.lo < s.hi := by
  obtain ⟨s, hs, hlt⟩ := htwo
  obtain ⟨it, hit, hspan⟩ := Option.bind_eq_some_iff.mp hs
  obtain ⟨file, hf, hfind⟩ := Option.bind_eq_some_iff.mp hit
  obtain ⟨pre, post, hfe⟩ := find_eq_some_iff.mp hfind
  exact ⟨file, pre, it, post, s, hf, hfe, hspan, hlt⟩

lemma partitioned_addStep (hp : h.Partitioned) (htwo : SplitsTwo h c) (ht : addStep h c = some t) :
    t.Partitioned := by
  obtain ⟨file, hf, hpart⟩ := hp
  obtain ⟨file', pre, it, post, s, hf', hfe, hs, hlt⟩ := htwo.exists_entry
  rw [hf, Option.some_inj] at hf'
  subst hf'
  have hC : Computed h (spans file) := ⟨(parsesTo_iff hf).mpr ⟨hpart.parses, rfl⟩, hpart.tiles⟩
  have hCt := hC.split hf hfe hs hlt ht
  rw [addStep_eq hf hfe hs, Option.some_inj] at ht
  subst ht
  exact ⟨_, rfl, hCt.isPartition rfl⟩

lemma nodup_addStep (hnodup : h.nodeNames.Nodup) (hfresh : Fresh h c) (htwo : SplitsTwo h c)
    (ht : addStep h c = some t) : t.nodeNames.Nodup := by
  obtain ⟨file, pre, it, post, s, hf, hfe, hs, -⟩ := htwo.exists_entry
  have hto := hfresh.2
  rw [addStep_eq hf hfe hs, Option.some_inj] at ht
  subst ht
  rw [KeySpaceHandle.nodeNames_eq hf, hfe.eq] at hnodup hto
  have hnames : ((pre ++ keptNode it s :: post ++ [givenNode s c.toName]).map KeySpaceNode.node) =
      (pre ++ it :: post).map KeySpaceNode.node ++ [c.toName] := by
    simp [keptNode, givenNode]
  change ((pre ++ keptNode it s :: post ++ [givenNode s c.toName]).map KeySpaceNode.node).Nodup
  rw [hnames]
  apply List.Nodup.append hnodup (List.nodup_singleton c.toName)
  exact List.disjoint_singleton.mpr hto

end Join

/-! ### One leave -/

section Leave

variable {h t : KeySpaceHandle} {c : DelNode} {file pre post : KeySpaceFile} {it : KeySpaceNode}
  {s r : Span String ℤ}

lemma takeOver_of_not_mem {toName stream : String} {fromStart fromEnd : ℤ}
    (hto : toName ∉ file.map KeySpaceNode.node) :
    takeOver toName fromStart fromEnd stream file = some file := by
  induction file with
  | nil => rfl
  | cons node file ih =>
    rw [List.map_cons, List.mem_cons, not_or] at hto
    rw [takeOver, if_neg (Ne.symm hto.1), ih hto.2, Option.map_some]

def grownRange (s r : Span String ℤ) : Span String ℤ :=
  if s.hi < r.lo then { r with lo := s.lo } else { r with hi := s.hi }

def grownNode (it : KeySpaceNode) (s r : Span String ℤ) : KeySpaceNode :=
  if s.hi < r.lo then { it with startText := "0x" ++ hexOfInt s.lo }
  else { it with endText := "0x" ++ hexOfInt s.hi }

lemma takeOver_first {toName : String} (hfe : FirstEntry file toName pre it post) (hr : it.span = some r)
    (honce : toName ∉ post.map KeySpaceNode.node) :
    takeOver toName s.lo s.hi "" file = some (pre ++ grownNode it s r :: post) := by
  obtain ⟨heq, hn, hfirst⟩ := hfe
  subst heq
  induction pre with
  | nil =>
    obtain ⟨-, h1, -⟩ := span_eq_some_iff.mp hr
    rw [List.nil_append, takeOver, if_pos hn, h1]
    unfold grownNode
    split_ifs with hlt
    · simp only [hlt, if_true, takeOver_of_not_mem honce, Option.map_some, String.empty_append,
        List.nil_append]
    · simp only [hlt, if_false, takeOver_of_not_mem honce, Option.map_some, String.empty_append,
        List.nil_append]
  | cons node pre ih =>
    rw [List.cons_append, takeOver, if_neg (hfirst node List.mem_cons_self),
      ih (fun n hm => hfirst n (List.mem_cons_of_mem node hm)), Option.map_some, List.cons_append]

lemma takeOver_cons_eq_some {toName stream : String} {fromStart fromEnd : ℤ} {file' : KeySpaceFile}
    (h : takeOver toName fromStart fromEnd stream (it :: file) = some file') :
    ∃ it' stream' rest, it'.node = it.node ∧
      (it' = it ∧ stream' = stream ∨ (it'.startText = it.startText ∨ it'.startText = stream') ∧
        ∃ v, stream' = stream ++ ("0x" ++ hexOfInt v)) ∧
      takeOver toName fromStart fromEnd stream' file = some rest ∧ file' = it' :: rest := by
  unfold takeOver at h
  by_cases hn : it.node = toName
  · rw [if_pos hn] at h
    cases hs : stoi16 it.startText with
    | none => simp [hs] at h
    | some toStart =>
      simp only [hs] at h
      by_cases hlt : fromEnd < toStart
      · rw [if_pos hlt, Option.map_eq_some_iff] at h
        obtain ⟨rest, hrest, rfl⟩ := h
        exact ⟨{ it with startText := stream ++ ("0x" ++ hexOfInt fromStart) }, _, rest, by rfl,
          Or.inr ⟨Or.inr rfl, fromStart, rfl⟩, hrest, rfl⟩
      · rw [if_neg hlt, Option.map_eq_some_iff] at h
        obtain ⟨rest, hrest, rfl⟩ := h
        exact ⟨{ it with endText := stream ++ ("0x" ++ hexOfInt fromEnd) }, stream ++ ("0x" ++ hexOfInt fromEnd),
          rest, by rfl, Or.inr ⟨Or.inl rfl, fromEnd, rfl⟩, hrest, rfl⟩
  · rw [if_neg hn, Option.map_eq_some_iff] at h
    obtain ⟨rest, hrest, rfl⟩ := h
    exact ⟨it, stream, rest, rfl, Or.inl ⟨rfl, rfl⟩, hrest, rfl⟩

lemma takeOver_names {toName stream : String} {fromStart fromEnd : ℤ} {file' : KeySpaceFile}
    (h : takeOver toName fromStart fromEnd stream file = some file') :
    file'.map KeySpaceNode.node = file.map KeySpaceNode.node := by
  induction file generalizing stream file' with
  | nil =>
    cases h
    rfl
  | cons node file ih =>
    obtain ⟨it', stream', rest, hn, -, hrest, rfl⟩ := takeOver_cons_eq_some h
    rw [List.map_cons, List.map_cons, hn, ih hrest]

/-- A leave goes through when the leaving range and the taking entry's start are known. -/
lemma delStep_eq_some_iff : delStep h c = some t ↔
    ∃ file range file', h.mKeySpaceFile = some file ∧ leavingRange file c.fromName c.unassigned = some range ∧
      takeOver c.toName range.1 range.2 "" (file.eraseP (fun node => node.node = c.fromName)) = some file' ∧
      { { h with mFrom := c.fromName, mTo := c.toName } with mKeySpaceFile := some file' }.nextVersion = t := by
  unfold delStep KeySpaceHandle.handleDeleteCommand
  cases hf : h.mKeySpaceFile with
  | none => simp
  | some file =>
    cases hr : leavingRange file c.fromName c.unassigned with
    | none => simp [hr]
    | some range =>
      obtain ⟨fromStart, fromEnd⟩ := range
      cases ht : takeOver c.toName fromStart fromEnd "" (file.eraseP (fun node => node.node = c.fromName)) with
      | none => simp [hr, ht]
      | some file' => simp [hr, ht, KeySpaceHandle.onVersionCommand, KeySpaceHandle.nextVersion]

lemma nodup_delStep (hnodup : h.nodeNames.Nodup) (ht : delStep h c = some t) : t.nodeNames.Nodup := by
  obtain ⟨file, range, file', hf, -, htake, rfl⟩ := delStep_eq_some_iff.mp ht
  rw [KeySpaceHandle.nodeNames_eq hf] at hnodup
  change (file'.map KeySpaceNode.node).Nodup
  rw [takeOver_names htake]
  exact hnodup.sublist ((List.eraseP_sublist).map KeySpaceNode.node)

lemma find_middle_of_neg {p : KeySpaceNode → Bool} (hit : p it = false) :
    (pre ++ it :: post).find? p = (pre ++ post).find? p := by
  rw [List.find?_append, List.find?_append, List.find?_cons_of_neg (by simp [hit])]

lemma eraseP_first (hfe : FirstEntry file c.fromName pre it post) :
    file.eraseP (fun node => node.node = c.fromName) = pre ++ post := by
  rw [hfe.eq, List.eraseP_append_right _ (fun node hm => by simpa using hfe.first node hm),
    List.eraseP_cons_of_pos (by simpa using hfe.node)]

lemma labels_spans (hp : ∀ node ∈ file, node.span.isSome) :
    (spans file).map Span.label = file.map KeySpaceNode.node := by
  induction file with
  | nil => rfl
  | cons node file ih =>
    obtain ⟨s, hs⟩ := Option.isSome_iff_exists.mp (hp node List.mem_cons_self)
    rw [spans_cons hs, List.map_cons, List.map_cons, (span_eq_some_iff.mp hs).1,
      ih (fun n hm => hp n (List.mem_cons_of_mem node hm))]

lemma grownRange_le (hs : s.lo ≤ s.hi) (hr : r.lo ≤ r.hi) : (grownRange s r).lo ≤ (grownRange s r).hi := by
  unfold grownRange
  split_ifs with hlt
  · exact le_trans hs (le_trans hlt.le hr)
  · exact not_lt.mp hlt

/-- Taking over is the union of the two ranges exactly when they are adjacent. -/
lemma grownRange_points_iff (hs : s.lo ≤ s.hi) (hr : r.lo ≤ r.hi) (hd : Disjoint s.points r.points) :
    (grownRange s r).points = s.points ∪ r.points ↔ s.hi + 1 = r.lo ∨ r.hi + 1 = s.lo := by
  unfold grownRange
  by_cases hlt : s.hi < r.lo
  · rw [if_pos hlt]
    have hhull := Icc_hull_iff hs hr hlt
    unfold Span.points
    dsimp only
    rw [hhull]
    omega
  · have hlt' : r.hi < s.lo := by
      by_contra hle
      have hmax : max s.lo r.lo ∈ s.points := ⟨le_max_left _ _, max_le hs (not_lt.mp hlt)⟩
      exact Set.disjoint_left.mp hd hmax ⟨le_max_right _ _, max_le (not_lt.mp hle) hr⟩
    rw [if_neg hlt, Set.union_comm]
    have hhull := Icc_hull_iff hr hs hlt'
    unfold Span.points
    dsimp only
    rw [hhull]
    omega

lemma grownNode_span (hr : it.span = some r) (hs : 0 ≤ s.lo ∧ s.lo ≤ s.hi ∧ s.hi ≤ 255) :
    (grownNode it s r).span = some (grownRange s r) := by
  obtain ⟨hn, hlo, hhi⟩ := span_eq_some_iff.mp hr
  unfold grownNode grownRange
  split_ifs
  · exact span_eq_some_iff.mpr ⟨hn, stoi16_hexOfInt hs.1 (by omega), hhi⟩
  · exact span_eq_some_iff.mpr ⟨hn, hlo, stoi16_hexOfInt (by omega) (by omega)⟩

/-- The ranges of two different listed nodes, and what a leave makes of them. -/
structure LeaveOf (h : KeySpaceHandle) (c : DelNode) (t : KeySpaceHandle) (s r : Span String ℤ)
    (rest : List (Span String ℤ)) (file file' : KeySpaceFile) : Prop where
  old : h.mKeySpaceFile = some file
  new : t.mKeySpaceFile = some file'
  leaves : h.rangeOf c.fromName = some s
  takes : h.rangeOf c.toName = some r
  labels : s.label = c.fromName ∧ r.label = c.toName
  oldPerm : (spans file).Perm (s :: r :: rest)
  newPerm : (spans file').Perm (grownRange s r :: rest)
  parses : ∀ node ∈ file', node.span.isSome

theorem exists_leaveOf (hinv : h.RingInv) (hne : c.fromName ≠ c.toName) (hfrom : c.fromName ∈ h.nodeNames)
    (hto : c.toName ∈ h.nodeNames) :
    ∃ t s r rest file file', delStep h c = some t ∧ LeaveOf h c t s r rest file file' := by
  obtain ⟨file, hf, hpart⟩ := hinv.partitioned
  have hnodup := hinv.nodup
  rw [KeySpaceHandle.nodeNames_eq hf] at hfrom hto hnodup
  obtain ⟨pre, it, post, hfe⟩ := exists_firstEntry hfrom
  have hp := hpart.parses
  rw [hfe.eq] at hto hnodup hp
  obtain ⟨s, hs⟩ := Option.isSome_iff_exists.mp (hp it (by simp))
  have hto' : c.toName ∈ (pre ++ post).map KeySpaceNode.node := by
    rw [List.map_append, List.map_cons, hfe.node] at hto
    rw [List.map_append]
    simpa [hne.symm] using hto
  obtain ⟨pre', it', post', hfe'⟩ := exists_firstEntry hto'
  have hsub : (pre ++ post).Sublist (pre ++ it :: post) :=
    (List.Sublist.refl pre).append (List.sublist_cons_self it post)
  have hp' : ∀ node ∈ pre ++ post, node.span.isSome := fun node hm => hp node (hsub.subset hm)
  have hm' : it' ∈ pre ++ post := by simp [hfe'.eq]
  obtain ⟨r, hr⟩ := Option.isSome_iff_exists.mp (hp' it' hm')
  have honce : c.toName ∉ post'.map KeySpaceNode.node := by
    have hnd := hnodup.sublist (hsub.map KeySpaceNode.node)
    rw [hfe'.eq, List.map_append, List.map_cons, hfe'.node] at hnd
    exact (List.nodup_cons.mp hnd.of_append_right).1
  have hrest : spans pre ++ spans post = spans pre' ++ r :: spans post' := by
    rw [← spans_append, hfe'.eq, spans_append, spans_cons hr]
  have hb := hpart.bounds (s := s) (mem_spans.mpr ⟨it, by simp [hfe.eq], hs⟩)
  have hgrown := grownNode_span hr hb
  have hleave : leavingRange file c.fromName c.unassigned = some (s.lo, s.hi) := by
    obtain ⟨-, h1, h2⟩ := span_eq_some_iff.mp hs
    unfold leavingRange
    simp only [find_eq_some_iff.mpr ⟨pre, post, hfe⟩, h1, h2]
  have htake : takeOver c.toName s.lo s.hi "" (file.eraseP (fun node => node.node = c.fromName)) =
      some (pre' ++ grownNode it' s r :: post') := by
    rw [eraseP_first hfe]
    exact takeOver_first hfe' hr honce
  refine ⟨_, s, r, spans pre' ++ spans post', file, pre' ++ grownNode it' s r :: post',
    delStep_eq_some_iff.mpr ⟨file, (s.lo, s.hi), _, hf, hleave, htake, rfl⟩, ?_⟩
  refine ⟨hf, rfl, ?_, ?_, ?_, ?_, ?_, ?_⟩
  · unfold KeySpaceHandle.rangeOf
    rw [hf, Option.bind_some, find_eq_some_iff.mpr ⟨pre, post, hfe⟩, Option.bind_some, hs]
  · unfold KeySpaceHandle.rangeOf
    rw [hf, Option.bind_some, hfe.eq, find_middle_of_neg (by simpa [hfe.node] using hne),
      find_eq_some_iff.mpr ⟨pre', post', hfe'⟩, Option.bind_some, hr]
  · rw [← (span_eq_some_iff.mp hs).1, ← (span_eq_some_iff.mp hr).1]
    exact ⟨hfe.node, hfe'.node⟩
  · rw [spans_around hfe hs]
    apply List.perm_middle.trans
    rw [hrest]
    exact List.perm_middle.cons s
  · rw [spans_append, spans_cons hgrown]
    exact List.perm_middle
  · intro node hm
    obtain hm | hm := List.mem_append.mp hm
    · exact hp' node (by simp [hfe'.eq, hm])
    · obtain rfl | hm := List.mem_cons.mp hm
      · exact Option.isSome_of_mem hgrown
      · exact hp' node (by simp [hfe'.eq, hm])

namespace LeaveOf

variable {rest : List (Span String ℤ)} {file file' : KeySpaceFile}

lemma partitioned_iff (hl : LeaveOf h c t s r rest file file') (hp : h.Partitioned) :
    t.Partitioned ↔ s.hi + 1 = r.lo ∨ r.hi + 1 = s.lo := by
  obtain ⟨file₀, hf, hpart⟩ := hp
  rw [hl.old, Option.some_inj] at hf
  subst hf
  have htiles := hpart.tiles.perm hl.oldPerm
  have hs := htiles.le s List.mem_cons_self
  have hr := htiles.le r (by simp)
  have hd := htiles.head_disjoint (t := r) (by simp)
  rw [← grownRange_points_iff hs hr hd, ← htiles.merge_iff (grownRange_le hs hr), ← Tiles.perm_iff hl.newPerm]
  constructor
  · intro ht
    obtain ⟨file₁, hf, hpart⟩ := ht
    rw [hl.new, Option.some_inj] at hf
    exact hf ▸ hpart.tiles
  · intro ht
    exact ⟨file', hl.new, hl.parses, ht⟩

lemma rest_labels (hl : LeaveOf h c t s r rest file file') (hinv : h.RingInv) (q : Span String ℤ)
    (hq : q ∈ rest) : q.label ≠ c.fromName := by
  obtain ⟨file₀, hf, hpart⟩ := hinv.partitioned
  have hnodup := hinv.nodup
  rw [KeySpaceHandle.nodeNames_eq hf, ← labels_spans hpart.parses] at hnodup
  rw [hl.old, Option.some_inj] at hf
  subst hf
  rw [(hl.oldPerm.map Span.label).nodup_iff, List.map_cons, hl.labels.1] at hnodup
  intro heq
  apply (List.nodup_cons.mp hnodup).1
  rw [← heq]
  exact List.mem_map_of_mem (List.mem_cons_of_mem r hq)

lemma grownRange_label : (grownRange s r).label = r.label := by
  unfold grownRange
  split_ifs <;> rfl

/-- On a leave that keeps the partition, the leaver's hashes and no others change hands. -/
lemma routes (hl : LeaveOf h c t s r rest file file') (hinv : h.RingInv) (ht : t.Partitioned)
    {hash : String} (hh : IsHash hash) :
    t.getManifestStorage hash =
      if h.getManifestStorage hash = some c.fromName then some c.toName else h.getManifestStorage hash := by
  obtain ⟨file₀, hf, hpart⟩ := hinv.partitioned
  rw [hl.old, Option.some_inj] at hf
  subst hf
  obtain ⟨file₁, hf, hpart'⟩ := ht
  rw [hl.new, Option.some_inj] at hf
  subst hf
  have htiles := hpart.tiles.perm hl.oldPerm
  have hunion := (htiles.merge_iff (grownRange_le (htiles.le s (by simp)) (htiles.le r (by simp)))).mp
    (hpart'.tiles.perm hl.newPerm)
  have hold : ∀ q ∈ s :: r :: rest, firstByte hash ∈ q.points → findStorage hash file = some q.label := by
    intro q hq hx
    exact (hpart.findStorage_eq_some_iff hh).mpr ⟨q, hl.oldPerm.mem_iff.mpr hq, rfl, hx⟩
  have hnew : ∀ q ∈ grownRange s r :: rest, firstByte hash ∈ q.points →
      findStorage hash file' = some q.label := by
    intro q hq hx
    exact (hpart'.findStorage_eq_some_iff hh).mpr ⟨q, hl.newPerm.mem_iff.mpr hq, rfl, hx⟩
  unfold KeySpaceHandle.getManifestStorage
  rw [hl.old, hl.new, Option.bind_some, Option.bind_some]
  obtain ⟨q, hq, hx⟩ := (htiles.cover _).mp hh.firstByte_mem
  have hq' := hq
  rw [List.mem_cons, List.mem_cons] at hq'
  obtain rfl | rfl | hm := hq'
  · have hg := hnew _ List.mem_cons_self (hunion ▸ Set.mem_union_left _ hx)
    rw [hold q hq hx, hg, hl.labels.1, grownRange_label, hl.labels.2, if_pos rfl]
  · have hg := hnew _ List.mem_cons_self (hunion ▸ Set.mem_union_right _ hx)
    rw [hold q hq hx, hg, grownRange_label, hl.labels.2, ite_self]
  · have hl' := hl.rest_labels hinv q hm
    rw [hold q hq hx, hnew q (List.mem_cons_of_mem _ hm) hx, if_neg (by simpa using hl')]

end LeaveOf

end Leave

/-! ### Runs -/

theorem ringInv_run {h t : KeySpaceHandle} {cmds : List MembershipCommand} (hinv : h.RingInv)
    (hkeeps : Meets memberStep KeepsRing h cmds) (hrun : run memberStep h cmds = some t) : t.RingInv := by
  refine run_invariant ?_ hinv hkeeps hrun
  intro h cmd t hinv hcmd ht
  cases cmd with
  | addNode c =>
    exact ⟨partitioned_addStep hinv.partitioned hcmd.2 ht, nodup_addStep hinv.nodup hcmd.1 hcmd.2 ht⟩
  | delNode c => exact ⟨hcmd t ht, nodup_delStep hinv.nodup ht⟩

lemma ringInv_initKeySpaceFile (h : KeySpaceHandle) : h.initKeySpaceFile.RingInv where
  partitioned := ⟨_, rfl, (computed_initKeySpaceFile h).isPartition rfl⟩
  nodup := List.nodup_singleton h.mRepoPrefix

lemma run_map_addNode {h : KeySpaceHandle} {cmds : List AddNode} :
    run memberStep h (cmds.map .addNode) = run addStep h cmds := by
  induction cmds generalizing h with
  | nil => rfl
  | cons c cmds ih =>
    change (addStep h c).bind _ = (addStep h c).bind _
    congr 1
    funext t
    exact ih

lemma meets_map_addNode {h : KeySpaceHandle} {cmds : List AddNode} (hfresh : Meets addStep Fresh h cmds)
    (htwo : Meets addStep SplitsTwo h cmds) : Meets memberStep KeepsRing h (cmds.map .addNode) := by
  induction cmds generalizing h with
  | nil => trivial
  | cons c cmds ih => exact ⟨⟨hfresh.1, htwo.1⟩, fun t ht => ih (hfresh.2 t ht) (htwo.2 t ht)⟩

def Adjacent (h : KeySpaceHandle) (c : DelNode) : Prop :=
  ∃ s ∈ h.rangeOf c.fromName, ∃ r ∈ h.rangeOf c.toName, s.hi + 1 = r.lo ∨ r.hi + 1 = s.lo

instance (h : KeySpaceHandle) (c : DelNode) : Decidable (Adjacent h c) :=
  inferInstanceAs (Decidable (∃ s ∈ h.rangeOf c.fromName, ∃ r ∈ h.rangeOf c.toName, _))

/-- The leaver's hashes go to `to` and no other hash changes hands. -/
structure HandsOver (h t : KeySpaceHandle) (c : DelNode) : Prop where
  partitioned : t.Partitioned
  routes : ∀ hash, IsHash hash → t.getManifestStorage hash =
    if h.getManifestStorage hash = some c.fromName then some c.toName else h.getManifestStorage hash

theorem leave_hands_over_iff {h₀ h : KeySpaceHandle} {cmds : List MembershipCommand} {c : DelNode}
    (hkeeps : Meets memberStep KeepsRing h₀.initKeySpaceFile cmds)
    (hrun : run memberStep h₀.initKeySpaceFile cmds = some h) (hne : c.fromName ≠ c.toName)
    (hfrom : c.fromName ∈ h.nodeNames) (hto : c.toName ∈ h.nodeNames) :
    ∃ t, delStep h c = some t ∧ (HandsOver h t c ↔ Adjacent h c) := by
  have hinv := ringInv_run (ringInv_initKeySpaceFile h₀) hkeeps hrun
  obtain ⟨t, s, r, rest, file, file', ht, hl⟩ := exists_leaveOf hinv hne hfrom hto
  refine ⟨t, ht, ?_⟩
  have hadj : Adjacent h c ↔ s.hi + 1 = r.lo ∨ r.hi + 1 = s.lo := by
    unfold Adjacent
    rw [hl.leaves, hl.takes]
    simp
  rw [hadj, ← hl.partitioned_iff hinv.partitioned]
  constructor
  · intro ho
    exact ho.partitioned
  · intro hp
    exact ⟨hp, fun hash hh => hl.routes hinv hp hh⟩

/-- The manager's range is halved once, and the new half once more. -/
def twoJoins : List AddNode := [⟨"/m/repo", "/a/repo"⟩, ⟨"/a/repo", "/b/repo"⟩]

def afterTwoJoins : KeySpaceHandle :=
  ((run addStep exampleManager.initKeySpaceFile twoJoins).getD exampleManager)

/-- The last joiner leaves to the node it split. -/
theorem leave_hands_over_neighbour :
    Meets memberStep KeepsRing exampleManager.initKeySpaceFile (twoJoins.map .addNode) ∧
      run memberStep exampleManager.initKeySpaceFile (twoJoins.map .addNode) = some afterTwoJoins ∧
      ∃ t, delStep afterTwoJoins ⟨"/b/repo", "/a/repo", 0, 0⟩ = some t ∧
        HandsOver afterTwoJoins t ⟨"/b/repo", "/a/repo", 0, 0⟩ := by
  have hkeeps : Meets memberStep KeepsRing exampleManager.initKeySpaceFile (twoJoins.map .addNode) :=
    meets_map_addNode (by decide) (by decide)
  have hrun : run memberStep exampleManager.initKeySpaceFile (twoJoins.map .addNode) = some afterTwoJoins := by
    rw [run_map_addNode]
    rfl
  obtain ⟨t, ht, hiff⟩ := leave_hands_over_iff (c := ⟨"/b/repo", "/a/repo", 0, 0⟩) hkeeps hrun (by decide)
    (by decide) (by decide)
  exact ⟨hkeeps, hrun, t, ht, hiff.mpr (by decide)⟩

/-- The last joiner leaves to the manager, with the other node's range in between: the manager
takes the whole key space, and the hash `80…` that was routed to the other node. -/
theorem leave_over_neighbour :
    Meets memberStep KeepsRing exampleManager.initKeySpaceFile (twoJoins.map .addNode) ∧
      run memberStep exampleManager.initKeySpaceFile (twoJoins.map .addNode) = some afterTwoJoins ∧
      "/b/repo" ∈ afterTwoJoins.nodeNames ∧ "/m/repo" ∈ afterTwoJoins.nodeNames ∧
      ∃ t, delStep afterTwoJoins ⟨"/b/repo", "/m/repo", 0, 0⟩ = some t ∧
        ¬ HandsOver afterTwoJoins t ⟨"/b/repo", "/m/repo", 0, 0⟩ := by
  refine ⟨meets_map_addNode (by decide) (by decide), run_map_addNode.trans rfl, by decide, by decide, _, rfl, ?_⟩
  intro ho
  have hh : IsHash "8000000000000000000000000000000000000000" := by decide
  have hroute := ho.routes _ hh
  exact absurd hroute (by decide)

end Difs
