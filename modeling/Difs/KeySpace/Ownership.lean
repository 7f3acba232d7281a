import Difs.KeySpace.Routes
import Difs.Lib.Ownership

/-!
# Owners of hashes

The abstract meaning of a key space file is an owner for each first byte. A join gives the new
node the upper half of one share, a leave hands a share over, and the files a manager computes
follow these two maps along every run of joins and of leaves to a neighbour.
-/

namespace Difs

open HexText EventRun
open Ownership (share upperHalf)

/-- The values a hash is routed by. -/
noncomputable def firstBytes : Finset ℤ := Finset.Icc 0 255

/-- What a command does to the owners. -/
noncomputable def MembershipCommand.moves (owner : ℤ → String) : MembershipCommand → ℤ → String
  | .addNode c => Ownership.join firstBytes owner c.fromName c.toName
  | .delNode c => Ownership.leave owner c.fromName c.toName

/-- A join splits at least two values for a new node, and a leave is between two listed neighbours. -/
def KeepsOwners (h : KeySpaceHandle) : MembershipCommand → Prop
  | .addNode c => Fresh h c ∧ SplitsTwo h c
  | .delNode c => c.fromName ≠ c.toName ∧ c.fromName ∈ h.nodeNames ∧ c.toName ∈ h.nodeNames ∧ Adjacent h c

instance (h : KeySpaceHandle) : (cmd : MembershipCommand) → Decidable (KeepsOwners h cmd)
  | .addNode _ => inferInstanceAs (Decidable (_ ∧ _))
  | .delNode _ => inferInstanceAs (Decidable (_ ∧ _))

/-- Every hash is routed to the owner of its first byte. -/
structure OwnedBy (h : KeySpaceHandle) (owner : ℤ → String) : Prop extends h.RingInv where
  routes : ∀ hash, IsHash hash → h.getManifestStorage hash = some (owner (firstByte hash))

namespace OwnedBy

variable {h t : KeySpaceHandle} {owner : ℤ → String} {file : KeySpaceFile} {s : Span String ℤ} {node : String} {v : ℤ}

/-- The share of a node is what the ranges of its entries contain. -/
lemma mem_share_iff (ho : OwnedBy h owner) (hf : h.mKeySpaceFile = some file) :
    v ∈ share firstBytes owner node ↔ ∃ s ∈ spans file, s.label = node ∧ v ∈ s.points := by
  obtain ⟨file', hf', hpart⟩ := ho.partitioned
  rw [hf, Option.some_inj] at hf'
  subst hf'
  have hroute : ∀ hash, IsHash hash →
      (owner (firstByte hash) = node ↔ ∃ s ∈ spans file, s.label = node ∧ firstByte hash ∈ s.points) := by
    intro hash hh
    have hstorage := ho.routes hash hh
    unfold KeySpaceHandle.getManifestStorage at hstorage
    rw [hf, Option.bind_some] at hstorage
    rw [← hpart.findStorage_eq_some_iff hh, hstorage, Option.some_inj]
  have hbyte : 0 ≤ v ∧ v ≤ 255 → ∃ hash, IsHash hash ∧ firstByte hash = v := by
    intro hv
    obtain ⟨hash, hh, hv'⟩ := IsHash.exists_firstByte (b := v.toNat) (by omega)
    exact ⟨hash, hh, by omega⟩
  rw [Ownership.mem_share, firstBytes, Finset.mem_Icc]
  constructor
  · intro hv
    obtain ⟨hash, hh, rfl⟩ := hbyte hv.1
    exact (hroute hash hh).mp hv.2
  · intro hs
    obtain ⟨s, hs, hlabel, hv⟩ := hs
    have hmem : v ∈ keySpace := hpart.tiles.mem_of_mem_points hs hv
    obtain ⟨hash, hh, rfl⟩ := hbyte hmem
    exact ⟨hmem, (hroute hash hh).mpr ⟨s, hs, hlabel, hv⟩⟩

lemma mem_spans_of_rangeOf (hf : h.mKeySpaceFile = some file) (hs : h.rangeOf node = some s) :
    s ∈ spans file ∧ s.label = node := by
  obtain ⟨it, hit, hspan⟩ := Option.bind_eq_some_iff.mp hs
  rw [hf, Option.bind_some] at hit
  obtain ⟨pre, post, hfe⟩ := find_eq_some_iff.mp hit
  refine ⟨mem_spans.mpr ⟨it, List.mem_of_find?_eq_some hit, hspan⟩, ?_⟩
  rw [← (span_eq_some_iff.mp hspan).1, hfe.node]

lemma span_unique_of_label (hnodup : h.nodeNames.Nodup) (hf : h.mKeySpaceFile = some file)
    (hpart : IsPartition file) {r : Span String ℤ} (hs : s ∈ spans file) (hr : r ∈ spans file)
    (hlabel : s.label = r.label) : s = r := by
  rw [KeySpaceHandle.nodeNames_eq hf, ← labels_spans hpart.parses] at hnodup
  exact List.inj_on_of_nodup_map hnodup hs hr hlabel

/-- The range of a listed node is its share. -/
theorem share_eq (ho : OwnedBy h owner) (hs : h.rangeOf node = some s) :
    share firstBytes owner node = Finset.Icc s.lo s.hi := by
  obtain ⟨file, hf, hpart⟩ := ho.partitioned
  obtain ⟨hm, hlabel⟩ := mem_spans_of_rangeOf hf hs
  ext v
  rw [ho.mem_share_iff hf, Finset.mem_Icc, ← Span.mem_points]
  constructor
  · intro hr
    obtain ⟨r, hr, hrlabel, hv⟩ := hr
    rw [span_unique_of_label ho.nodup hf hpart hm hr (hlabel.trans hrlabel.symm)]
    exact hv
  · intro hv
    exact ⟨s, hm, hlabel, hv⟩

lemma exists_rangeOf (hp : h.Partitioned) (hnode : node ∈ h.nodeNames) : ∃ s, h.rangeOf node = some s := by
  obtain ⟨file, hf, hpart⟩ := hp
  rw [KeySpaceHandle.nodeNames_eq hf] at hnode
  obtain ⟨pre, it, post, hfe⟩ := exists_firstEntry hnode
  obtain ⟨s, hs⟩ := Option.isSome_iff_exists.mp (hpart.parses it (by simp [hfe.eq]))
  refine ⟨s, ?_⟩
  unfold KeySpaceHandle.rangeOf
  rw [hf, Option.bind_some, find_eq_some_iff.mpr ⟨pre, post, hfe⟩, Option.bind_some, hs]

theorem mem_nodeNames_iff (ho : OwnedBy h owner) :
    node ∈ h.nodeNames ↔ (share firstBytes owner node).Nonempty := by
  obtain ⟨file, hf, hpart⟩ := ho.partitioned
  constructor
  · intro hnode
    obtain ⟨s, hs⟩ := exists_rangeOf ho.partitioned hnode
    have hb := hpart.bounds (mem_spans_of_rangeOf hf hs).1
    rw [ho.share_eq hs]
    exact Finset.nonempty_Icc.mpr hb.2.1
  · intro hshare
    obtain ⟨v, hv⟩ := hshare
    obtain ⟨s, hs, hlabel, -⟩ := (ho.mem_share_iff hf).mp hv
    rw [KeySpaceHandle.nodeNames_eq hf, ← labels_spans hpart.parses, ← hlabel]
    exact List.mem_map_of_mem hs

/-- One value each is the least a listed node has. -/
lemma length_nodeNames_le (ho : OwnedBy h owner) : h.nodeNames.length ≤ 256 := by
  have hsub : h.nodeNames.toFinset ⊆ firstBytes.image owner := by
    intro node hnode
    obtain ⟨v, hv⟩ := ho.mem_nodeNames_iff.mp (List.mem_toFinset.mp hnode)
    obtain ⟨hbyte, howner⟩ := Ownership.mem_share.mp hv
    exact Finset.mem_image.mpr ⟨v, hbyte, howner⟩
  calc h.nodeNames.length = h.nodeNames.toFinset.card := (List.toFinset_card_of_nodup ho.nodup).symm
    _ ≤ (firstBytes.image owner).card := Finset.card_le_card hsub
    _ ≤ firstBytes.card := Finset.card_image_le
    _ = 256 := Int.card_Icc 0 255

end OwnedBy

/-! ### Steps -/

section Steps

variable {h t : KeySpaceHandle} {owner : ℤ → String}

lemma ownedBy_initKeySpaceFile (h : KeySpaceHandle) : OwnedBy h.initKeySpaceFile (fun _ => h.mRepoPrefix) where
  toRingInv := ringInv_initKeySpaceFile h
  routes := by
    intro hash hh
    have hC := computed_initKeySpaceFile h
    have hf : h.initKeySpaceFile.mKeySpaceFile = some [⟨h.mRepoPrefix, "0x00", "0xff"⟩] := rfl
    unfold KeySpaceHandle.getManifestStorage
    rw [hf, Option.bind_some, (hC.isPartition hf).findStorage_eq_some_iff hh, ((parsesTo_iff hf).mp hC.parsesTo).2]
    exact ⟨⟨h.mRepoPrefix, 0, 255⟩, List.mem_singleton_self _, rfl, hh.firstByte_mem⟩

lemma OwnedBy.join {c : AddNode} (ho : OwnedBy h owner) (hfresh : Fresh h c) (htwo : SplitsTwo h c)
    (ht : addStep h c = some t) : OwnedBy t (Ownership.join firstBytes owner c.fromName c.toName) where
  partitioned := partitioned_addStep ho.partitioned htwo ht
  nodup := nodup_addStep ho.nodup hfresh htwo ht
  routes := by
    intro hash hh
    obtain ⟨s, hs, hlt⟩ := htwo
    obtain ⟨t', rest, file, file', ht', hv⟩ := exists_halved ho.partitioned hs hlt hfresh.2
    rw [ht, Option.some_inj] at ht'
    subst ht'
    have hhalf : firstByte hash ∈ upperHalf (share firstBytes owner c.fromName) ↔
        firstByte hash ∈ (givenRange s c.toName).points := by
      rw [ho.share_eq hs, Ownership.upperHalf_Icc, Finset.mem_Icc, Span.mem_points, givenRange,
        Int.tdiv_eq_ediv_of_nonneg (by omega)]
    unfold Ownership.join
    split_ifs with hkey
    · exact (hv.routes_to_iff hfresh.2 hh).mpr (hhalf.mp hkey)
    · rw [hv.routes_as_before hh (fun hx => hkey (hhalf.mpr hx)), ho.routes hash hh]

lemma OwnedBy.leave {c : DelNode} (ho : OwnedBy h owner) (hne : c.fromName ≠ c.toName)
    (hfrom : c.fromName ∈ h.nodeNames) (hto : c.toName ∈ h.nodeNames) (hadj : Adjacent h c)
    (ht : delStep h c = some t) : OwnedBy t (Ownership.leave owner c.fromName c.toName) := by
  obtain ⟨t', s, r, rest, file, file', ht', hl⟩ := exists_leaveOf ho.toRingInv hne hfrom hto
  rw [ht, Option.some_inj] at ht'
  subst ht'
  have hp : t.Partitioned := by
    apply (hl.partitioned_iff ho.partitioned).mpr
    obtain ⟨s', hs', r', hr', hsr⟩ := hadj
    rw [hl.leaves, Option.mem_some] at hs'
    rw [hl.takes, Option.mem_some] at hr'
    subst hs' hr'
    exact hsr
  refine ⟨⟨hp, nodup_delStep ho.nodup ht⟩, ?_⟩
  intro hash hh
  rw [hl.routes ho.toRingInv hp hh, ho.routes hash hh, Ownership.leave]
  by_cases heq : owner (firstByte hash) = c.fromName
  · rw [if_pos (by rw [heq]), if_pos heq]
  · rw [if_neg (by simpa using heq), if_neg heq]

lemma OwnedBy.step {cmd : MembershipCommand} (ho : OwnedBy h owner) (hcmd : KeepsOwners h cmd)
    (ht : memberStep h cmd = some t) : OwnedBy t (cmd.moves owner) := by
  cases cmd with
  | addNode c => exact ho.join hcmd.1 hcmd.2 ht
  | delNode c => exact ho.leave hcmd.1 hcmd.2.1 hcmd.2.2.1 hcmd.2.2.2 ht

end Steps

/-! ### Runs -/

section Runs

variable {h t u : KeySpaceHandle} {owner : ℤ → String} {cmds : List MembershipCommand} {joins : List AddNode}
  {node : String}

lemma OwnedBy.of_run (ho : OwnedBy h owner) (hmeets : Meets memberStep KeepsOwners h cmds)
    (hrun : run memberStep h cmds = some t) : OwnedBy t (cmds.foldl MembershipCommand.moves owner) := by
  refine run_induction (Q := fun cmds t => OwnedBy t (cmds.foldl MembershipCommand.moves owner)) ho ?_ hmeets hrun
  intro cmds cmd u v _ hu hcmd hv
  rw [List.foldl_append]
  exact hu.step hcmd hv

/-- The owners after a history that starts with the manager's initial file. -/
noncomputable def owners (h : KeySpaceHandle) (cmds : List MembershipCommand) : ℤ → String :=
  cmds.foldl MembershipCommand.moves (fun _ => h.mRepoPrefix)

/-- The files follow the owners: what a hash is routed to, who is listed and with which range. -/
theorem membership_refines_owners (hmeets : Meets memberStep KeepsOwners h.initKeySpaceFile cmds)
    (hrun : run memberStep h.initKeySpaceFile cmds = some t) :
    (∀ hash, IsHash hash → t.getManifestStorage hash = some (owners h cmds (firstByte hash))) ∧
      (∀ node, node ∈ t.nodeNames ↔ (share firstBytes (owners h cmds) node).Nonempty) ∧
      (∀ node s, t.rangeOf node = some s → share firstBytes (owners h cmds) node = Finset.Icc s.lo s.hi) ∧
      t.nodeNames.Nodup ∧ t.nodeNames.length ≤ 256 := by
  have ho := (ownedBy_initKeySpaceFile h).of_run hmeets hrun
  exact ⟨ho.routes, fun _ => ho.mem_nodeNames_iff, fun _ _ => ho.share_eq, ho.nodup, ho.length_nodeNames_le⟩

lemma nodeNames_addStep {c : AddNode} (htwo : SplitsTwo h c) (ht : addStep h c = some t) :
    t.nodeNames = h.nodeNames ++ [c.toName] := by
  obtain ⟨file, pre, it, post, s, hf, hfe, hs, -⟩ := htwo.exists_entry
  rw [addStep_eq hf hfe hs, Option.some_inj] at ht
  subst ht
  rw [KeySpaceHandle.nodeNames_eq hf, KeySpaceHandle.nodeNames_eq rfl, hfe.eq]
  simp [keptNode, givenNode]

/-- A listed node keeps the smaller half of its share in each join that splits it. -/
lemma card_share_join {c : AddNode} (hnode : node ∈ h.nodeNames) (hfresh : Fresh h c) :
    (share firstBytes (Ownership.join firstBytes owner c.fromName c.toName) node).card =
      if c.fromName = node then (share firstBytes owner node).card / 2 else (share firstBytes owner node).card := by
  have hne : node ≠ c.toName := fun heq => hfresh.2 (heq ▸ hnode)
  rw [Ownership.share_join_of_ne hne]
  by_cases heq : c.fromName = node
  · rw [if_pos heq.symm, if_pos heq, Finset.card_sdiff_of_subset Ownership.upperHalf_subset,
      Ownership.card_upperHalf, heq]
    omega
  · rw [if_neg (Ne.symm heq), if_neg heq]

lemma nodeNames_joins (hmeets : Meets memberStep KeepsOwners h (joins.map .addNode))
    (hrun : run memberStep h (joins.map .addNode) = some t) : h.nodeNames <+: t.nodeNames := by
  induction joins generalizing h with
  | nil =>
    cases hrun
    exact List.prefix_rfl
  | cons c joins ih =>
    rw [List.map_cons] at hmeets hrun
    obtain ⟨v, hv, hvt⟩ := run_cons_eq_some.mp hrun
    have hnames := ih (hmeets.2 v hv) hvt
    rw [nodeNames_addStep hmeets.1.2 hv] at hnames
    exact (List.prefix_append _ _).trans hnames

lemma OwnedBy.card_share_joins (ho : OwnedBy h owner)
    (hmeets : Meets memberStep KeepsOwners h (joins.map .addNode))
    (hrun : run memberStep h (joins.map .addNode) = some t) (hnode : node ∈ h.nodeNames) :
    (share firstBytes ((joins.map .addNode).foldl MembershipCommand.moves owner) node).card =
      (share firstBytes owner node).card / 2 ^ joins.countP (fun c => c.fromName = node) := by
  induction joins generalizing h owner with
  | nil => simp
  | cons c joins ih =>
    rw [List.map_cons] at hmeets hrun
    obtain ⟨v, hv, hvt⟩ := run_cons_eq_some.mp hrun
    have hov := ho.step hmeets.1 hv
    have hcard : (share firstBytes (Ownership.join firstBytes owner c.fromName c.toName) node).card =
        if c.fromName = node then (share firstBytes owner node).card / 2 else (share firstBytes owner node).card :=
      card_share_join hnode hmeets.1.1
    have hnodev : node ∈ v.nodeNames := by
      rw [nodeNames_addStep hmeets.1.2 hv]
      exact List.mem_append_left _ hnode
    rw [List.map_cons, List.foldl_cons, ih hov (hmeets.2 v hv) hvt hnodev, List.countP_cons]
    change (share firstBytes (Ownership.join firstBytes owner c.fromName c.toName) node).card / _ = _
    rw [hcard]
    by_cases heq : c.fromName = node
    · simp only [heq, if_true, decide_true, pow_succ']
      rw [Nat.div_div_eq_div_mul]
    · simp [heq]

/-- After any history, further joins halve the load of a node each time they split it, so that no
more than `log₂` of its load may. -/
theorem joins_halve_load (hmeets : Meets memberStep KeepsOwners h.initKeySpaceFile (cmds ++ joins.map .addNode))
    (hu : run memberStep h.initKeySpaceFile cmds = some u)
    (ht : run memberStep u (joins.map .addNode) = some t) (hnode : node ∈ u.nodeNames) :
    (share firstBytes (owners h (cmds ++ joins.map .addNode)) node).card =
        (share firstBytes (owners h cmds) node).card / 2 ^ joins.countP (fun c => c.fromName = node) ∧
      2 ^ joins.countP (fun c => c.fromName = node) ≤ (share firstBytes (owners h cmds) node).card := by
  have hou := (ownedBy_initKeySpaceFile h).of_run (hmeets.of_isPrefix (List.prefix_append _ _)) hu
  have hot := hou.of_run (hmeets.of_append hu) ht
  have hcard := hou.card_share_joins (hmeets.of_append hu) ht hnode
  have hnodet : node ∈ t.nodeNames := (nodeNames_joins (hmeets.of_append hu) ht).subset hnode
  have hpos := Finset.card_pos.mpr (hot.mem_nodeNames_iff.mp hnodet)
  unfold owners
  rw [List.foldl_append]
  refine ⟨hcard, ?_⟩
  rw [hcard] at hpos
  exact (Nat.div_pos_iff.mp hpos).2

end Runs

/-! ### Two joins and a leave -/

/-- The last joiner leaves to the node it split. -/
def joinsAndLeave : List MembershipCommand := twoJoins.map .addNode ++ [.delNode ⟨"/b/repo", "/a/repo", 0, 0⟩]

theorem joinsAndLeave_owners : ∃ t, run memberStep exampleManager.initKeySpaceFile joinsAndLeave = some t ∧
    (∀ hash, IsHash hash → t.getManifestStorage hash =
        some (owners exampleManager joinsAndLeave (firstByte hash))) ∧
      (∀ node, node ∈ t.nodeNames ↔ (share firstBytes (owners exampleManager joinsAndLeave) node).Nonempty) ∧
      (∀ node s, t.rangeOf node = some s →
        share firstBytes (owners exampleManager joinsAndLeave) node = Finset.Icc s.lo s.hi) ∧
      t.nodeNames.Nodup ∧ t.nodeNames.length ≤ 256 :=
  ⟨_, rfl, membership_refines_owners (by decide) rfl⟩

theorem twoJoins_halve_load : ∃ t, run memberStep exampleManager.initKeySpaceFile (twoJoins.map .addNode) = some t ∧
    (share firstBytes (owners exampleManager ([] ++ twoJoins.map .addNode)) "/m/repo").card =
        (share firstBytes (owners exampleManager []) "/m/repo").card /
          2 ^ twoJoins.countP (fun c => c.fromName = "/m/repo") ∧
      2 ^ twoJoins.countP (fun c => c.fromName = "/m/repo") ≤
        (share firstBytes (owners exampleManager []) "/m/repo").card :=
  ⟨_, rfl, joins_halve_load (h := exampleManager) (by decide) rfl rfl (by decide)⟩

end Difs
