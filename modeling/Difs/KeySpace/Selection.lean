import Difs.KeySpace.Leave

/-!
# Selection

The two migration loops compare a key with the unpadded text of the values of the local range,
routing with the padded text. A key with first byte `b` is selected once for `b / 16` and, from
`b = 16` on, once more for `b` itself.
-/

namespace Difs

open HexText EventRun

namespace Interest

def foundKey : Interest → Option String
  | .find _ hash => some hash
  | _ => none

def deletedKey : Interest → Option String
  | .onlyDeleteManifest _ hash => some hash
  | _ => none

end Interest

namespace KeySpaceHandle

/-- The keys that the reply to a manifest list makes the node ask for. -/
def findsIssued (x : KeySpaceHandle) (keys : List String) : List String :=
  (x.onManifestListCommandResponse (some keys)).sent.filterMap Interest.foundKey

/-- The keys that the reply to its complete command then makes it delete at the source. -/
def deletesIssued (x : KeySpaceHandle) (keys : List String) : List String :=
  (x.onManifestListCommandResponse (some keys)).handle.onCompleteCommandResponse.sent.filterMap
    Interest.deletedKey

lemma findsIssued_eq (x : KeySpaceHandle) (keys : List String) : x.findsIssued keys = x.selectedKeys keys := by
  simp [findsIssued, onManifestListCommandResponse, List.filterMap_append, List.filterMap_map,
    onManifestCommand, onCompleteCommand, Interest.foundKey, Function.comp_def, selectedKeys]

lemma deletesIssued_eq (x : KeySpaceHandle) (keys : List String) :
    x.deletesIssued keys = x.selectedKeys keys := by
  simp [deletesIssued, onManifestListCommandResponse, onCompleteCommandResponse, List.filterMap_map,
    onDeleteManifestCommand, Interest.deletedKey, Function.comp_def, selectedKeys]

def selections (x : KeySpaceHandle) (key : String) : ℕ :=
  (rangeValues x.mStart x.mEnd).countP (fun v => startsWith key (hexOfInt v))

lemma selectedKeys_eq (x : KeySpaceHandle) (keys : List String) :
    x.selectedKeys keys = keys.flatMap (fun key => List.replicate (x.selections key) key) := by
  unfold selectedKeys selections
  congr 1
  funext key
  rw [List.map_const', List.countP_eq_length_filter]

end KeySpaceHandle

/-! ### Counting selections -/

lemma nodup_rangeValues (start stop : ℤ) : (rangeValues start stop).Nodup := by
  unfold rangeValues
  apply List.Nodup.map
  · intro i j hij
    dsimp only at hij
    omega
  · exact List.nodup_range

lemma count_rangeValues {start stop v : ℤ} :
    (rangeValues start stop).count v = if start ≤ v ∧ v ≤ stop then 1 else 0 := by
  rw [(nodup_rangeValues start stop).count]
  simp only [mem_rangeValues]

lemma countP_eq_or {a b : ℤ} (hab : a ≠ b) (vs : List ℤ) :
    vs.countP (fun v => v = a ∨ v = b) = vs.count a + vs.count b := by
  induction vs with
  | nil => rfl
  | cons v vs ih =>
    rw [List.countP_cons, List.count_cons, List.count_cons, ih]
    by_cases ha : v = a
    · subst ha
      simp [hab]
      omega
    · by_cases hb : v = b
      · subst hb
        simp [ha]
        omega
      · simp [ha, hb]

/-- A key is selected for the value of its first digit, and for its first byte when that has
two digits. -/
theorem selections_eq {x : KeySpaceHandle} {key : String} (hk : IsHash key) (h0 : 0 ≤ x.mStart)
    (h1 : x.mEnd ≤ 255) :
    x.selections key =
      (rangeValues x.mStart x.mEnd).count (firstByte key / 16) +
        if firstByte key < 16 then 0 else (rangeValues x.mStart x.mEnd).count (firstByte key) := by
  have hb := hk.firstByte_mem
  have hcongr : x.selections key = (rangeValues x.mStart x.mEnd).countP
      (fun v => if v < 16 then firstByte key / 16 = v else firstByte key = v) := by
    unfold KeySpaceHandle.selections
    apply List.countP_congr
    intro v hv
    have hr := mem_rangeValues.mp hv
    rw [hk.startsWith_hexOfInt_iff (by omega) (by omega)]
    split_ifs <;> simp
  rw [hcongr]
  obtain ⟨hb0, hb1⟩ := hb
  by_cases hlt : firstByte key < 16
  · rw [if_pos hlt, Nat.add_zero, List.count_eq_countP]
    apply List.countP_congr
    intro v hv
    split_ifs <;> simp only [decide_eq_true_iff, beq_iff_eq] <;> omega
  · rw [if_neg hlt, ← countP_eq_or (by omega)]
    apply List.countP_congr
    intro v hv
    split_ifs <;> simp only [decide_eq_true_iff] <;> omega

lemma nodup_flatMap_replicate_iff {m : String → ℕ} {keys : List String} (hk : keys.Nodup) :
    (keys.flatMap (fun key => List.replicate (m key) key)).Nodup ↔ ∀ key ∈ keys, m key ≤ 1 := by
  rw [List.nodup_flatMap]
  constructor
  · intro h key hm
    exact List.nodup_replicate.mp (h.1 key hm)
  · intro h
    refine ⟨fun key hm => List.nodup_replicate.mpr (h key hm), hk.imp ?_⟩
    intro a b hab c hca hcb
    rw [List.eq_of_mem_replicate hca] at hcb
    exact hab (List.eq_of_mem_replicate hcb)

lemma mem_flatMap_replicate_iff {m : String → ℕ} {keys : List String} {key : String} :
    key ∈ keys.flatMap (fun key => List.replicate (m key) key) ↔ key ∈ keys ∧ m key ≠ 0 := by
  rw [List.mem_flatMap]
  constructor
  · intro h
    obtain ⟨k, hk, hmem⟩ := h
    obtain ⟨hne, rfl⟩ := List.mem_replicate.mp hmem
    exact ⟨hk, hne⟩
  · intro h
    exact ⟨key, h.1, List.mem_replicate.mpr ⟨h.2, rfl⟩⟩

/-! ### Selection against routing -/

/-- The keys routed to the node and no others, each once. -/
def ExactlyRouted (x : KeySpaceHandle) (keys issued : List String) : Prop :=
  issued.Nodup ∧ ∀ key, key ∈ issued ↔ key ∈ keys ∧ x.getManifestStorage key = some x.mRepoPrefix

/-- A node of a ring with its local range taken from its own entry. -/
structure OwnRange (x : KeySpaceHandle) : Prop where
  ring : x.RingInv
  range : x.rangeOf x.mRepoPrefix = some ⟨x.mRepoPrefix, x.mStart, x.mEnd⟩

/-- The digit of a one-digit byte has to be in the range together with it, that of a two-digit
byte must not be in the range. -/
def SelectsAsRouted (x : KeySpaceHandle) (key : String) : Prop :=
  if firstByte key < 16 then
    x.mStart ≤ 0 ∧ 0 ≤ x.mEnd ↔ x.mStart ≤ firstByte key ∧ firstByte key ≤ x.mEnd
  else ¬ (x.mStart ≤ firstByte key / 16 ∧ firstByte key / 16 ≤ x.mEnd)

instance (x : KeySpaceHandle) (key : String) : Decidable (SelectsAsRouted x key) := by
  unfold SelectsAsRouted
  infer_instance

namespace OwnRange

variable {x : KeySpaceHandle} {keys : List String} {key : String}

lemma exists_span (hx : OwnRange x) : ∃ file, x.mKeySpaceFile = some file ∧ IsPartition file ∧
    ⟨x.mRepoPrefix, x.mStart, x.mEnd⟩ ∈ spans file := by
  obtain ⟨file, hf, hpart⟩ := hx.ring.partitioned
  obtain ⟨it, hit, hspan⟩ := Option.bind_eq_some_iff.mp hx.range
  rw [hf, Option.bind_some] at hit
  exact ⟨file, hf, hpart, mem_spans.mpr ⟨it, List.mem_of_find?_eq_some hit, hspan⟩⟩

lemma bounds (hx : OwnRange x) : 0 ≤ x.mStart ∧ x.mStart ≤ x.mEnd ∧ x.mEnd ≤ 255 := by
  obtain ⟨file, -, hpart, hs⟩ := hx.exists_span
  exact hpart.bounds hs

lemma routed_iff (hx : OwnRange x) (hk : IsHash key) :
    x.getManifestStorage key = some x.mRepoPrefix ↔ x.mStart ≤ firstByte key ∧ firstByte key ≤ x.mEnd := by
  obtain ⟨file, hf, hpart, hs⟩ := hx.exists_span
  have hnodup := hx.ring.nodup
  rw [KeySpaceHandle.nodeNames_eq hf, ← labels_spans hpart.parses] at hnodup
  unfold KeySpaceHandle.getManifestStorage
  rw [hf, Option.bind_some, hpart.findStorage_eq_some_iff hk]
  constructor
  · intro h
    obtain ⟨s, hm, hl, hb⟩ := h
    rw [List.inj_on_of_nodup_map hnodup hm hs hl] at hb
    exact hb
  · intro h
    exact ⟨_, hs, rfl, h⟩

theorem exactlyRouted_iff (hx : OwnRange x) (hn : keys.Nodup) (hk : ∀ key ∈ keys, IsHash key) :
    ExactlyRouted x keys (x.selectedKeys keys) ↔ ∀ key ∈ keys, SelectsAsRouted x key := by
  obtain ⟨h0, hle, h1⟩ := hx.bounds
  have hsel : ∀ key ∈ keys, (x.selections key ≤ 1 ∧
      (x.selections key ≠ 0 ↔ x.getManifestStorage key = some x.mRepoPrefix)) ↔ SelectsAsRouted x key := by
    intro key hm
    have hb := (hk key hm).firstByte_mem
    rw [hx.routed_iff (hk key hm), selections_eq (hk key hm) h0 h1, count_rangeValues, count_rangeValues]
    unfold SelectsAsRouted
    obtain ⟨hb0, hb1⟩ := hb
    by_cases hlt : firstByte key < 16
    · have hdiv : firstByte key / 16 = 0 := by omega
      simp only [if_pos hlt, hdiv]
      split_ifs <;> omega
    · simp only [if_neg hlt]
      split_ifs <;> omega
  unfold ExactlyRouted
  rw [KeySpaceHandle.selectedKeys_eq, nodup_flatMap_replicate_iff hn]
  simp only [mem_flatMap_replicate_iff]
  constructor
  · intro h key hm
    refine (hsel key hm).mp ⟨h.1 key hm, ?_⟩
    have := h.2 key
    tauto
  · intro h
    refine ⟨fun key hm => ((hsel key hm).mpr (h key hm)).1, fun key => ?_⟩
    apply and_congr_right
    intro hm
    exact ((hsel key hm).mpr (h key hm)).2

end OwnRange

lemma ownRange_onFetchCommandResponse {h x : KeySpaceHandle} (hinv : h.RingInv)
    (hlisted : x.mRepoPrefix ∈ h.nodeNames) (version : String) :
    OwnRange (x.onFetchCommandResponse version h.mKeySpaceFile).handle := by
  obtain ⟨⟨file, hf, hpart⟩, hnodup⟩ := hinv
  rw [KeySpaceHandle.nodeNames_eq hf] at hlisted hnodup
  obtain ⟨pre, it, post, hfe⟩ := exists_firstEntry hlisted
  have hfind := find_eq_some_iff.mpr ⟨pre, post, hfe⟩
  obtain ⟨s, hs⟩ := Option.isSome_iff_exists.mp (hpart.parses it (by simp [hfe.eq]))
  obtain ⟨hn, h1, h2⟩ := span_eq_some_iff.mp hs
  have hx : (x.onFetchCommandResponse version h.mKeySpaceFile).handle =
      { x with mVersion := version, mKeySpaceFile := some file, mStart := s.lo, mEnd := s.hi,
               rangeAssigned := true } := by
    simp only [KeySpaceHandle.onFetchCommandResponse, hf, hfind, KeySpaceHandle.assignRange, h1, h2]
  rw [hx]
  refine ⟨⟨⟨file, rfl, hpart⟩, hnodup⟩, ?_⟩
  unfold KeySpaceHandle.rangeOf
  rw [Option.bind_some, hfind, Option.bind_some, hs]
  obtain ⟨l, lo, hi⟩ := s
  dsimp only at hn ⊢
  rw [← hn, hfe.node]

/-! ### Runs of joins -/

section Runs

variable {h₀ h x : KeySpaceHandle} {cmds : List AddNode} {keys : List String} {version : String}

lemma ownRange_of_run (hfresh : Meets addStep Fresh h₀.initKeySpaceFile cmds)
    (htwo : Meets addStep SplitsTwo h₀.initKeySpaceFile cmds)
    (hrun : run addStep h₀.initKeySpaceFile cmds = some h) (hlisted : x.mRepoPrefix ∈ h.nodeNames) :
    OwnRange (x.onFetchCommandResponse version h.mKeySpaceFile).handle := by
  apply ownRange_onFetchCommandResponse _ hlisted
  exact ringInv_run (ringInv_initKeySpaceFile h₀) (meets_map_addNode hfresh htwo) (run_map_addNode.trans hrun)

/-- Both loops act on exactly the routed keys when each key selects as it routes. -/
theorem selects_as_routed_iff (hfresh : Meets addStep Fresh h₀.initKeySpaceFile cmds)
    (htwo : Meets addStep SplitsTwo h₀.initKeySpaceFile cmds)
    (hrun : run addStep h₀.initKeySpaceFile cmds = some h) (hlisted : x.mRepoPrefix ∈ h.nodeNames)
    (hn : keys.Nodup) (hk : ∀ key ∈ keys, IsHash key) :
    let y := (x.onFetchCommandResponse version h.mKeySpaceFile).handle
    ExactlyRouted y keys (y.findsIssued keys) ∧ ExactlyRouted y keys (y.deletesIssued keys) ↔
      ∀ key ∈ keys, SelectsAsRouted y key := by
  intro y
  rw [y.findsIssued_eq, y.deletesIssued_eq, and_self]
  exact (ownRange_of_run hfresh htwo hrun hlisted).exactlyRouted_iff hn hk

/-- The loops are right for every manifest list on the ranges above the one-digit values. -/
theorem selects_every_list_iff (hfresh : Meets addStep Fresh h₀.initKeySpaceFile cmds)
    (htwo : Meets addStep SplitsTwo h₀.initKeySpaceFile cmds)
    (hrun : run addStep h₀.initKeySpaceFile cmds = some h) (hlisted : x.mRepoPrefix ∈ h.nodeNames) :
    let y := (x.onFetchCommandResponse version h.mKeySpaceFile).handle
    (∀ keys : List String, keys.Nodup → (∀ key ∈ keys, IsHash key) →
      ExactlyRouted y keys (y.selectedKeys keys)) ↔ 16 ≤ y.mStart := by
  intro y
  have hy : OwnRange y := ownRange_of_run hfresh htwo hrun hlisted
  obtain ⟨h0, hle, h1⟩ := hy.bounds
  constructor
  · intro hall
    have hsel : ∀ b : ℕ, b < 256 → ∃ key, firstByte key = b ∧ SelectsAsRouted y key := by
      intro b hb
      obtain ⟨key, hk, hkb⟩ := IsHash.exists_firstByte hb
      have hk1 : ∀ k ∈ [key], IsHash k := by simpa using hk
      have hr := (hy.exactlyRouted_iff (List.nodup_singleton key) hk1).mp
        (hall [key] (List.nodup_singleton key) hk1)
      exact ⟨key, hkb, hr key List.mem_cons_self⟩
    by_contra hlt
    obtain ⟨k1, hk1, hs1⟩ := hsel 1 (by omega)
    obtain ⟨k2, hk2, hs2⟩ := hsel (16 * y.mStart.toNat) (by omega)
    obtain ⟨k3, hk3, hs3⟩ := hsel 16 (by omega)
    unfold SelectsAsRouted at hs1 hs2 hs3
    rw [hk1] at hs1
    rw [hk2] at hs2
    rw [hk3] at hs3
    split_ifs at hs1 hs2 hs3 <;> omega
  · intro hge keys hn hk
    rw [hy.exactlyRouted_iff hn hk]
    intro key hm
    obtain ⟨hb0, hb1⟩ := (hk key hm).firstByte_mem
    unfold SelectsAsRouted
    split_ifs <;> omega

def fiveJoins : List AddNode := ["/1", "/2", "/3", "/4", "/5"].map (fun toName => ⟨"/m/repo", toName⟩)

def afterFiveJoins : KeySpaceHandle := (run addStep exampleManager.initKeySpaceFile fiveJoins).getD exampleManager

def exampleNode (mRepoPrefix : String) : KeySpaceHandle :=
  { mRepoPrefix := mRepoPrefix, mManagerPrefix := "/m/repo", mStart := 0, mEnd := 0 }

theorem selects_as_routed_second :
    let y := ((exampleNode "/2").onFetchCommandResponse "v5" afterFiveJoins.mKeySpaceFile).handle
    let keys := ["4100000000000000000000000000000000000000", "0800000000000000000000000000000000000000"]
    ExactlyRouted y keys (y.findsIssued keys) ∧ ExactlyRouted y keys (y.deletesIssued keys) := by
  have hnew : Meets addStep Fresh exampleManager.initKeySpaceFile fiveJoins := by decide
  have htwo : Meets addStep SplitsTwo exampleManager.initKeySpaceFile fiveJoins := by decide
  have hrun : run addStep exampleManager.initKeySpaceFile fiveJoins = some afterFiveJoins := rfl
  intro y keys
  refine (selects_as_routed_iff (x := exampleNode "/2") hnew htwo hrun ?_ ?_ ?_).mpr ?_
  · decide
  · decide
  · decide
  · decide

/-- The fifth joiner has `8..15` and asks for, and deletes, a key of first byte `128`. -/
theorem fifth_selects_other_key :
    let y := ((exampleNode "/5").onFetchCommandResponse "v5" afterFiveJoins.mKeySpaceFile).handle
    let keys := ["8000000000000000000000000000000000000000"]
    Meets addStep Fresh exampleManager.initKeySpaceFile fiveJoins ∧
      Meets addStep SplitsTwo exampleManager.initKeySpaceFile fiveJoins ∧
      run addStep exampleManager.initKeySpaceFile fiveJoins = some afterFiveJoins ∧
      "/5" ∈ afterFiveJoins.nodeNames ∧ (∀ key ∈ keys, IsHash key) ∧
      ¬ ExactlyRouted y keys (y.findsIssued keys) ∧ ¬ ExactlyRouted y keys (y.deletesIssued keys) := by
  refine ⟨by decide, by decide, rfl, by decide, by decide, ?_, ?_⟩
  · intro h
    exact absurd (h.2 "8000000000000000000000000000000000000000") (by decide)
  · intro h
    exact absurd (h.2 "8000000000000000000000000000000000000000") (by decide)

end Runs

end Difs
