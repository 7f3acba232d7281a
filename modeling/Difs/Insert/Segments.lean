import Difs.Insert.Keys
import Difs.Lib.EventRun

/-!
# Segments of an insert

An insert process counts the segments that were stored and compares the count with the size
of its range, modulo `2 ^ 64`. Segments beyond the end of the range count as well.
-/

namespace Difs

open EventRun WriteHandle

variable {L : NameLibrary} {sha1 : String → String}

/-- The write handle and the store, with the segment numbers that the fetcher of one process
has delivered and those that were passed to `insertData`. -/
structure Insertion (L : NameLibrary) (sha1 : String → String) where
  handle : WriteHandle L
  store : DataStore L sha1
  delivered : List UInt64 := []
  passed : List UInt64 := []

inductive SegmentEvent where
  | segment (segmentNo : UInt64) (now : ℕ)
  | segmentTimeout
  | check (now : ℕ)
  | deleteProcess
deriving DecidableEq, Repr

/-- The fetcher and the clients of the process; `object` has the packets of the segments. -/
def segmentStep (object : UInt64 → Data L) (processId : UInt64) (n : Insertion L sha1) :
    SegmentEvent → Option (Insertion L sha1)
  | .segment segmentNo now =>
    let (o, store) := n.handle.onSegmentData n.store (object segmentNo) processId now
    some { handle := o.handle, store := store, delivered := n.delivered ++ [segmentNo]
           passed := if (n.handle.mProcesses processId).isSome then n.passed ++ [segmentNo] else n.passed }
  | .segmentTimeout => some { n with handle := (n.handle.onSegmentTimeout processId).handle }
  | .check now => some { n with handle := (n.handle.handleCheckCommand processId now).handle }
  | .deleteProcess => some { n with handle := n.handle.deleteProcess processId }

/-- The segments of the object are `segments`; each is delivered once at most. -/
def DeliversOnce (segments : Finset UInt64) (n : Insertion L sha1) : SegmentEvent → Prop
  | .segment segmentNo _ => segmentNo ∈ segments ∧ segmentNo ∉ n.delivered
  | _ => True

instance (segments : Finset UInt64) (n : Insertion L sha1) (e : SegmentEvent) :
    Decidable (DeliversOnce segments n e) := by
  unfold DeliversOnce
  split <;> infer_instance

def RangeStored (object : UInt64 → Data L) (processId start stop : UInt64) (n : Insertion L sha1) : Prop :=
  ∀ process, n.handle.mProcesses processId = some process → process.response.code = 200 →
    ∀ segmentNo, start ≤ segmentNo → segmentNo ≤ stop →
      segmentNo ∈ n.passed ∧ n.store.Holds (object segmentNo)

/-- The insertion of a segment counts. -/
def Counts (object : UInt64 → Data L) (store : DataStore L sha1) (segmentNo : UInt64) : Prop :=
  store.has (object segmentNo).getFullName ∨ hash (L.uri (object segmentNo).name) ≠ notFound

instance (object : UInt64 → Data L) (store : DataStore L sha1) : DecidablePred (Counts object store) :=
  fun _ => inferInstanceAs (Decidable (_ ∨ _))

def nSegments (start stop : UInt64) : UInt64 := stop - start + 1

/-- No segment that counts is beyond the range, or there are too few of them to make up the
number. -/
def CountsInRange (object : UInt64 → Data L) (store : DataStore L sha1) (segments : Finset UInt64)
    (start stop : UInt64) : Prop :=
  if nSegments start stop = 0 then segments = ∅
  else (∀ segmentNo ∈ segments, Counts object store segmentNo → segmentNo ≤ stop) ∨
    (segments.filter (Counts object store)).card < (nSegments start stop).toNat

/-- With this segment the process has counted as many as its range has numbers. -/
def CompletesRange (store : DataStore L sha1) (process : ProcessInfo L) (data : Data L) : Prop :=
  let response := process.response.countInsert (store.insertData data).2
  response.endBlockId.isSome ∧ response.getInsertNum ≥ response.getEndBlockId - response.getStartBlockId + 1

instance (store : DataStore L sha1) (process : ProcessInfo L) (data : Data L) :
    Decidable (CompletesRange store process data) := inferInstanceAs (Decidable (_ ∧ _))

/-! ### The handler -/

section Handler

variable {h : WriteHandle L} {processId start stop : UInt64} {process : ProcessInfo L} {store : DataStore L sha1}
  {data : Data L} {now : ℕ}

/-- A process that inserts a range and has counted `count` segments. -/
structure Inserting (response : RepoCommandResponse) (start stop count : UInt64) : Prop where
  start : response.startBlockId = some start
  stop : response.endBlockId = some stop
  count : response.getInsertNum = count

lemma Inserting.countInsert {response : RepoCommandResponse} {count : UInt64} (hi : Inserting response start stop count)
    (inserted : Bool) :
    Inserting (response.countInsert inserted) start stop (if inserted then count + 1 else count) := by
  unfold RepoCommandResponse.countInsert
  cases inserted with
  | true =>
    refine ⟨hi.start, hi.stop, ?_⟩
    simp [RepoCommandResponse.getInsertNum, ← hi.count]
  | false => exact hi

lemma code_countInsert (response : RepoCommandResponse) (inserted : Bool) :
    (response.countInsert inserted).code = response.code := by
  unfold RepoCommandResponse.countInsert
  split <;> rfl

lemma endBlockId_countInsert (response : RepoCommandResponse) (inserted : Bool) :
    (response.countInsert inserted).endBlockId = response.endBlockId := by
  unfold RepoCommandResponse.countInsert
  split <;> rfl

/-- A segment that completes the range of its process. -/
theorem onSegmentData_completes (now : ℕ) (hp : h.mProcesses processId = some process)
    (hc : CompletesRange store process data) : ∃ process',
      (h.onSegmentData store data processId now).1.handle.mProcesses =
        Function.update h.mProcesses processId (some process') ∧
      process'.manifest = process.manifest ∧ process'.manifestSent = process.manifestSent ∧
      process'.response = { process.response.countInsert (store.insertData data).2 with code := 200 } := by
  obtain ⟨hstop, hcount⟩ := hc
  have hsome := ne_true_of_eq_false (Option.isNone_eq_false_iff.mpr hstop)
  unfold onSegmentData
  simp only [hp]
  rw [if_neg hsome, if_pos hcount]
  exact ⟨_, rfl, rfl, rfl, rfl⟩

/-- Any other segment is counted. A process without an end may have run out of time. -/
theorem onSegmentData_open (now : ℕ) (hp : h.mProcesses processId = some process)
    (hc : ¬ CompletesRange store process data) : ∃ process',
      (h.onSegmentData store data processId now).1.handle.mProcesses =
        Function.update h.mProcesses processId (some process') ∧
      process'.manifest = process.manifest ∧ process'.manifestSent = process.manifestSent ∧
      (process'.response = process.response.countInsert (store.insertData data).2 ∨
        process.response.endBlockId = none ∧
          process'.response = { process.response.countInsert (store.insertData data).2 with code := 405 }) := by
  unfold onSegmentData
  simp only [hp]
  by_cases hstop : (process.response.countInsert (store.insertData data).2).endBlockId.isNone
  · have hnone := Option.isNone_iff_eq_none.mp hstop
    rw [endBlockId_countInsert] at hnone
    rw [if_pos hstop]
    by_cases hnow : now > process.noEndTime
    · rw [if_pos hnow]
      exact ⟨_, rfl, rfl, rfl, Or.inr ⟨hnone, rfl⟩⟩
    · rw [if_neg hnow]
      exact ⟨_, rfl, rfl, rfl, Or.inl rfl⟩
  · have hfew := fun hcount => hc ⟨by simpa [Option.isSome_iff_ne_none] using hstop, hcount⟩
    rw [if_neg hstop, if_neg hfew]
    exact ⟨_, rfl, rfl, rfl, Or.inl rfl⟩

/-- The process after a segment: it is done when the count reaches the number of the range. -/
theorem onSegmentData_inserting {count : UInt64} (store : DataStore L sha1) (data : Data L) (now : ℕ)
    (hp : h.mProcesses processId = some process) (hi : Inserting process.response start stop count) :
    let count' := if (store.insertData data).2 then count + 1 else count
    ∃ process', (h.onSegmentData store data processId now).1.handle.mProcesses processId = some process' ∧
      Inserting process'.response start stop count' ∧
      process'.response.code = if count' ≥ nSegments start stop then 200 else process.response.code := by
  intro count'
  have hr := hi.countInsert (store.insertData data).2
  have hcompletes : CompletesRange store process data ↔ count' ≥ nSegments start stop := by
    unfold CompletesRange
    simp only [RepoCommandResponse.getEndBlockId, RepoCommandResponse.getStartBlockId, hr.start, hr.stop, hr.count,
      Option.isSome_some, true_and, Option.getD_some]
    exact Iff.rfl
  by_cases hge : count' ≥ nSegments start stop
  · obtain ⟨process', hm, -, -, hresponse⟩ := onSegmentData_completes now hp (hcompletes.mpr hge)
    rw [if_pos hge, hm, Function.update_self]
    refine ⟨process', rfl, ?_, ?_⟩
    · rw [hresponse]
      exact ⟨hr.start, hr.stop, hr.count⟩
    · rw [hresponse]
  · obtain ⟨process', hm, -, -, hresponse⟩ := onSegmentData_open now hp (fun hc => hge (hcompletes.mp hc))
    have hcounted := hresponse.resolve_right (fun hend => by simp [hi.stop] at hend)
    rw [if_neg hge, hm, Function.update_self]
    refine ⟨process', rfl, ?_, ?_⟩
    · rw [hcounted]
      exact hr
    · rw [hcounted, code_countInsert]

lemma onSegmentData_store (hp : h.mProcesses processId = some process) :
    (h.onSegmentData store data processId now).2 = (store.insertData data).1 := by
  unfold onSegmentData
  simp only [hp]
  split_ifs <;> rfl

lemma onSegmentData_none (hp : h.mProcesses processId = none) :
    h.onSegmentData store data processId now = ({ handle := h, stopped := true }, store) := by
  unfold onSegmentData
  simp only [hp]

lemma handleCheckCommand_inserting {count : UInt64} (hi : ∀ process, h.mProcesses processId = some process →
    Inserting process.response start stop count) :
    (h.handleCheckCommand processId now).handle = h := by
  unfold handleCheckCommand
  split
  · rfl
  · rename_i process hp
    rw [if_neg]
    rw [(hi process hp).stop]
    simp

lemma processSegmentedInsertCommand_inserting (h : WriteHandle L) (processId : UInt64) (now : ℕ)
    {parameter : RepoCommandParameter L} (hstart : parameter.hasStartBlockId) (hstop : parameter.hasEndBlockId)
    (hle : parameter.startBlockId ≤ parameter.endBlockId) :
    ∃ process, (h.processSegmentedInsertCommand parameter processId now).handle.mProcesses processId = some process ∧
      Inserting process.response parameter.startBlockId parameter.endBlockId 0 ∧ process.response.code = 300 := by
  unfold processSegmentedInsertCommand segInit
  have hnot : ¬ parameter.startBlockId > parameter.endBlockId := UInt64.not_lt.mpr hle
  simp only [hstart, hstop, if_true, if_neg hnot, process_setProcess]
  exact ⟨_, mProcesses_setProcess _, ⟨rfl, rfl, rfl⟩, rfl⟩

end Handler

/-! ### Counting -/

section Counting

variable {start stop : UInt64}

lemma toNat_nSegments_mod (hle : start ≤ stop) :
    (nSegments start stop).toNat = (stop.toNat - start.toNat + 1) % 2 ^ 64 := by
  unfold nSegments
  rw [UInt64.toNat_add, UInt64.toNat_sub_of_le _ _ hle]
  rfl

lemma toNat_nSegments (hle : start ≤ stop) (h : nSegments start stop ≠ 0) :
    (nSegments start stop).toNat = stop.toNat + 1 - start.toNat := by
  have hle' : start.toNat ≤ stop.toNat := UInt64.le_iff_toNat_le.mp hle
  have hlt := stop.toNat_lt
  have hsum := toNat_nSegments_mod hle
  have hne : (nSegments start stop).toNat ≠ 0 := fun h0 => h (UInt64.toNat.inj h0)
  omega

/-- The handler's number of segments is zero for the one range that has every number. -/
lemma nSegments_eq_zero (hle : start ≤ stop) (h : nSegments start stop = 0) :
    start.toNat = 0 ∧ stop.toNat = 2 ^ 64 - 1 := by
  have hle' : start.toNat ≤ stop.toNat := UInt64.le_iff_toNat_le.mp hle
  have hlt := stop.toNat_lt
  have hsum := toNat_nSegments_mod hle
  rw [h, UInt64.toNat_zero] at hsum
  omega

lemma mem_of_range_length {l : List UInt64} (hnodup : l.Nodup) (hl : ∀ i ∈ l, start ≤ i ∧ i ≤ stop)
    (hlen : stop.toNat + 1 - start.toNat ≤ l.length) {i : UInt64} (hi : start ≤ i ∧ i ≤ stop) : i ∈ l := by
  have hsub : l.toFinset.image UInt64.toNat ⊆ Finset.Icc start.toNat stop.toNat := by
    intro k hk
    obtain ⟨j, hj, rfl⟩ := Finset.mem_image.mp hk
    obtain ⟨hj0, hj1⟩ := hl j (List.mem_toFinset.mp hj)
    exact Finset.mem_Icc.mpr ⟨UInt64.le_iff_toNat_le.mp hj0, UInt64.le_iff_toNat_le.mp hj1⟩
  have hcard : (l.toFinset.image UInt64.toNat).card = l.length := by
    rw [Finset.card_image_of_injective _ (fun _ _ h => UInt64.toNat.inj h), List.toFinset_card_of_nodup hnodup]
  have heq := Finset.eq_of_subset_of_card_le hsub (by rw [Nat.card_Icc, hcard]; exact hlen)
  have hmem : i.toNat ∈ l.toFinset.image UInt64.toNat := by
    rw [heq]
    exact Finset.mem_Icc.mpr ⟨UInt64.le_iff_toNat_le.mp hi.1, UInt64.le_iff_toNat_le.mp hi.2⟩
  obtain ⟨j, hj, hij⟩ := Finset.mem_image.mp hmem
  rw [← UInt64.toNat.inj hij]
  exact List.mem_toFinset.mp hj

/-- Numbers that cover a range and reach beyond it are more than the range has. -/
lemma range_lt_card {u : Finset UInt64} (hu : ∀ i, start ≤ i → i ≤ stop → i ∈ u) {k : UInt64} (hk : k ∈ u)
    (hkstop : ¬ k ≤ stop) : stop.toNat + 1 - start.toNat < u.card := by
  have hsub : Finset.Icc start.toNat stop.toNat ⊆ (u.erase k).image UInt64.toNat := by
    intro v hv
    obtain ⟨hv0, hv1⟩ := Finset.mem_Icc.mp hv
    have hlt := stop.toNat_lt
    have hvn : (UInt64.ofNat v).toNat = v := UInt64.toNat_ofNat_of_lt' (by show v < 2 ^ 64; omega)
    have hstart : start ≤ UInt64.ofNat v := UInt64.le_iff_toNat_le.mpr (by omega)
    have hstop : UInt64.ofNat v ≤ stop := UInt64.le_iff_toNat_le.mpr (by omega)
    refine Finset.mem_image.mpr ⟨UInt64.ofNat v, Finset.mem_erase.mpr ⟨?_, hu _ hstart hstop⟩, hvn⟩
    rintro rfl
    exact hkstop hstop
  have hlen := (Finset.card_le_card hsub).trans Finset.card_image_le
  have hpos : 0 < u.card := Finset.card_pos.mpr ⟨k, hk⟩
  rw [Nat.card_Icc, Finset.card_erase_of_mem hk] at hlen
  omega

end Counting

/-! ### Runs of one process -/

/-- The count of the process is the number of counting segments that were passed to the store,
and the store has those that were passed. -/
structure SegmentInv (object : UInt64 → Data L) (processId start stop : UInt64) (store₀ : DataStore L sha1)
    (segments : Finset UInt64) (n : Insertion L sha1) : Prop where
  nodup : n.delivered.Nodup
  available : ∀ i ∈ n.delivered, i ∈ segments
  sublist : n.passed.Sublist n.delivered
  full : ∀ i ∈ segments, n.store.has (object i).getFullName = store₀.has (object i).getFullName
  stored : ∀ i ∈ n.passed, n.store.Holds (object i)
  counted : ∀ process, n.handle.mProcesses processId = some process →
    Inserting process.response start stop (UInt64.ofNat (n.passed.countP (Counts object store₀)))
  done : ∀ process, n.handle.mProcesses processId = some process → process.response.code = 200 →
    n.passed ≠ [] ∧ (nSegments start stop).toNat ≤ n.passed.countP (Counts object store₀)

section Runs

variable {object : UInt64 → Data L} {processId start stop : UInt64} {store₀ : DataStore L sha1}
  {segments : Finset UInt64} {n t : Insertion L sha1} {e : SegmentEvent}

/-- The full name of no segment has the digest of the name of another. -/
def FullNamesApart (sha1 : String → String) (object : UInt64 → Data L) (segments : Finset UInt64) : Prop :=
  ∀ i ∈ segments, ∀ j ∈ segments,
    DataStore.getPath sha1 (object i).getFullName ≠ DataStore.getPath sha1 (object j).name

lemma count_snoc (hn : SegmentInv object processId start stop store₀ segments n) {i : UInt64} (hi : i ∈ segments) :
    (if (n.store.insertData (object i)).2 then UInt64.ofNat (n.passed.countP (Counts object store₀)) + 1
      else UInt64.ofNat (n.passed.countP (Counts object store₀))) =
      UInt64.ofNat ((n.passed ++ [i]).countP (Counts object store₀)) := by
  have hcounts : (n.store.insertData (object i)).2 ↔ Counts object store₀ i := by
    rw [DataStore.insertData_counts, hn.full i hi]
    rfl
  rw [List.countP_append, List.countP_singleton]
  by_cases h : Counts object store₀ i
  · rw [if_pos (hcounts.mpr h), if_pos (decide_eq_true h), UInt64.ofNat_add]
    rfl
  · rw [if_neg (fun hins => h (hcounts.mp hins)), if_neg (by simpa using h), Nat.add_zero]

namespace SegmentInv

lemma delivered_snoc (hn : SegmentInv object processId start stop store₀ segments n) {i : UInt64} (hi : i ∈ segments)
    (hnew : i ∉ n.delivered) : (n.delivered ++ [i]).Nodup ∧ ∀ j ∈ n.delivered ++ [i], j ∈ segments := by
  rw [← List.concat_eq_append]
  refine ⟨hn.nodup.concat hnew, ?_⟩
  intro j hj
  rw [List.concat_eq_append] at hj
  obtain hj | hj := List.mem_append.mp hj
  · exact hn.available j hj
  · rw [List.mem_singleton.mp hj]
    exact hi

/-- A segment that arrives while the process is there. -/
theorem segment (hsha : FullNamesApart sha1 object segments)
    (hn : SegmentInv object processId start stop store₀ segments n) {i : UInt64} (hi : i ∈ segments)
    (hnew : i ∉ n.delivered) {process : ProcessInfo L} (hp : n.handle.mProcesses processId = some process) (now : ℕ) :
    ∃ process' t, segmentStep object processId n (.segment i now) = some t ∧
      t.delivered = n.delivered ++ [i] ∧ t.passed = n.passed ++ [i] ∧
      t.handle.mProcesses processId = some process' ∧
      process'.response.code = (if UInt64.ofNat (t.passed.countP (Counts object store₀)) ≥ nSegments start stop then 200
        else process.response.code) ∧
      SegmentInv object processId start stop store₀ segments t := by
  obtain ⟨process', hp', hinserting, hcode⟩ :=
    onSegmentData_inserting n.store (object i) now hp (hn.counted process hp)
  rw [count_snoc hn hi] at hinserting hcode
  have hstore : (n.handle.onSegmentData n.store (object i) processId now).2 = (n.store.insertData (object i)).1 :=
    onSegmentData_store hp
  let t : Insertion L sha1 :=
    { handle := (n.handle.onSegmentData n.store (object i) processId now).1.handle
      store := (n.handle.onSegmentData n.store (object i) processId now).2
      delivered := n.delivered ++ [i], passed := n.passed ++ [i] }
  have hstep : segmentStep object processId n (.segment i now) = some t := by
    simp only [segmentStep, hp, Option.isSome_some, if_true]
    rfl
  obtain ⟨hnodup, havailable⟩ := hn.delivered_snoc hi hnew
  refine ⟨process', t, hstep, rfl, rfl, hp', hcode, hnodup, havailable, ?_, ?_, ?_, ?_, ?_⟩
  · exact hn.sublist.append_right [i]
  · intro j hj
    change (n.handle.onSegmentData n.store (object i) processId now).2.has _ = _
    rw [hstore, DataStore.has_insertData_of_ne (hsha j hj i hi), hn.full j hj]
  · intro j hj
    change (n.handle.onSegmentData n.store (object i) processId now).2.Holds _
    rw [hstore]
    obtain hj | hj := List.mem_append.mp hj
    · exact (hn.stored j hj).insertData
    · rw [List.mem_singleton.mp hj]
      exact DataStore.insertData_holds
  · intro q hq
    obtain rfl : process' = q := Option.some_inj.mp (hp'.symm.trans hq)
    exact hinserting
  · intro q hq hdone
    obtain rfl : process' = q := Option.some_inj.mp (hp'.symm.trans hq)
    refine ⟨by simp [t], ?_⟩
    rw [hcode] at hdone
    by_cases hge : UInt64.ofNat ((n.passed ++ [i]).countP (Counts object store₀)) ≥ nSegments start stop
    · have hle := UInt64.le_iff_toNat_le.mp hge
      rw [UInt64.toNat_ofNat'] at hle
      exact hle.trans (Nat.mod_le _ _)
    · rw [if_neg hge] at hdone
      obtain ⟨-, hle⟩ := hn.done process hp hdone
      change _ ≤ (n.passed ++ [i]).countP _
      rw [List.countP_append]
      omega

theorem step (hsha : FullNamesApart sha1 object segments)
    (hn : SegmentInv object processId start stop store₀ segments n) (hc : DeliversOnce segments n e)
    (h : segmentStep object processId n e = some t) :
    SegmentInv object processId start stop store₀ segments t := by
  cases e with
  | segment i now =>
    obtain ⟨hi, hnew⟩ := hc
    cases hp : n.handle.mProcesses processId with
    | some process =>
      obtain ⟨process', t', ht', -, -, -, -, hinv⟩ := hn.segment hsha hi hnew hp now
      rw [h, Option.some_inj] at ht'
      rw [ht']
      exact hinv
    | none =>
      simp only [segmentStep, onSegmentData_none hp, hp, Option.isSome_none, Bool.false_eq_true, if_false,
        Option.some_inj] at h
      subst h
      obtain ⟨hnodup, havailable⟩ := hn.delivered_snoc hi hnew
      exact ⟨hnodup, havailable, hn.sublist.trans (List.sublist_append_left _ _), hn.full, hn.stored, hn.counted,
        hn.done⟩
  | segmentTimeout =>
    simp only [segmentStep, onSegmentTimeout, Option.some_inj] at h
    subst h
    exact ⟨hn.nodup, hn.available, hn.sublist, hn.full, hn.stored, hn.counted, hn.done⟩
  | check now =>
    simp only [segmentStep, handleCheckCommand_inserting hn.counted, Option.some_inj] at h
    subst h
    exact ⟨hn.nodup, hn.available, hn.sublist, hn.full, hn.stored, hn.counted, hn.done⟩
  | deleteProcess =>
    simp only [segmentStep, Option.some_inj] at h
    subst h
    have hnone : (n.handle.deleteProcess processId).mProcesses processId = none := Function.update_self ..
    refine ⟨hn.nodup, hn.available, hn.sublist, hn.full, hn.stored, ?_, ?_⟩
    · intro q hq
      rw [hnone] at hq
      cases hq
    · intro q hq
      rw [hnone] at hq
      cases hq

end SegmentInv

/-- The handle that has accepted the command, with nothing delivered yet. -/
def accepted (h : WriteHandle L) (parameter : RepoCommandParameter L) (processId : UInt64) (now : ℕ)
    (store : DataStore L sha1) : Insertion L sha1 :=
  { handle := (h.processSegmentedInsertCommand parameter processId now).handle, store := store }

variable {h : WriteHandle L} {parameter : RepoCommandParameter L} {now : ℕ} {es : List SegmentEvent}

lemma segmentInv_accepted (hstart : parameter.hasStartBlockId) (hstop : parameter.hasEndBlockId)
    (hle : parameter.startBlockId ≤ parameter.endBlockId) :
    SegmentInv object processId parameter.startBlockId parameter.endBlockId store₀ segments
      (accepted h parameter processId now store₀) := by
  obtain ⟨process, hp, hinserting, hcode⟩ := processSegmentedInsertCommand_inserting h processId now hstart
    hstop hle
  refine ⟨List.nodup_nil, by simp [accepted], List.Sublist.refl _, fun _ _ => rfl, by simp [accepted], ?_, ?_⟩
  · intro q hq
    obtain rfl : process = q := Option.some_inj.mp (hp.symm.trans hq)
    exact hinserting
  · intro q hq hdone
    obtain rfl : process = q := Option.some_inj.mp (hp.symm.trans hq)
    rw [hcode] at hdone
    cases hdone

/-- If only segments of the range count, status 200 comes with the whole range. -/
theorem SegmentInv.rangeStored (hn : SegmentInv object processId start stop store₀ segments n) (hle : start ≤ stop)
    (hfrom : ∀ i ∈ segments, start ≤ i) (hcond : CountsInRange object store₀ segments start stop) :
    RangeStored object processId start stop n := by
  intro process hp hcode i hi0 hi1
  obtain ⟨hne, hlen⟩ := hn.done process hp hcode
  have hpassed : ∀ j ∈ n.passed, j ∈ segments := fun j hj => hn.available j (hn.sublist.subset hj)
  have hnodup : (n.passed.filter (Counts object store₀)).Nodup := (hn.nodup.sublist hn.sublist).filter _
  unfold CountsInRange at hcond
  rw [List.countP_eq_length_filter] at hlen
  by_cases hz : nSegments start stop = 0
  · rw [if_pos hz] at hcond
    obtain ⟨j, hj⟩ := List.exists_mem_of_ne_nil _ hne
    have hjs := hpassed j hj
    rw [hcond] at hjs
    exact absurd hjs (Finset.notMem_empty j)
  · rw [if_neg hz] at hcond
    have hrange : ∀ j ∈ n.passed.filter (Counts object store₀), start ≤ j ∧ j ≤ stop := by
      intro j hj
      obtain ⟨hj, hcounts⟩ := List.mem_filter.mp hj
      refine ⟨hfrom j (hpassed j hj), ?_⟩
      obtain hall | hfew := hcond
      · exact hall j (hpassed j hj) (of_decide_eq_true hcounts)
      · have hsub : (n.passed.filter (Counts object store₀)).toFinset ⊆ segments.filter (Counts object store₀) := by
          intro k hk
          obtain ⟨hk, hkc⟩ := List.mem_filter.mp (List.mem_toFinset.mp hk)
          exact Finset.mem_filter.mpr ⟨hpassed k hk, of_decide_eq_true hkc⟩
        have hcard := Finset.card_le_card hsub
        rw [List.toFinset_card_of_nodup hnodup] at hcard
        omega
    rw [toNat_nSegments hle hz] at hlen
    have hi := List.mem_of_mem_filter (mem_of_range_length hnodup hrange hlen ⟨hi0, hi1⟩)
    exact ⟨hi, hn.stored i hi⟩

/-- Any segments that count may arrive one after the other; the last of them completes the
process if they are as many as the range. -/
lemma run_segments (hsha : FullNamesApart sha1 object segments) {m : Insertion L sha1}
    (hm : SegmentInv object processId start stop store₀ segments m) (hempty : m.delivered = [])
    (hprocess : (m.handle.mProcesses processId).isSome) {l : List UInt64} (hnodup : l.Nodup)
    (hl : ∀ i ∈ l, i ∈ segments) :
    Meets (segmentStep object processId) (DeliversOnce segments) m (l.map (fun i => .segment i 0)) ∧
      ∃ n process, run (segmentStep object processId) m (l.map (fun i => .segment i 0)) = some n ∧
        n.delivered = l ∧ n.passed = l ∧ n.handle.mProcesses processId = some process ∧
        (l ≠ [] → nSegments start stop ≤ UInt64.ofNat (l.countP (Counts object store₀)) →
          process.response.code = 200) ∧
        SegmentInv object processId start stop store₀ segments n := by
  induction l using List.reverseRecOn with
  | nil =>
    obtain ⟨process, hp⟩ := Option.isSome_iff_exists.mp hprocess
    refine ⟨trivial, m, process, rfl, hempty, ?_, hp, fun hne => absurd rfl hne, hm⟩
    have hsub := hm.sublist
    rw [hempty] at hsub
    exact List.sublist_nil.mp hsub
  | append_singleton l i ih =>
    obtain ⟨hnodupl, -, hdisjoint⟩ := List.nodup_append.mp hnodup
    obtain ⟨hmeets, n, process, hrun, hdelivered, hpassed, hp, -, hn⟩ :=
      ih hnodupl (fun j hj => hl j (List.mem_append_left _ hj))
    have hi : i ∈ segments := hl i (List.mem_append_right _ (List.mem_singleton_self i))
    have hnew : i ∉ n.delivered := by
      rw [hdelivered]
      intro hmem
      exact hdisjoint i hmem i (List.mem_singleton_self i) rfl
    obtain ⟨process', t, hstep, htd, htp, hp', hcode, ht⟩ := hn.segment hsha hi hnew hp 0
    rw [List.map_append, List.map_singleton]
    refine ⟨hmeets.snoc ?_, t, process', run_snoc_eq_some.mpr ⟨n, hrun, hstep⟩, ?_, ?_, hp', ?_, ht⟩
    · intro u hu
      rw [hrun, Option.some_inj] at hu
      subst hu
      exact ⟨hi, hnew⟩
    · rw [htd, hdelivered]
    · rw [htp, hpassed]
    · intro _ hge
      rw [htp, hpassed] at hcode
      rw [hcode, if_pos hge]

/-- If segments beyond the range can make up the number, some order of arrivals does. -/
theorem countsInRange_of_rangeStored (hsha : FullNamesApart sha1 object segments) {m : Insertion L sha1}
    (hm : SegmentInv object processId start stop store₀ segments m) (hempty : m.delivered = [])
    (hprocess : (m.handle.mProcesses processId).isSome) (hle : start ≤ stop)
    (hall : ∀ es n, Meets (segmentStep object processId) (DeliversOnce segments) m es →
      run (segmentStep object processId) m es = some n → RangeStored object processId start stop n) :
    CountsInRange object store₀ segments start stop := by
  -- a list of available segments that completes the process has the whole range
  have hcovers : ∀ l : List UInt64, l.Nodup → (∀ i ∈ l, i ∈ segments) → l ≠ [] →
      nSegments start stop ≤ UInt64.ofNat (l.countP (Counts object store₀)) →
      ∀ i, start ≤ i → i ≤ stop → i ∈ l := by
    intro l hnodup hl hne hge i hi0 hi1
    obtain ⟨hmeets, n, process, hrun, -, hpassed, hp, hcode, -⟩ := run_segments hsha hm hempty hprocess hnodup hl
    rw [← hpassed]
    exact (hall _ n hmeets hrun process hp (hcode hne hge) i hi0 hi1).1
  unfold CountsInRange
  by_cases hz : nSegments start stop = 0
  · rw [if_pos hz]
    obtain ⟨h0, h1⟩ := nSegments_eq_zero hle hz
    by_contra hne
    obtain ⟨i, hi⟩ := Finset.nonempty_iff_ne_empty.mpr hne
    have hone := hcovers [i] (List.nodup_singleton i) (by simpa using hi) (by simp)
      (by rw [hz]; exact UInt64.le_iff_toNat_le.mpr (Nat.zero_le _))
    have hmem : ∀ j, j = i := by
      intro j
      refine List.mem_singleton.mp (hone j ?_ ?_)
      · exact UInt64.le_iff_toNat_le.mpr (by omega)
      · exact UInt64.le_iff_toNat_le.mpr (by have := j.toNat_lt; omega)
    exact absurd ((hmem 0).trans (hmem 1).symm) (by decide)
  · rw [if_neg hz]
    by_contra hcond
    obtain ⟨hbeyond, hmany⟩ := not_or.mp hcond
    push Not at hbeyond hmany
    obtain ⟨k, hk, hkcounts, hkstop⟩ := hbeyond
    have hkf : {k} ⊆ segments.filter (Counts object store₀) :=
      Finset.singleton_subset_iff.mpr (Finset.mem_filter.mpr ⟨hk, hkcounts⟩)
    have hpos : 1 ≤ (nSegments start stop).toNat := by
      have hne : (nSegments start stop).toNat ≠ 0 := fun h0 => hz (UInt64.toNat.inj h0)
      omega
    obtain ⟨u, hku, hu, hcard⟩ := Finset.exists_subsuperset_card_eq hkf
      (by rw [Finset.card_singleton]; exact hpos) hmany
    have hcount : u.toList.countP (Counts object store₀) = (nSegments start stop).toNat := by
      rw [← hcard, ← Finset.length_toList, List.countP_eq_length]
      intro i hi
      exact decide_eq_true (Finset.mem_filter.mp (hu (Finset.mem_toList.mp hi))).2
    have hrange := hcovers u.toList u.nodup_toList
      (fun i hi => (Finset.mem_filter.mp (hu (Finset.mem_toList.mp hi))).1)
      (List.ne_nil_of_mem (Finset.mem_toList.mpr (Finset.singleton_subset_iff.mp hku)))
      (by rw [hcount, UInt64.ofNat_toNat]; exact UInt64.le_refl _)
    have hlt := range_lt_card (fun i h0 h1 => Finset.mem_toList.mp (hrange i h0 h1))
      (Finset.singleton_subset_iff.mp hku) hkstop
    rw [hcard, toNat_nSegments hle hz] at hlt
    exact absurd hlt (lt_irrefl _)

/-- Status 200 means that the whole range is stored, for every order of arrivals, exactly when
no segments beyond the range can make up the number. -/
theorem range_stored_iff (hstart : parameter.hasStartBlockId) (hstop : parameter.hasEndBlockId)
    (hle : parameter.startBlockId ≤ parameter.endBlockId) (hfrom : ∀ i ∈ segments, parameter.startBlockId ≤ i)
    (hsha : FullNamesApart sha1 object segments) :
    (∀ es n, Meets (segmentStep object processId) (DeliversOnce segments)
        (accepted h parameter processId now store₀) es →
      run (segmentStep object processId) (accepted h parameter processId now store₀) es = some n →
      RangeStored object processId parameter.startBlockId parameter.endBlockId n) ↔
      CountsInRange object store₀ segments parameter.startBlockId parameter.endBlockId := by
  have hm : SegmentInv object processId parameter.startBlockId parameter.endBlockId store₀ segments
      (accepted h parameter processId now store₀) := segmentInv_accepted hstart hstop hle
  constructor
  · intro hall
    obtain ⟨process, hp, -⟩ := processSegmentedInsertCommand_inserting h processId now hstart hstop hle
    exact countsInRange_of_rangeStored hsha hm rfl (Option.isSome_of_mem hp) hle hall
  · intro hcond es n hmeets hrun
    have hn := run_invariant (fun _ _ _ hn hc h => hn.step hsha hc h) hm hmeets hrun
    exact hn.rangeStored hle hfrom hcond

end Runs

/-- The digests of the names and the full names of three segments. -/
def frameDigest (name : String) : String :=
  ([
    ("/film/seg=0", "cc958153e6b8dae00da49a94cfc2f420149dd539"),
    ("/film/seg=0/sha256digest=40db78ae029df9f395c8fcd445f1625e2e7bf22e0bc0dc6182ae62fee82319f0",
      "124fd1cc1239c8e13bdaecaaa80ba0c7ea497853"),
    ("/film/seg=1", "45cbabca92c20bbf11c3a1aacad4189fdf84182e"),
    ("/film/seg=1/sha256digest=56f5a971b3594642a6a1c07ed7b8a1467240b578ecdbc8bf8f9189e7a1b219bf",
      "1cf1f78fb27aa7db0bdd49c3a7e65a541dcd14bf"),
    ("/film/seg=2", "96b87f0aadb0254f1c2e2397d236fd313fbb4e84"),
    ("/film/seg=2/sha256digest=6ad5018336b83bb247f98cbb2e13cec929abfcbff92d1b3816a319a22fb112b7",
      "3cb2e1ba4998b23aaf7ff5d35556513718815f7d")].lookup name).getD ""

/-- Besides, the digest of the name of the object. -/
def insertDigest (name : String) : String := if name = "/film" then archiveDigest name else frameDigest name

def frame (segmentNo : UInt64) : Data plainNames where
  name := plainNames.appendSegment [film] segmentNo
  digest :=
    if segmentNo = 0 then plainComponent "sha256digest=40db78ae029df9f395c8fcd445f1625e2e7bf22e0bc0dc6182ae62fee82319f0"
    else if segmentNo = 1 then
      plainComponent "sha256digest=56f5a971b3594642a6a1c07ed7b8a1467240b578ecdbc8bf8f9189e7a1b219bf"
    else plainComponent "sha256digest=6ad5018336b83bb247f98cbb2e13cec929abfcbff92d1b3816a319a22fb112b7"
  content := "frame " ++ Nat.repr segmentNo.toNat

def insertFrames : RepoCommandParameter plainNames :=
  { name := [film], hasStartBlockId := true, startBlockId := 0, hasEndBlockId := true, endBlockId := 1 }

def framesAccepted : Insertion plainNames frameDigest := accepted exampleHandle insertFrames 7 0 {}

theorem frames_stored :
    (run (segmentStep frame 7) framesAccepted [.segment 1 0, .segment 0 0]).bind
        (fun n => (n.handle.mProcesses 7).map (fun process => process.response.code)) = some 200 ∧
      ∀ es n, Meets (segmentStep frame 7) (DeliversOnce {0, 1}) framesAccepted es →
        run (segmentStep frame 7) framesAccepted es = some n → RangeStored frame 7 0 1 n := by
  have hsha : FullNamesApart frameDigest frame {0, 1} := by
    simp only [FullNamesApart, Finset.mem_insert, Finset.mem_singleton, forall_eq_or_imp, forall_eq]
    decide +kernel
  have hcond : CountsInRange frame ({} : DataStore plainNames frameDigest) {0, 1} 0 1 := by
    unfold CountsInRange
    rw [if_neg (by decide)]
    have hle : ∀ i ∈ ({0, 1} : Finset UInt64), i ≤ 1 := by simp
    exact Or.inl (fun i hi _ => hle i hi)
  exact ⟨by decide +kernel, (range_stored_iff rfl rfl (by decide) (by simp [insertFrames]) hsha).mpr hcond⟩

/-- Segment 2 arrives in the place of segment 1. -/
def frameBeyond : List SegmentEvent := [.segment 0 0, .segment 2 0]

theorem frame_missing : ∃ n process, run (segmentStep frame 7) framesAccepted frameBeyond = some n ∧
    Meets (segmentStep frame 7) (DeliversOnce {0, 1, 2}) framesAccepted frameBeyond ∧
    n.handle.mProcesses 7 = some process ∧ process.response.code = 200 ∧
    n.passed = [0, 2] ∧ ¬ n.store.Holds (frame 1) ∧ ¬ RangeStored frame 7 0 1 n := by
  have hmeets : Meets (segmentStep frame 7) (DeliversOnce {0, 1, 2}) framesAccepted frameBeyond := by decide +kernel
  have hview : (run (segmentStep frame 7) framesAccepted frameBeyond).map (fun n =>
      ((n.handle.mProcesses 7).map (fun process => process.response.code), n.passed,
        decide (n.store.Holds (frame 1)))) =
        some (some 200, [0, 2], false) := by decide +kernel
  obtain ⟨n, hrun, hn⟩ := Option.map_eq_some_iff.mp hview
  rw [Prod.mk.injEq, Prod.mk.injEq] at hn
  obtain ⟨hprocess, hpassed, hholds⟩ := hn
  obtain ⟨process, hp, hcode⟩ := Option.map_eq_some_iff.mp hprocess
  refine ⟨n, process, hrun, hmeets, hp, hcode, hpassed, of_decide_eq_false hholds, ?_⟩
  intro h
  have hone := (h process hp hcode 1 (by decide) (by decide)).1
  rw [hpassed] at hone
  exact absurd hone (by decide)

end Difs
