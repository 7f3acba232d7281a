import Difs.Lib.EventRun
import Difs.Lib.SortedMap
import Difs.Lib.Tlv
import Difs.Manifest

/-!
# The consumer

`Consumer` asks for all segments of a file, keeps the first content that comes for each, and
writes all of them whenever it has as many as there are. What it keeps is the Content element that
it expects inside the Content of a packet, and a packet without one throws. Its counters are not
initialized, so they start anywhere. Every `int` wraps.
-/

namespace Difs

open EventRun SortedMap

/-- `ndn::tlv::Content`. -/
def tlvContent : Tlv.BlockType := ⟨21, by decide, by decide⟩

/-- The data of a segment: the value of its Content, and the last segment that it announces. -/
structure SegmentData where
  segmentNo : UInt64
  content : List UInt8
  finalBlock : Option UInt64

structure SegmentInterest where
  node : String
  object : String
  segmentNo : UInt64

structure Consumer where
  mManifest : Manifest
  mOs : List UInt8 := []
  map : List (ℤ × List UInt8) := []
  mCurrentSegment : ℤ
  mTotalSize : ℤ
  mRetryCount : ℤ

namespace Consumer

/-- The segments of every node are asked for in turn, by a counter that is an `int`. -/
def fetch (c : Consumer) : List SegmentInterest :=
  c.mManifest.mRepos.flatMap (fun repo =>
    (List.range (repo.stop + 1 - repo.start).toNat).map (fun k =>
      ⟨repo.name, c.mManifest.mName, UInt64.ofInt (repo.start + k)⟩))

def writeEntry (c : Consumer) (entry : ℤ × List UInt8) : Consumer :=
  { c with
    mOs := c.mOs ++ entry.2
    mTotalSize := (c.mTotalSize + entry.2.length).bmod (2 ^ 32)
    mCurrentSegment := (c.mCurrentSegment + 1).bmod (2 ^ 32) }

/-- The Content element that is read from the value of a Content, after `parse` by `get`. -/
def innerContent (value : List UInt8) : Option (List UInt8) :=
  (Tlv.elements value).bind (fun elements => (Tlv.find elements tlvContent).map Tlv.Block.value)

/-- The number of the segment is that of the interest. `none` is an exception, of `parse`, of `get`
or of a final block that is not there. -/
def onDataCommandResponse (c : Consumer) (data : SegmentData) : Option Consumer :=
  match innerContent data.content, data.finalBlock with
  | some content, some endNo =>
    let segmentNo := (data.segmentNo.toNat : ℤ).bmod (2 ^ 32)
    let c := { c with map := insertNew segmentNo content c.map }
    some (if UInt64.ofNat c.map.length - 1 = endNo then c.map.foldl writeEntry c else c)
  | _, _ => none

def retry (c : Consumer) : Consumer × List SegmentInterest :=
  let retried := { c with mRetryCount := (c.mRetryCount + 1).bmod (2 ^ 32) }
  if c.mRetryCount < 3 then (retried, retried.fetch) else (retried, [])

def onDataCommandTimeout (c : Consumer) : Consumer × List SegmentInterest := c.retry

def onDataCommandNack (c : Consumer) : Consumer × List SegmentInterest := c.retry

end Consumer

/-- A segment of a file, with the value of the Content of its packet. That is the content of the
segment itself, as a client publishes it, or holds it in a Content element. -/
structure FileSegment where
  content : List UInt8
  value : List UInt8
  carries : value = content ∨ Consumer.innerContent value = some content

/-- The content is inside a Content element of its own. -/
def FileSegment.Wrapped (s : FileSegment) : Prop := Consumer.innerContent s.value = some s.content

instance (s : FileSegment) : Decidable s.Wrapped := inferInstanceAs (Decidable (_ = _))

/-- What comes back for the interests in the `n` segments of a file. -/
inductive FetchEvent (n : ℕ) where
  | arrival (i : Fin n)
  | timeout
  | nack
deriving DecidableEq

namespace Consumer

variable {n : ℕ}

def segmentData (file : Fin n → FileSegment) (i : Fin n) : SegmentData :=
  ⟨UInt64.ofNat i, (file i).value, some (UInt64.ofNat (n - 1))⟩

def after (file : Fin n → FileSegment) (c : Consumer) : FetchEvent n → Option Consumer
  | .arrival i => c.onDataCommandResponse (segmentData file i)
  | .timeout => some c.onDataCommandTimeout.1
  | .nack => some c.onDataCommandNack.1

/-- Every segment has arrived. -/
def Complete (events : List (FetchEvent n)) : Prop := ∀ i, .arrival i ∈ events

/-- The bytes of a file. -/
def contents (file : Fin n → FileSegment) : List UInt8 := (List.ofFn (fun i => (file i).content)).flatten

/-- Nothing is written before every segment has arrived, and the file is what has been written after
any arrivals among which every segment is. -/
structure WritesOnce (file : Fin n → FileSegment) (c : Consumer) (events : List (FetchEvent n)) : Prop where
  before : ∀ done t, done <+: events → ¬ Complete done → run (after file) c done = some t → t.mOs = []
  complete : ∀ done, done <+: events → Complete done →
    ∃ t, run (after file) c done = some t ∧ t.mOs = contents file

/-- A consumer that has asked for nothing yet. -/
structure Fresh (c : Consumer) : Prop where
  os : c.mOs = []
  map : c.map = []

variable {file : Fin n → FileSegment} {c t : Consumer} {events done : List (FetchEvent n)} {event : FetchEvent n}
  {reads : Fin n → List UInt8} {value content : List UInt8}

/-! ### The element inside -/

/-- An element is at least two bytes shorter than what it is in. -/
lemma length_innerContent (h : innerContent value = some content) : content.length + 2 ≤ value.length := by
  obtain ⟨elements, helements, hcontent⟩ := Option.bind_eq_some_iff.mp h
  obtain ⟨b, hb, rfl⟩ := Option.map_eq_some_iff.mp hcontent
  have hwire : b.wire.length ≤ value.length := by
    rw [Tlv.elements_eq_some.mp helements]
    exact (List.sublist_flatten_of_mem (List.mem_map_of_mem (Tlv.mem_of_find hb))).length_le
  have htype := Tlv.length_varNumber_pos b.type.number
  have hlength := Tlv.length_varNumber_pos b.value.length
  rw [Tlv.Block.length_wire] at hwire
  omega

/-- What the consumer reads from a packet is not longer than the content of the segment. -/
lemma length_le_content {s : FileSegment} (h : innerContent s.value = some content) :
    content.length ≤ s.content.length ∧ (content.length = s.content.length → s.Wrapped) := by
  obtain hraw | hwrapped := s.carries
  · have hlength := length_innerContent h
    rw [hraw] at hlength
    exact ⟨by omega, fun heq => by omega⟩
  · obtain rfl := Option.some.inj (h.symm.trans hwrapped)
    exact ⟨le_rfl, fun _ => hwrapped⟩

/-- A packet that is its content itself does not hold it in an element, whatever its bytes are. -/
theorem not_wrapped_of_published {s : FileSegment} (h : s.value = s.content) : ¬ s.Wrapped := by
  intro hwrapped
  have hlength := length_innerContent hwrapped
  rw [h] at hlength
  omega

/-! ### The map -/

/-- The entry of a segment. -/
def entryOf (reads : Fin n → List UInt8) (i : Fin n) : ℤ × List UInt8 := ((i : ℕ), reads i)

/-- The map has the entries of the segments that have arrived, in the order of their numbers. -/
def entriesOf (reads : Fin n → List UInt8) (events : List (FetchEvent n)) : List (ℤ × List UInt8) :=
  ((List.finRange n).filter (fun i => .arrival i ∈ events)).map (entryOf reads)

lemma sorted_entriesOf (reads : Fin n → List UInt8) (events : List (FetchEvent n)) :
    Sorted (entriesOf reads events) := by
  unfold Sorted entriesOf
  rw [List.pairwise_map]
  have hlt : (List.finRange n).Pairwise (fun i j => (entryOf reads i).1 < (entryOf reads j).1) := by
    apply (List.pairwise_lt_finRange _).imp
    intro i j hij
    exact Int.ofNat_lt.mpr hij
  exact hlt.filter _

lemma mem_entriesOf {entry : ℤ × List UInt8} :
    entry ∈ entriesOf reads events ↔ ∃ i, .arrival i ∈ events ∧ entryOf reads i = entry := by
  unfold entriesOf
  simp only [List.mem_map, List.mem_filter, List.mem_finRange, true_and, decide_eq_true_eq]

lemma length_entriesOf_le (reads : Fin n → List UInt8) (events : List (FetchEvent n)) :
    (entriesOf reads events).length ≤ n := by
  have hle := List.length_filter_le (fun i => decide (.arrival i ∈ events)) (List.finRange n)
  rw [List.length_finRange] at hle
  unfold entriesOf
  rwa [List.length_map]

lemma length_entriesOf_eq_iff (reads : Fin n → List UInt8) : (entriesOf reads events).length = n ↔ Complete events := by
  have hall : ((List.finRange n).filter (fun i => decide (.arrival i ∈ events))).length =
      (List.finRange n).length ↔ _ := List.length_filter_eq_length_iff
  rw [List.length_finRange] at hall
  unfold entriesOf Complete
  rw [List.length_map, hall]
  simp only [List.mem_finRange, decide_eq_true_eq, true_imp_iff]

lemma entriesOf_of_complete (h : Complete events) :
    (entriesOf reads events).flatMap Prod.snd = (List.ofFn reads).flatten := by
  have hall : (List.finRange n).filter (fun i => .arrival i ∈ events) = List.finRange n := by
    rw [List.filter_eq_self]
    exact fun i _ => decide_eq_true (h i)
  unfold entriesOf
  rw [hall, List.flatMap_map, List.ofFn_eq_map, List.flatMap_def]
  rfl

lemma insertNew_entriesOf (i : Fin n) :
    insertNew (i : ℤ) (reads i) (entriesOf reads done) = entriesOf reads (done ++ [.arrival i]) := by
  have hsorted := sorted_entriesOf reads done
  apply eq_of_mem_iff (sorted_insertNew hsorted _ _) (sorted_entriesOf _ _)
  intro entry
  rw [mem_insertNew hsorted, mem_entriesOf, mem_entriesOf]
  simp only [List.mem_append, List.mem_singleton, FetchEvent.arrival.injEq]
  constructor
  · rintro (⟨j, hj, rfl⟩ | ⟨rfl, -⟩)
    · exact ⟨j, Or.inl hj, rfl⟩
    · exact ⟨i, Or.inr rfl, rfl⟩
  · rintro ⟨j, hj | rfl, rfl⟩
    · exact Or.inl ⟨j, hj, rfl⟩
    · by_cases hmem : .arrival j ∈ done
      · exact Or.inl ⟨j, hmem, rfl⟩
      · refine Or.inr ⟨rfl, ?_⟩
        intro hkey
        obtain ⟨e, he, hej⟩ := List.mem_map.mp hkey
        obtain ⟨k, hk, rfl⟩ := mem_entriesOf.mp he
        have hkj : k = j := Fin.ext (Int.ofNat_inj.mp hej)
        exact hmem (hkj ▸ hk)

/-! ### One event -/

instance (events : List (FetchEvent n)) : Decidable (Complete events) :=
  inferInstanceAs (Decidable (∀ i, .arrival i ∈ events))

lemma foldl_writeEntry (entries : List (ℤ × List UInt8)) (c : Consumer) :
    (entries.foldl writeEntry c).mOs = c.mOs ++ entries.flatMap Prod.snd ∧
      (entries.foldl writeEntry c).map = c.map := by
  induction entries generalizing c with
  | nil => exact ⟨(List.append_nil _).symm, rfl⟩
  | cons entry entries ih =>
    rw [List.foldl_cons, (ih _).1, (ih _).2, List.flatMap_cons]
    exact ⟨List.append_assoc _ _ _, rfl⟩

/-- What an event writes, if the file is complete with it. -/
def written (reads : Fin n → List UInt8) (events : List (FetchEvent n)) : FetchEvent n → List UInt8
  | .arrival _ => if Complete events then (List.ofFn reads).flatten else []
  | .timeout => []
  | .nack => []

/-- A segment is added to the map, and the map is written when it has all segments. -/
lemma onDataCommandResponse_spec (hint : n ≤ 2 ^ 31) (hmap : c.map = entriesOf reads done) {i : Fin n}
    (hread : innerContent (file i).value = some (reads i)) :
    ∃ t, c.onDataCommandResponse (segmentData file i) = some t ∧
      t.map = entriesOf reads (done ++ [.arrival i]) ∧
      t.mOs = c.mOs ++ written reads (done ++ [.arrival i]) (.arrival i) := by
  have hi := i.isLt
  have hkey : ((UInt64.ofNat (i : ℕ)).toNat : ℤ).bmod (2 ^ 32) = (i : ℕ) := by
    have hlt : (i : ℕ) < 2 ^ 64 := by omega
    rw [UInt64.toNat_ofNat_of_lt' hlt]
    apply Int.bmod_eq_of_le <;> omega
  have hnext : insertNew (((UInt64.ofNat (i : ℕ)).toNat : ℤ).bmod (2 ^ 32)) (reads i) c.map =
      entriesOf reads (done ++ [.arrival i]) := by
    rw [hkey, hmap, insertNew_entriesOf]
  have hsize : UInt64.ofNat (entriesOf reads (done ++ [.arrival i])).length - 1 = UInt64.ofNat (n - 1) ↔
      Complete (done ++ [.arrival i]) := by
    have hle := length_entriesOf_le reads (done ++ [.arrival i])
    have hpos : 0 < (entriesOf reads (done ++ [.arrival i])).length := by
      apply List.length_pos_of_mem
      exact mem_entriesOf.mpr ⟨i, List.mem_append_right _ List.mem_cons_self, rfl⟩
    rw [← length_entriesOf_eq_iff reads]
    generalize (entriesOf reads (done ++ [.arrival i])).length = k at *
    have hk : k < 2 ^ 64 := by omega
    have hn : n - 1 < 2 ^ 64 := by omega
    have hone : (1 : UInt64) ≤ UInt64.ofNat k := by
      rw [UInt64.le_iff_toNat_le, UInt64.toNat_ofNat_of_lt' hk]
      exact hpos
    rw [← UInt64.toNat_inj, UInt64.toNat_sub_of_le _ _ hone, UInt64.toNat_ofNat_of_lt' hk, UInt64.toNat_ofNat_of_lt' hn,
      UInt64.toNat_one]
    omega
  unfold onDataCommandResponse segmentData
  simp only [hread, hnext]
  refine ⟨_, rfl, ?_⟩
  by_cases hcomplete : Complete (done ++ [.arrival i])
  · rw [if_pos (hsize.mpr hcomplete), written, if_pos hcomplete, (foldl_writeEntry _ _).1, (foldl_writeEntry _ _).2]
    exact ⟨rfl, congrArg (c.mOs ++ ·) (entriesOf_of_complete hcomplete)⟩
  · rw [if_neg (fun h => hcomplete (hsize.mp h)), written, if_neg hcomplete]
    exact ⟨rfl, (List.append_nil _).symm⟩

/-- A segment that is taken had a Content element. -/
lemma innerContent_of_response {i : Fin n} (h : c.onDataCommandResponse (segmentData file i) = some t) :
    ∃ content, innerContent (file i).value = some content := by
  unfold onDataCommandResponse segmentData at h
  cases hread : innerContent (file i).value with
  | none => simp [hread] at h
  | some content => exact ⟨content, rfl⟩

lemma retry_spec (c : Consumer) : c.retry.1.map = c.map ∧ c.retry.1.mOs = c.mOs := by
  unfold retry
  split_ifs <;> exact ⟨rfl, rfl⟩

/-- Timeouts leave the map and the output as they are. -/
lemma after_retry (hevent : ∀ i, event ≠ .arrival i) (h : after file c event = some t) :
    t.map = c.map ∧ t.mOs = c.mOs := by
  cases event with
  | arrival i => exact absurd rfl (hevent i)
  | timeout =>
    cases h
    exact retry_spec c
  | nack =>
    cases h
    exact retry_spec c

lemma entriesOf_retry (h : ∀ i, event ≠ .arrival i) : entriesOf reads (done ++ [event]) = entriesOf reads done := by
  unfold entriesOf
  congr 2
  funext i
  rw [decide_eq_decide, List.mem_append, List.mem_singleton, or_iff_left (h i).symm]

lemma written_retry (h : ∀ i, event ≠ .arrival i) : written reads events event = [] := by
  cases event with
  | arrival i => exact absurd rfl (h i)
  | timeout => rfl
  | nack => rfl

/-- What the consumer reads from the packets of a file. -/
def readsOf (file : Fin n → FileSegment) (i : Fin n) : List UInt8 := (innerContent (file i).value).getD []

lemma readsOf_eq {i : Fin n} (h : innerContent (file i).value = some content) : readsOf file i = content := by
  unfold readsOf
  rw [h, Option.getD_some]

/-- One event that does not throw. -/
lemma after_spec (hint : n ≤ 2 ^ 31) (hmap : c.map = entriesOf (readsOf file) done) (h : after file c event = some t) :
    t.map = entriesOf (readsOf file) (done ++ [event]) ∧
      t.mOs = c.mOs ++ written (readsOf file) (done ++ [event]) event := by
  by_cases harrival : ∃ i, event = .arrival i
  · obtain ⟨i, rfl⟩ := harrival
    obtain ⟨content, hread⟩ := innerContent_of_response h
    have hreads : innerContent (file i).value = some (readsOf file i) := by rw [hread, readsOf_eq hread]
    obtain ⟨u, hu, hspec⟩ := onDataCommandResponse_spec hint hmap hreads
    obtain rfl := Option.some.inj (h.symm.trans hu)
    exact hspec
  · have hretry : ∀ i, event ≠ .arrival i := fun i hi => harrival ⟨i, hi⟩
    obtain ⟨hsame, hos⟩ := after_retry hretry h
    rw [entriesOf_retry hretry, written_retry hretry, List.append_nil]
    exact ⟨hsame.trans hmap, hos⟩

/-! ### Sequences of events -/

lemma Complete.mono {before events : List (FetchEvent n)} (h : Complete before) (hp : before <+: events) :
    Complete events := fun i => hp.subset (h i)

theorem map_of_run (hfresh : c.Fresh) (hint : n ≤ 2 ^ 31) (hrun : run (after file) c events = some t) :
    t.map = entriesOf (readsOf file) events := by
  induction events using List.reverseRecOn generalizing t with
  | nil =>
    cases hrun
    have hnil : entriesOf (readsOf file) [] = [] := by simp [entriesOf]
    rw [hnil]
    exact hfresh.map
  | append_singleton done event ih =>
    obtain ⟨u, hu, h⟩ := run_snoc_eq_some.mp hrun
    exact (after_spec hint (ih hu) h).1

lemma mOs_snoc (hfresh : c.Fresh) (hint : n ≤ 2 ^ 31) {u : Consumer} (hu : run (after file) c done = some u)
    (h : after file u event = some t) : t.mOs = u.mOs ++ written (readsOf file) (done ++ [event]) event :=
  (after_spec hint (map_of_run hfresh hint hu) h).2

lemma mOs_of_not_complete (hfresh : c.Fresh) (hint : n ≤ 2 ^ 31) (h : ¬ Complete events)
    (hrun : run (after file) c events = some t) : t.mOs = [] := by
  induction events using List.reverseRecOn generalizing t with
  | nil =>
    cases hrun
    exact hfresh.os
  | append_singleton done event ih =>
    obtain ⟨u, hu, hlast⟩ := run_snoc_eq_some.mp hrun
    have hdone : ¬ Complete done := fun hdone => h (hdone.mono (List.prefix_append _ _))
    rw [mOs_snoc hfresh hint hu hlast, ih hdone hu]
    cases event with
    | arrival i => exact if_neg h
    | timeout => rfl
    | nack => rfl

/-- Only an arrival completes a file. -/
lemma exists_arrival (hdone : ¬ Complete done) (h : Complete (done ++ [event])) : ∃ i, event = .arrival i := by
  by_contra hretry
  apply hdone
  intro i
  obtain hi | hi := List.mem_append.mp (h i)
  · exact hi
  · exact absurd ⟨i, (List.mem_singleton.mp hi).symm⟩ hretry

/-- A file without segments is complete from the start. -/
lemma complete_nil (h : Complete ([] : List (FetchEvent n))) : n = 0 := by
  by_contra hne
  exact absurd (h ⟨0, Nat.pos_of_ne_zero hne⟩) List.not_mem_nil

/-- The arrivals up to the one that completes a file. -/
lemma exists_completing (h : Complete events) :
    ∃ done, done <+: events ∧ Complete done ∧ ∀ before, before <+: done → Complete before → before = done := by
  induction events using List.reverseRecOn with
  | nil =>
    refine ⟨[], List.prefix_rfl, h, ?_⟩
    intro before hbefore _
    exact List.prefix_nil.mp hbefore
  | append_singleton events event ih =>
    by_cases hevents : Complete events
    · obtain ⟨done, hdone, hcomplete⟩ := ih hevents
      exact ⟨done, hdone.trans (List.prefix_append _ _), hcomplete⟩
    · refine ⟨_, List.prefix_rfl, h, ?_⟩
      intro before hbefore hcomplete
      obtain heq | hbefore := List.prefix_concat_iff.mp hbefore
      · exact heq
      · exact absurd (hcomplete.mono hbefore) hevents

/-- The arrival that completes a file writes what has been read. -/
lemma mOs_of_completing (hfresh : c.Fresh) (hint : n ≤ 2 ^ 31) (h : Complete events)
    (hfirst : ∀ before, before <+: events → Complete before → before = events)
    (hrun : run (after file) c events = some t) : t.mOs = (List.ofFn (readsOf file)).flatten := by
  cases events using List.reverseRecOn with
  | nil =>
    obtain rfl := complete_nil h
    cases hrun
    rw [hfresh.os, List.ofFn_zero, List.flatten_nil]
  | append_singleton done event =>
    obtain ⟨u, hu, hlast⟩ := run_snoc_eq_some.mp hrun
    have hdone : ¬ Complete done := by
      intro hdone
      have hlength := congrArg List.length (hfirst done (List.prefix_append _ _) hdone)
      rw [List.length_append, List.length_singleton] at hlength
      omega
    obtain ⟨i, rfl⟩ := exists_arrival hdone h
    rw [mOs_snoc hfresh hint hu hlast, mOs_of_not_complete hfresh hint hdone hu, List.nil_append, written, if_pos h]

/-! ### Files that are written once -/

/-- As many bytes are read as there are only where every packet holds its content. -/
lemma wrapped_of_flatten (hreads : ∀ i, ∃ content, innerContent (file i).value = some content)
    (h : (List.ofFn (readsOf file)).flatten = contents file) (i : Fin n) : (file i).Wrapped := by
  have hle : ∀ i, (readsOf file i).length ≤ (file i).content.length ∧
      ((readsOf file i).length = (file i).content.length → (file i).Wrapped) := by
    intro i
    obtain ⟨content, hread⟩ := hreads i
    rw [readsOf_eq hread]
    exact length_le_content hread
  have hsum : ∑ i, (readsOf file i).length = ∑ i, (file i).content.length := by
    have hlength := congrArg List.length h
    unfold contents at hlength
    rw [List.length_flatten, List.length_flatten, List.map_ofFn, List.map_ofFn] at hlength
    rwa [List.sum_ofFn, List.sum_ofFn] at hlength
  apply (hle i).2
  exact (Finset.sum_eq_sum_iff_of_le (fun i _ => (hle i).1)).mp hsum i (Finset.mem_univ i)

lemma contents_of_wrapped (h : ∀ i, (file i).Wrapped) : (List.ofFn (readsOf file)).flatten = contents file := by
  unfold contents
  congr 2
  funext i
  exact readsOf_eq (h i)

/-- Packets that hold their contents never throw. -/
lemma exists_run (hint : n ≤ 2 ^ 31) (hfresh : c.Fresh) (h : ∀ i, (file i).Wrapped) (events : List (FetchEvent n)) :
    ∃ t, run (after file) c events = some t := by
  induction events using List.reverseRecOn with
  | nil => exact ⟨c, rfl⟩
  | append_singleton done event ih =>
    obtain ⟨u, hu⟩ := ih
    have hnext : ∃ t, after file u event = some t := by
      cases event with
      | arrival i =>
        have hreads : innerContent (file i).value = some (readsOf file i) := by rw [h i, readsOf_eq (h i)]
        obtain ⟨t, ht, -⟩ := onDataCommandResponse_spec hint (map_of_run hfresh hint hu) hreads
        exact ⟨t, ht⟩
      | timeout => exact ⟨_, rfl⟩
      | nack => exact ⟨_, rfl⟩
    obtain ⟨t, ht⟩ := hnext
    exact ⟨t, run_snoc_eq_some.mpr ⟨u, hu, ht⟩⟩

lemma mOs_of_complete (hfresh : c.Fresh) (hint : n ≤ 2 ^ 31) (hwrapped : ∀ i, (file i).Wrapped)
    (honce : contents file = [] ∨ ∀ done i, done ++ [.arrival i] <+: events → ¬ Complete done)
    (h : Complete events) (hrun : run (after file) c events = some t) : t.mOs = contents file := by
  induction events using List.reverseRecOn generalizing t with
  | nil =>
    obtain rfl := complete_nil h
    cases hrun
    exact hfresh.os
  | append_singleton done event ih =>
    obtain ⟨u, hu, hlast⟩ := run_snoc_eq_some.mp hrun
    rw [mOs_snoc hfresh hint hu hlast]
    by_cases hdone : Complete done
    · have hbefore : contents file = [] ∨ ∀ before i, before ++ [.arrival i] <+: done → ¬ Complete before :=
        honce.imp_right (fun hall before i hp => hall before i (hp.trans (List.prefix_append _ _)))
      have hnothing : written (readsOf file) (done ++ [event]) event = [] := by
        cases event with
        | arrival i =>
          obtain hnil | hall := honce
          · unfold written
            rw [contents_of_wrapped hwrapped, hnil, ite_self]
          · exact absurd hdone (hall done i List.prefix_rfl)
        | timeout => rfl
        | nack => rfl
      rw [ih hbefore hdone hu, hnothing, List.append_nil]
    · obtain ⟨i, rfl⟩ := exists_arrival hdone h
      rw [mOs_of_not_complete hfresh hint hdone hu, List.nil_append, written, if_pos h, contents_of_wrapped hwrapped]

/-- All segments that have arrived were read. -/
lemma innerContent_of_run (hrun : run (after file) c events = some t) {i : Fin n} (hi : .arrival i ∈ events) :
    ∃ content, innerContent (file i).value = some content := by
  obtain ⟨done, rest, rfl⟩ := List.append_of_mem hi
  obtain ⟨u, -, hrest⟩ := run_append_eq_some.mp hrun
  obtain ⟨v, hv, -⟩ := run_cons_eq_some.mp hrest
  exact innerContent_of_response hv

lemma WritesOnce.wrapped (h : WritesOnce file c events) (hfresh : c.Fresh) (hint : n ≤ 2 ^ 31)
    (hcomplete : Complete events) (i : Fin n) : (file i).Wrapped := by
  obtain ⟨done, hdone, hall, hfirst⟩ := exists_completing hcomplete
  obtain ⟨t, hrun, hos⟩ := h.complete done hdone hall
  apply wrapped_of_flatten (fun i => innerContent_of_run hrun (hall i))
  rw [← mOs_of_completing hfresh hint hall hfirst hrun, hos]

/-- Before the file is complete nothing is asked of the packets. Once it is, it has been written once exactly
when every packet holds its content in a Content element, and no segment arrives after all have arrived or
there is nothing in the file. The segments that are asked for are those that an `int` counts. -/
theorem writes_once_iff (hfresh : c.Fresh) (hint : n ≤ 2 ^ 31) (file : Fin n → FileSegment)
    (events : List (FetchEvent n)) : WritesOnce file c events ↔
      (Complete events → (∀ i, (file i).Wrapped) ∧
        (contents file = [] ∨ ∀ done i, done ++ [.arrival i] <+: events → ¬ Complete done)) := by
  constructor
  · intro h hcomplete
    have hwrapped := h.wrapped hfresh hint hcomplete
    refine ⟨hwrapped, ?_⟩
    by_contra hnot
    push Not at hnot
    obtain ⟨hne, done, i, hdone, hbefore⟩ := hnot
    have hlast : Complete (done ++ [.arrival i]) := hbefore.mono (List.prefix_append _ _)
    obtain ⟨u, hu, hfirst⟩ := h.complete done ((List.prefix_append _ _).trans hdone) hbefore
    obtain ⟨t, ht, htwice⟩ := h.complete _ hdone hlast
    obtain ⟨u', hu', hstep⟩ := run_snoc_eq_some.mp ht
    obtain rfl := Option.some.inj (hu.symm.trans hu')
    rw [mOs_snoc hfresh hint hu hstep, written, if_pos hlast, contents_of_wrapped hwrapped, hfirst] at htwice
    exact hne (List.append_right_eq_self.mp htwice)
  · intro h
    constructor
    · intro done t _ hdone hrun
      exact mOs_of_not_complete hfresh hint hdone hrun
    · intro done hp hdone
      obtain ⟨hwrapped, honce⟩ := h (hdone.mono hp)
      obtain ⟨t, ht⟩ := exists_run hint hfresh hwrapped done
      refine ⟨t, ht, mOs_of_complete hfresh hint hwrapped ?_ hdone ht⟩
      exact honce.imp_right (fun hall before i hbefore => hall before i (hbefore.trans hp))

/-- A consumer of the film in two segments. -/
def filmConsumer : Consumer where
  mManifest := { mName := "/film", mRepos := [⟨"/a/repo", 0, 1⟩], mStartBlockId := 0, mEndBlockId := 1 }
  mCurrentSegment := 0
  mTotalSize := 0
  mRetryCount := 0

/-- The packets of the film hold its segments in Content elements. -/
def wrappedFilm : Fin 2 → FileSegment
  | 0 => ⟨[1, 2], [21, 2, 1, 2], Or.inr (by decide)⟩
  | 1 => ⟨[3], [21, 1, 3], Or.inr (by decide)⟩

/-- The first segment comes again before the second. -/
theorem film_written_once : WritesOnce wrappedFilm filmConsumer [.arrival 0, .timeout, .arrival 0, .arrival 1] := by
  apply (writes_once_iff ⟨rfl, rfl⟩ (by decide) wrappedFilm _).mpr
  intro _
  refine ⟨by decide, Or.inr ?_⟩
  intro done i hdone hcomplete
  have hlength := hdone.length_le
  rw [List.length_append] at hlength
  have hbefore : done <+: [.arrival (0 : Fin 2), .timeout, .arrival (0 : Fin 2)] :=
    List.prefix_of_prefix_length_le ((List.prefix_append _ _).trans hdone) (by decide) (Nat.le_of_succ_le_succ hlength)
  exact absurd (hbefore.subset (hcomplete (1 : Fin 2))) (by decide)

/-- The film as it was published. -/
def publishedFilm : Fin 2 → FileSegment
  | 0 => ⟨[1, 2], [1, 2], Or.inl rfl⟩
  | 1 => ⟨[3], [3], Or.inl rfl⟩

/-- A segment that comes again after the last one writes the film again, and the first packet that was
published throws. -/
theorem film_written_twice :
    (∃ t, run (after wrappedFilm) filmConsumer [.arrival 0, .timeout, .arrival 1, .arrival 0] = some t ∧
      t.mOs = [1, 2, 3, 1, 2, 3]) ∧
    run (after publishedFilm) filmConsumer [.arrival 0, .arrival 1] = none ∧
    ¬ ∀ (n : ℕ) (file : Fin n → FileSegment) (c : Consumer) (events : List (FetchEvent n)), c.Fresh → n ≤ 2 ^ 31 →
      WritesOnce file c events := by
  have htwice : (run (after wrappedFilm) filmConsumer [.arrival 0, .timeout, .arrival 1, .arrival 0]).map
      (fun t => t.mOs) = some [1, 2, 3, 1, 2, 3] := by decide +kernel
  refine ⟨Option.map_eq_some_iff.mp htwice, by decide +kernel, ?_⟩
  intro h
  have honce := h 2 wrappedFilm filmConsumer [.arrival 0, .timeout, .arrival 1, .arrival 0] ⟨rfl, rfl⟩ (by decide)
  obtain ⟨t, ht, hos⟩ := honce.complete _ List.prefix_rfl (by decide)
  rw [ht, Option.map_some, Option.some_inj, hos] at htwice
  exact absurd htwice (by decide)

end Consumer

end Difs
