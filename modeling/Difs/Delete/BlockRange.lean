import Difs.Delete.DeleteHandle
import Difs.Lib.CountedLoop
import Difs.Storage.Prefixes

/-!
# Deleting a range of blocks

A delete-data command deletes its blocks in a loop over 64-bit numbers. The loop goes on forever
where the last block is the largest number, which is what the end of an empty object becomes.
`RepoStorage::deleteData` returns 1 or -1, and the handler counts whatever is not 0.
-/

namespace Difs

open CountedLoop

structure DeleteDataParameter (L : NameLibrary) extends DeleteParameter L where
  startBlockId : Option UInt64 := none
  endBlockId : Option UInt64 := none

/-- The local of the loop, with the store. -/
structure DeleteLoop (Store : Type*) where
  store : Store
  nDeletedData : UInt64 := 0

structure DeleteDataOutcome (Store : Type*) where
  store : Store
  response : DeleteResponse

namespace DeleteHandle

variable {L : NameLibrary} {Store : Type*} (deleteData : Store → L.Name → Store × ℤ)

/-- The returned number is taken as a truth value. -/
def deleteBlock (dataName : L.Name) (i : UInt64) (s : DeleteLoop Store) : DeleteLoop Store :=
  let name := L.appendSegment dataName i
  let (store, deleted) := deleteData s.store name
  { store := store
    nDeletedData := if deleted ≠ 0 then s.nDeletedData + 1 else s.nDeletedData }

/-- The reply after the loop. -/
def rangeDeleted (repoParameter : DeleteDataParameter L) (s : DeleteLoop Store) : DeleteDataOutcome Store where
  store := s.store
  response := positiveReply repoParameter.toDeleteParameter 200 s.nDeletedData.toNat

/-- `none` is a loop that goes on after so many tests. -/
def handleDeleteDataCommand (fuel : ℕ) (store : Store) (repoParameter : DeleteDataParameter L) :
    Option (DeleteDataOutcome Store) :=
  match repoParameter.startBlockId, repoParameter.endBlockId with
  | some start, some stop =>
    if start > stop then some { store := store, response := negativeReply 403 "Start block id > End block id" }
    else
      (forUpTo (deleteBlock deleteData repoParameter.name) stop fuel start { store := store }).map
        (rangeDeleted repoParameter)
  | _, _ => some { store := store, response := negativeReply 403 "Start/End block id not set" }

/-- What the loop sees of `RepoStorage::deleteData`. -/
def deleteStored {sha1 : String → String} (s : FsStorage L sha1) (name : L.Name) : FsStorage L sha1 × ℤ :=
  let (s, deleted, _) := RepoStorage.deleteData s name
  (s, deleted)

/-! ### Each block once -/

/-- What calls of `deleteData` for the names of blocks, one after the other, make of a store. -/
def deleteNamed (dataName : L.Name) (store : Store) (ids : List UInt64) : Store :=
  ids.foldl (fun store i => (deleteData store (L.appendSegment dataName i)).1) store

/-- The handler returns, and what it leaves is the store after one call of `deleteData` for each block of
the range and for no other. -/
def DeletesEachOnce (store : Store) (repoParameter : DeleteDataParameter L) (start stop : UInt64) : Prop :=
  ∃ fuel outcome ids, handleDeleteDataCommand deleteData fuel store repoParameter = some outcome ∧
    outcome.store = deleteNamed deleteData repoParameter.name store ids ∧
    ∀ i, ids.count i = if start ≤ i ∧ i ≤ stop then 1 else 0

section Loop

variable {deleteData} {store : Store} {p : DeleteDataParameter L} {start stop : UInt64} {fuel : ℕ}
  {outcome : DeleteDataOutcome Store} {dataName : L.Name} {ids : List UInt64} {s : DeleteLoop Store}

/-- The loop does to the store what its calls of `deleteData` do. -/
lemma foldl_store : (ids.foldl (fun s i => deleteBlock deleteData dataName i s) s).store =
    deleteNamed deleteData dataName s.store ids := by
  induction ids generalizing s with
  | nil => rfl
  | cons i ids ih =>
    rw [List.foldl_cons, ih]
    rfl

lemma handleDeleteDataCommand_eq (hstart : p.startBlockId = some start) (hstop : p.endBlockId = some stop)
    (hle : start ≤ stop) : handleDeleteDataCommand deleteData fuel store p =
      (forUpTo (deleteBlock deleteData p.name) stop fuel start { store := store }).map (rangeDeleted p) := by
  unfold handleDeleteDataCommand
  simp only [hstart, hstop]
  exact if_neg (UInt64.not_lt.mpr hle)

/-- The store and the counter after all blocks of the range. -/
def afterRange (deleteData : Store → L.Name → Store × ℤ) (store : Store) (dataName : L.Name) (start stop : UInt64) :
    DeleteLoop Store :=
  (upTo start stop).foldl (fun s i => deleteBlock deleteData dataName i s) { store := store }

lemma outcome_of_handled (hstart : p.startBlockId = some start) (hstop : p.endBlockId = some stop)
    (hle : start ≤ stop) (h : handleDeleteDataCommand deleteData fuel store p = some outcome) :
    outcome = rangeDeleted p (afterRange deleteData store p.name start stop) := by
  rw [handleDeleteDataCommand_eq hstart hstop hle] at h
  obtain ⟨s, hs, rfl⟩ := Option.map_eq_some_iff.mp h
  rw [eq_foldl_of_forUpTo hs]
  rfl

lemma handled_iff (deleteData : Store → L.Name → Store × ℤ) (store : Store) (hstart : p.startBlockId = some start)
    (hstop : p.endBlockId = some stop) (hle : start ≤ stop) :
    (∃ fuel outcome, handleDeleteDataCommand deleteData fuel store p = some outcome) ↔ stop.toNat ≠ 2 ^ 64 - 1 := by
  have hloop : (∃ fuel s, forUpTo (deleteBlock deleteData p.name) stop fuel start { store := store } = some s) ↔
      stop.toNat ≠ 2 ^ 64 - 1 := forUpTo_returns_iff
  rw [← hloop]
  constructor
  · intro h
    obtain ⟨fuel, outcome, h⟩ := h
    rw [handleDeleteDataCommand_eq hstart hstop hle] at h
    obtain ⟨s, hs, -⟩ := Option.map_eq_some_iff.mp h
    exact ⟨fuel, s, hs⟩
  · intro h
    obtain ⟨fuel, s, hs⟩ := h
    refine ⟨fuel, rangeDeleted p s, ?_⟩
    rw [handleDeleteDataCommand_eq hstart hstop hle, hs]
    rfl

/-- A loop that ends has called `deleteData` once for each block. -/
lemma deletesEachOnce_iff_handled (deleteData : Store → L.Name → Store × ℤ) (store : Store)
    (hstart : p.startBlockId = some start) (hstop : p.endBlockId = some stop) (hle : start ≤ stop) :
    DeletesEachOnce deleteData store p start stop ↔
      ∃ fuel outcome, handleDeleteDataCommand deleteData fuel store p = some outcome := by
  constructor
  · intro h
    obtain ⟨fuel, outcome, ids, h, -⟩ := h
    exact ⟨fuel, outcome, h⟩
  · intro h
    obtain ⟨fuel, outcome, h⟩ := h
    refine ⟨fuel, outcome, upTo start stop, h, ?_, fun i => count_upTo⟩
    rw [outcome_of_handled hstart hstop hle h]
    exact foldl_store

end Loop

/-- Exactly the ranges below the largest number are deleted, each block once. -/
theorem deletes_each_once_iff {p : DeleteDataParameter L} {start stop : UInt64}
    (hstart : p.startBlockId = some start) (hstop : p.endBlockId = some stop) (hle : start ≤ stop) (store : Store) :
    DeletesEachOnce deleteData store p start stop ↔ stop.toNat ≠ 2 ^ 64 - 1 := by
  rw [deletesEachOnce_iff_handled deleteData store hstart hstop hle, handled_iff deleteData store hstart hstop hle]

def exampleParameter (start stop : UInt64) : DeleteDataParameter plainNames where
  name := [film]
  processId := some 8
  startBlockId := some start
  endBlockId := some stop

theorem two_blocks_deleted_once :
    DeletesEachOnce deleteStored ({} : FsStorage plainNames frameDigest) (exampleParameter 0 1) 0 1 :=
  (deletes_each_once_iff deleteStored rfl rfl (by decide) {}).mpr (by decide)

/-! ### The range of an empty object -/

/-- The last block of a file that the client announces. The count is a 64-bit number. -/
def publishedEnd (bytes blockSize : UInt64) : ℤ :=
  let blockCount := bytes / blockSize + (if bytes % blockSize ≠ 0 then 1 else 0)
  toInt (blockCount - 1)

/-- The end of a repo of a manifest is an `int`. -/
lemma ofInt_toNat_eq_max_iff {stop : ℤ} (hmin : -2 ^ 31 ≤ stop) (hmax : stop < 2 ^ 31) :
    (UInt64.ofInt stop).toNat = 2 ^ 64 - 1 ↔ stop = -1 := by
  unfold UInt64.ofInt
  rw [UInt64.toNat_ofNat']
  omega

/-- The command that `deleteData` sends for a repo is one that ends unless the repo ends at -1. -/
theorem repo_deleted_iff {p : DeleteDataParameter L} {repo : Repo} (hstart : p.startBlockId = some (.ofInt repo.start))
    (hstop : p.endBlockId = some (.ofInt repo.stop)) (hle : UInt64.ofInt repo.start ≤ UInt64.ofInt repo.stop)
    (hmin : -2 ^ 31 ≤ repo.stop) (hmax : repo.stop < 2 ^ 31) (store : Store) :
    DeletesEachOnce deleteData store p (.ofInt repo.start) (.ofInt repo.stop) ↔ repo.stop ≠ -1 := by
  rw [deletesEachOnce_iff_handled deleteData store hstart hstop hle, handled_iff deleteData store hstart hstop hle,
    ne_eq, ofInt_toNat_eq_max_iff hmin hmax]

/-- The manifest of a file without bytes, which its client announces with the end -1. -/
def emptyFilm : Manifest :=
  WriteHandle.newManifest (L := plainNames) (WriteHandle.announced {} "/node"
    (.fromInfoJson (putFileSendManifest archiveDigest [film] (publishedEnd 0 8000))))

/-- The largest number. -/
def maxBlockId : UInt64 := .ofInt (-1)

/-- The node of the manifest asks for the blocks from 0 to the largest number, and the loop over
them goes on forever. -/
theorem empty_film_never_deleted :
    emptyFilm.mRepos = [⟨"/node", 0, -1⟩] ∧
    ((({} : DeleteHandle plainNames).setProcess 7 { repos := emptyFilm.mRepos, name := [film] }).deleteData
      ⟨[film], some 6⟩ 7 8).map (fun r => r.calls) =
        some [.deleteData "/node" [film] 0 maxBlockId 8 4000 ⟨[film], some 6⟩ 7] ∧
    (∀ fuel, handleDeleteDataCommand deleteStored fuel ({} : FsStorage plainNames archiveDigest)
      (exampleParameter 0 maxBlockId) = none) ∧
    ¬ DeletesEachOnce deleteStored ({} : FsStorage plainNames archiveDigest) (exampleParameter 0 maxBlockId) 0
      maxBlockId := by
  have hreturns : ∀ fuel, handleDeleteDataCommand deleteStored fuel ({} : FsStorage plainNames archiveDigest)
      (exampleParameter 0 maxBlockId) = none := by
    intro fuel
    rw [handleDeleteDataCommand_eq rfl rfl (by decide +kernel), forUpTo_eq_none (by decide +kernel)]
    rfl
  refine ⟨by decide +kernel, by decide +kernel, hreturns, ?_⟩
  intro h
  obtain ⟨fuel, outcome, ids, hout, -⟩ := h
  rw [hreturns fuel] at hout
  cases hout

/-! ### The number of deleted packets -/

section DeleteNum

variable {sha1 : String → String}

/-- The packets that are gone. -/
def removed (s s' : FsStorage L sha1) : Set ((String × String) × Data L) := {file | file ∈ s.walk ∧ file ∉ s'.walk}

/-- The path of a block, which is that of its name. -/
def blockPath (sha1 : String → String) (dataName : L.Name) (i : UInt64) : String × String :=
  FsStorage.getPath sha1 (L.appendSegment dataName i)

/-- The packets that are stored under the names of the blocks. -/
def storedBlocks (s : FsStorage L sha1) (dataName : L.Name) (start stop : UInt64) :
    Set ((String × String) × Data L) :=
  {file | file ∈ s.walk ∧ ∃ i, start ≤ i ∧ i ≤ stop ∧ file.1 = blockPath sha1 dataName i}

structure TellsTruth (s : FsStorage L sha1) (repoParameter : DeleteDataParameter L) (start stop : UInt64)
    (outcome : DeleteDataOutcome (FsStorage L sha1)) : Prop where
  deleteNum : outcome.response.deleteNum = some (removed s outcome.store).ncard
  removes : removed s outcome.store = storedBlocks s repoParameter.name start stop

/-- Every block of the range is stored, under a path of its own. -/
structure BlocksStored (s : FsStorage L sha1) (dataName : L.Name) (start stop : UInt64) : Prop where
  stored : ∀ i, start ≤ i → i ≤ stop → s.has (L.appendSegment dataName i)
  apart : ∀ i j, start ≤ i → i ≤ stop → start ≤ j → j ≤ stop →
    blockPath sha1 dataName i = blockPath sha1 dataName j → i = j

variable {s : FsStorage L sha1} {dataName : L.Name} {start stop : UInt64} {ids : List UInt64}
  {t : DeleteLoop (FsStorage L sha1)} {path : String × String}

lemma deleteStored_fst (name : L.Name) : (deleteStored s name).1 = (s.erase name).1 := by
  unfold deleteStored RepoStorage.deleteData
  dsimp only
  split <;> rfl

/-- Neither of the two numbers that are returned is 0. -/
lemma deleteStored_snd (name : L.Name) : (deleteStored s name).2 ≠ 0 := by
  unfold deleteStored RepoStorage.deleteData
  dsimp only
  split <;> simp

lemma foldl_nDeletedData : (ids.foldl (fun s i => deleteBlock deleteStored dataName i s) t).nDeletedData =
    t.nDeletedData + UInt64.ofNat ids.length := by
  induction ids generalizing t with
  | nil => simp
  | cons i ids ih =>
    have hcount : (deleteBlock deleteStored dataName i t).nDeletedData = t.nDeletedData + 1 :=
      if_pos (deleteStored_snd _)
    rw [List.foldl_cons, ih, hcount, List.length_cons, UInt64.ofNat_add, add_comm (UInt64.ofNat _), add_assoc]
    rfl

/-- What the loop leaves under a path. -/
lemma foldl_file : (ids.foldl (fun s i => deleteBlock deleteStored dataName i s) t).store.file path =
    if ∃ i ∈ ids, path = blockPath sha1 dataName i then none else t.store.file path := by
  induction ids generalizing t with
  | nil => simp
  | cons i ids ih =>
    have hblock : (deleteBlock deleteStored dataName i t).store.file path =
        if path = blockPath sha1 dataName i then none else t.store.file path := by
      change (deleteStored t.store _).1.file path = _
      rw [deleteStored_fst, FsStorage.file_erase]
      rfl
    rw [List.foldl_cons, ih, hblock]
    by_cases hi : path = blockPath sha1 dataName i <;> simp [hi]

/-- The loop removes what is stored under the names of its blocks, and nothing else. -/
theorem removed_afterRange :
    removed s (afterRange deleteStored s dataName start stop).store = storedBlocks s dataName start stop := by
  ext file
  have hfile : (afterRange deleteStored s dataName start stop).store.file file.1 =
      if ∃ i ∈ upTo start stop, file.1 = blockPath sha1 dataName i then none else s.file file.1 := foldl_file
  change file ∈ s.walk ∧ file ∉ _ ↔ file ∈ s.walk ∧ _
  apply and_congr_right
  intro hs
  rw [FsStorage.mem_walk, hfile, FsStorage.mem_walk.mp hs]
  simp only [mem_upTo, and_assoc]
  split_ifs with h
  · exact iff_of_true not_false h
  · exact iff_of_false (fun hne => hne rfl) h

/-- The numbers of the range whose blocks are stored. -/
def storedIds (s : FsStorage L sha1) (dataName : L.Name) (start stop : UInt64) : Finset UInt64 :=
  (upTo start stop).toFinset.filter (fun i => s.has (L.appendSegment dataName i))

/-- A packet is counted by its path. -/
lemma ncard_storedBlocks : (storedBlocks s dataName start stop).ncard =
    ((storedIds s dataName start stop).image (blockPath sha1 dataName)).card := by
  have hinj : Set.InjOn Prod.fst (storedBlocks s dataName start stop) := by
    intro file hfile file' hfile' hpath
    have hdata := FsStorage.mem_walk.mp hfile.1
    rw [hpath, FsStorage.mem_walk.mp hfile'.1] at hdata
    exact Prod.ext hpath (Option.some.inj hdata).symm
  rw [← hinj.ncard_image, ← Set.ncard_coe_finset]
  congr 1
  ext path
  simp only [Finset.coe_image, Set.mem_image, Finset.mem_coe, storedIds, Finset.mem_filter, List.mem_toFinset, mem_upTo]
  constructor
  · intro h
    obtain ⟨file, ⟨hs, i, hi, hstop, hpath⟩, rfl⟩ := h
    refine ⟨i, ⟨⟨hi, hstop⟩, ?_⟩, hpath.symm⟩
    change (s.file (blockPath sha1 dataName i)).isSome
    rw [← hpath, FsStorage.mem_walk.mp hs]
    rfl
  · intro h
    obtain ⟨i, ⟨hi, hhas⟩, rfl⟩ := h
    obtain ⟨d, hd⟩ := Option.isSome_iff_exists.mp hhas
    exact ⟨(blockPath sha1 dataName i, d), ⟨FsStorage.mem_walk.mpr hd, i, hi.1, hi.2, rfl⟩, rfl⟩

/-- As many packets as the range has numbers are removed only where each number has its own. -/
lemma ncard_storedBlocks_eq_iff :
    (upTo start stop).length = (storedBlocks s dataName start stop).ncard ↔ BlocksStored s dataName start stop := by
  have hlen : (upTo start stop).toFinset.card = (upTo start stop).length :=
    List.toFinset_card_of_nodup (nodup_upTo start stop)
  have hstored : (storedIds s dataName start stop).card ≤ (upTo start stop).toFinset.card := Finset.card_filter_le _ _
  have himage : ((storedIds s dataName start stop).image (blockPath sha1 dataName)).card ≤
      (storedIds s dataName start stop).card := Finset.card_image_le
  rw [ncard_storedBlocks, ← hlen]
  constructor
  · intro h
    have hall : ∀ i ∈ (upTo start stop).toFinset, s.has (L.appendSegment dataName i) :=
      Finset.card_filter_eq_iff.mp (by change (storedIds s dataName start stop).card = _; omega)
    have hinj : Set.InjOn (blockPath sha1 dataName) (storedIds s dataName start stop) :=
      Finset.card_image_iff.mp (by omega)
    have hmem : ∀ i, start ≤ i → i ≤ stop → i ∈ (upTo start stop).toFinset := fun i hi hstop =>
      List.mem_toFinset.mpr (mem_upTo.mpr ⟨hi, hstop⟩)
    refine ⟨fun i hi hstop => hall i (hmem i hi hstop), ?_⟩
    intro i j hi histop hj hjstop hpath
    apply hinj _ _ hpath
    · exact Finset.mem_coe.mpr (Finset.mem_filter.mpr ⟨hmem i hi histop, hall i (hmem i hi histop)⟩)
    · exact Finset.mem_coe.mpr (Finset.mem_filter.mpr ⟨hmem j hj hjstop, hall j (hmem j hj hjstop)⟩)
  · intro h
    have hrange : ∀ i ∈ (upTo start stop).toFinset, start ≤ i ∧ i ≤ stop := fun i hi =>
      mem_upTo.mp (List.mem_toFinset.mp hi)
    have hall : (storedIds s dataName start stop).card = (upTo start stop).toFinset.card := by
      apply Finset.card_filter_eq_iff.mpr
      intro i hi
      exact h.stored i (hrange i hi).1 (hrange i hi).2
    have hinj : Set.InjOn (blockPath sha1 dataName) (storedIds s dataName start stop) := by
      intro i hi j hj hpath
      have hirange := hrange i (Finset.mem_filter.mp hi).1
      have hjrange := hrange j (Finset.mem_filter.mp hj).1
      exact h.apart i j hirange.1 hirange.2 hjrange.1 hjrange.2 hpath
    rw [Finset.card_image_iff.mpr hinj, hall]

lemma nDeletedData_afterRange (hmax : stop.toNat < 2 ^ 64 - 1) :
    (afterRange deleteStored s dataName start stop).nDeletedData.toNat = (upTo start stop).length := by
  have hcount : (afterRange deleteStored s dataName start stop).nDeletedData = UInt64.ofNat (upTo start stop).length :=
    foldl_nDeletedData.trans (UInt64.zero_add _)
  have hlen : (upTo start stop).length = stop.toNat + 1 - start.toNat := length_upTo
  rw [hcount, toNat_ofNat (by omega)]

/-- The handler counts the numbers of the range. That is the number of the removed packets
exactly where each number has a packet of its own. -/
theorem delete_num_true_iff {p : DeleteDataParameter L} {processId : UInt64} (hstart : p.startBlockId = some start)
    (hstop : p.endBlockId = some stop) (hid : p.processId = some processId) (hle : start ≤ stop)
    (hmax : stop.toNat < 2 ^ 64 - 1) (s : FsStorage L sha1) :
    (∃ fuel outcome, handleDeleteDataCommand deleteStored fuel s p = some outcome) ∧
      ∀ fuel outcome, handleDeleteDataCommand deleteStored fuel s p = some outcome →
        (TellsTruth s p start stop outcome ↔ BlocksStored s p.name start stop) := by
  refine ⟨(handled_iff deleteStored s hstart hstop hle).mpr (by omega), ?_⟩
  intro fuel outcome h
  have hout := outcome_of_handled hstart hstop hle h
  have hremoved : removed s outcome.store = storedBlocks s p.name start stop := by
    rw [hout]
    exact removed_afterRange
  have hnum : outcome.response.deleteNum = some (upTo start stop).length := by
    have hcount : (afterRange deleteStored s p.name start stop).nDeletedData.toNat = (upTo start stop).length :=
      nDeletedData_afterRange hmax
    rw [hout, ← hcount]
    unfold rangeDeleted positiveReply
    rw [hid]
  rw [← ncard_storedBlocks_eq_iff]
  constructor
  · intro htruth
    have hcard := htruth.deleteNum
    rw [hnum, hremoved] at hcard
    exact Option.some.inj hcard
  · intro hcard
    refine ⟨?_, hremoved⟩
    rw [hnum, hremoved, hcard]

/-- A store with two blocks of the film. -/
def twoFrames : FsStorage plainNames frameDigest :=
  ((FsStorage.insert {} (frame 0)).1.insert (frame 1)).1

theorem two_frames_counted : ∃ fuel outcome,
    handleDeleteDataCommand deleteStored fuel twoFrames (exampleParameter 0 1) = some outcome ∧
      TellsTruth twoFrames (exampleParameter 0 1) 0 1 outcome := by
  have hrange : upTo 0 1 = [0, 1] := by decide +kernel
  have hids : ∀ i : UInt64, 0 ≤ i → i ≤ 1 → i = 0 ∨ i = 1 := by
    intro i hi hstop
    have hmem := mem_upTo.mpr ⟨hi, hstop⟩
    rw [hrange] at hmem
    simpa using hmem
  have hstored : twoFrames.has (plainNames.appendSegment [film] 0) ∧
      twoFrames.has (plainNames.appendSegment [film] 1) := by decide +kernel
  have hapart : blockPath (L := plainNames) frameDigest [film] 0 ≠ blockPath frameDigest [film] 1 := by decide +kernel
  have hblocks : BlocksStored twoFrames [film] 0 1 := by
    constructor
    · intro i hi hstop
      obtain rfl | rfl := hids i hi hstop
      · exact hstored.1
      · exact hstored.2
    · intro i j hi histop hj hjstop hpath
      obtain rfl | rfl := hids i hi histop <;> obtain rfl | rfl := hids j hj hjstop
      · rfl
      · exact absurd hpath hapart
      · exact absurd hpath.symm hapart
      · rfl
  obtain ⟨⟨fuel, outcome, hout⟩, htruth⟩ :=
    delete_num_true_iff (p := exampleParameter 0 1) rfl rfl rfl (by decide) (by decide +kernel) twoFrames
  exact ⟨fuel, outcome, hout, (htruth fuel outcome hout).mpr hblocks⟩

/-- A block that is not there is counted. -/
theorem missing_frame_counted : ∃ fuel outcome,
    handleDeleteDataCommand deleteStored fuel ({} : FsStorage plainNames frameDigest) (exampleParameter 0 0) =
        some outcome ∧
      outcome.response.deleteNum = some 1 ∧ (removed {} outcome.store).ncard = 0 ∧
      ¬ TellsTruth {} (exampleParameter 0 0) 0 0 outcome := by
  obtain ⟨fuel, outcome, hout⟩ := (handled_iff (p := exampleParameter 0 0) deleteStored
    ({} : FsStorage plainNames frameDigest) rfl rfl (by decide)).mpr (by decide)
  have heq := outcome_of_handled rfl rfl (by decide) hout
  have hnum : outcome.response.deleteNum = some 1 := by
    rw [heq]
    change some (afterRange deleteStored {} [film] 0 0).nDeletedData.toNat = some 1
    rw [nDeletedData_afterRange (by decide), length_upTo]
    rfl
  have hcard : (removed {} outcome.store).ncard = 0 := by
    rw [heq]
    change (removed {} (afterRange deleteStored {} [film] 0 0).store).ncard = 0
    have hempty : storedBlocks ({} : FsStorage plainNames frameDigest) [film] 0 0 = ∅ :=
      Set.eq_empty_of_forall_notMem (fun file hfile => List.not_mem_nil hfile.1)
    rw [removed_afterRange, hempty, Set.ncard_empty]
  refine ⟨fuel, outcome, hout, hnum, hcard, ?_⟩
  intro h
  have htrue := h.deleteNum
  rw [hnum, hcard] at htrue
  cases htrue

end DeleteNum

end DeleteHandle

end Difs
