import Difs.Client.PutCompletion
import Difs.Delete.BlockRange
import Difs.Storage.SameFiles

/-!
# Files that were put and deleted

The packets of a node lie in a tree of directories. When a client has completed, a delete-data
command for the range that the client announced takes away exactly the segments of its file.
-/

namespace Difs

open EventRun CountedLoop DeleteHandle

section Deletion

variable {L : NameLibrary} {sha1 : String → String} {lib : PacketLibrary L} {c : PutClient L}
  {store : DataStore L sha1} {n t : PutNet L sha1} {nodePrefix : Option (List String)}
  {keySpace : KeySpaceHandle} {settings : WriteHandle L} {es : List (PutEvent L)} {e : PutEvent L}
  {s : FsStorage L sha1} {d : PutData L}

/-- All that happens to the store is that packets are inserted. -/
def InsertsOnly (store : DataStore L sha1) (t : PutNet L sha1) : Prop :=
  ∃ datas : List (Data L), t.node.store = store.insertAll datas

lemma InsertsOnly.step (hn : InsertsOnly store n) (h : n.step lib e = some t) : InsertsOnly store t := by
  obtain ⟨datas, hdatas⟩ := hn
  obtain ⟨we, rfl⟩ | hclient := PutNet.step_cases h
  · obtain ⟨node, hnode, rfl⟩ := Option.map_eq_some_iff.mp h
    unfold InsertsOnly
    dsimp only
    rw [(writeStep_counting hnode).store]
    unfold WriteNode.storeAfter
    split
    · split_ifs
      · rename_i data _ _
        refine ⟨datas ++ [data], ?_⟩
        rw [hdatas, DataStore.insertAll, DataStore.insertAll, List.foldl_append]
        rfl
      · exact ⟨datas, hdatas⟩
    · exact ⟨datas, hdatas⟩
  · refine ⟨datas, ?_⟩
    rw [PutNet.node_clientStep hclient, hdatas]

lemma insertsOnly_of_run
    (hrun : run (PutNet.step lib) (putStart c nodePrefix keySpace settings store) es = some t) : InsertsOnly store t :=
  run_invariant (C := fun _ _ => True) (fun _ _ _ hn _ h => hn.step h) ⟨[], rfl⟩
    (meets_iff.mpr (fun _ _ _ _ _ _ => trivial)) hrun

/-! ### The range of a file -/

/-- The segments are counted and gone, and all other files are as they were. -/
structure FileDeleted (datas : List (PutData L)) (s : FsStorage L sha1)
    (outcome : DeleteDataOutcome (FsStorage L sha1)) : Prop where
  code : outcome.response.code = 200
  deleteNum : outcome.response.deleteNum = some datas.length
  gone : ∀ d ∈ datas, outcome.store.read d.name = none
  others : ∀ path, (∀ d ∈ datas, path ≠ FsStorage.getPath sha1 d.name) → outcome.store.file path = s.file path

variable {ndnName : L.Name} {bytes : List UInt8} {blockSize : UInt64} {q : ℕ}

/-- The blocks up to the last segment have the names of the segments. -/
lemma exists_block_iff (h : PutClient.PublishesWhole ndnName bytes blockSize q c) {path : String × String} :
    (∃ i ∈ upTo 0 (UInt64.ofNat q), path = blockPath sha1 ndnName i) ↔
      ∃ d ∈ c.mData, path = FsStorage.getPath sha1 d.name := by
  have hq := c.mCurrentSegmentNo.toNat_lt
  have hnumber := (length_of_published h).2
  have hstop : (UInt64.ofNat q).toNat = q := UInt64.toNat_ofNat_of_lt' (by show q < 2 ^ 64; omega)
  have hnames : ∀ name, (∃ d ∈ c.mData, name = d.name) ↔
      ∃ i < q + 1, name = L.appendSegment ndnName (UInt64.ofNat i) := by
    intro name
    have hmem : name ∈ c.mData.map PutData.name ↔ name ∈ (List.range (q + 1)).map
        (fun i => L.appendSegment ndnName (UInt64.ofNat i)) := by
      rw [h.name]
      rfl
    simp only [List.mem_map, List.mem_range] at hmem
    simpa only [eq_comm (b := name)] using hmem
  constructor
  · rintro ⟨i, hi, rfl⟩
    have hle := UInt64.le_iff_toNat_le.mp (mem_upTo.mp hi).2
    obtain ⟨d, hd, hname⟩ := (hnames (L.appendSegment ndnName i)).mpr
      ⟨i.toNat, by omega, by rw [UInt64.ofNat_toNat]⟩
    exact ⟨d, hd, by rw [← hname]; rfl⟩
  · rintro ⟨d, hd, rfl⟩
    obtain ⟨i, hi, hname⟩ := (hnames d.name).mp ⟨d, hd, rfl⟩
    refine ⟨UInt64.ofNat i, mem_upTo.mpr ⟨UInt64.zero_le, ?_⟩, by rw [hname]; rfl⟩
    rw [UInt64.le_iff_toNat_le, hstop, UInt64.toNat_ofNat_of_lt' (by show i < 2 ^ 64; omega)]
    omega

/-- A delete-data command for all segments of a file. -/
lemma fileDeleted_of_handled (h : PutClient.PublishesWhole ndnName bytes blockSize q c)
    (hq : (UInt64.ofNat q).toNat = q) (hmax : q < 2 ^ 64 - 1) {p : DeleteDataParameter L} {processId : UInt64}
    (hname : p.name = ndnName) (hid : p.processId = some processId) (hstart : p.startBlockId = some 0)
    (hstop : p.endBlockId = some (UInt64.ofNat q)) {fuel : ℕ} {outcome : DeleteDataOutcome (FsStorage L sha1)}
    (hhandled : handleDeleteDataCommand deleteStored fuel s p = some outcome) : FileDeleted c.mData s outcome := by
  have houtcome := outcome_of_handled hstart hstop UInt64.zero_le hhandled
  have hcount : (afterRange deleteStored s p.name 0 (UInt64.ofNat q)).nDeletedData.toNat = c.mData.length := by
    rw [nDeletedData_afterRange (by omega), length_upTo, hq, (length_of_published h).1]
    rfl
  have hfile : ∀ path, outcome.store.file path =
      if ∃ d ∈ c.mData, path = FsStorage.getPath sha1 d.name then none else s.file path := by
    intro path
    rw [houtcome]
    unfold rangeDeleted afterRange
    dsimp only
    rw [foldl_file, hname]
    exact if_congr (exists_block_iff h) rfl rfl
  constructor
  · rw [houtcome]
    unfold rangeDeleted positiveReply
    rw [hid]
  · rw [houtcome, ← hcount]
    unfold rangeDeleted positiveReply
    rw [hid]
  · intro d hd
    rw [FsStorage.read_eq, hfile, if_pos ⟨d, hd, rfl⟩]
  · intro path hpath
    rw [hfile, if_neg (fun ⟨d, hd, heq⟩ => hpath d hd heq)]

variable {c₀ : PutClient L} {signature : PutData L → List UInt8} {fuel : ℕ}

/-- When the client has completed, the tree of the node holds its file, and a delete-data command for
the announced range returns, counts the segments and takes away these and nothing else. -/
theorem put_then_deleted (hblock : 0 < c₀.mBlockSize.toNat) (hfresh : c₀.Fresh) (hbytes : bytes.length < 2 ^ 63)
    (hne : bytes ≠ []) (hsize : PutClient.WholeSize bytes.length c₀.mBlockSize.toNat)
    (hput : PutClient.putFile signature fuel c₀ ndnName bytes = some (.completed c))
    (hsha : Set.InjOn (DataStore.getPath sha1) (packetNames lib c.mData)) (hfull : NoFullNames lib c.mData store)
    (hmeets : Meets (PutNet.step lib) (FetchersHandOver lib) (putStart c nodePrefix keySpace settings store) es)
    (hrun : run (PutNet.step lib) (putStart c nodePrefix keySpace settings store) es = some t)
    (hcompleted : t.session.status = .completed) (hs : SameFiles store s) {p : DeleteDataParameter L}
    {processId : UInt64} (hname : p.name = ndnName) (hid : p.processId = some processId)
    (hstart : p.startBlockId = some (.ofInt 0))
    (hstop : p.endBlockId = some (.ofInt (publishedEnd (UInt64.ofNat bytes.length) c₀.mBlockSize))) :
    ∃ datas, t.node.store = store.insertAll datas ∧
      (∀ d ∈ c.mData, (s.insertAll datas).read d.name = some (lib.encode d)) ∧
      (∃ fuel outcome, handleDeleteDataCommand deleteStored fuel (s.insertAll datas) p = some outcome) ∧
      ∀ fuel outcome, handleDeleteDataCommand deleteStored fuel (s.insertAll datas) p = some outcome →
        FileDeleted c.mData (s.insertAll datas) outcome := by
  obtain ⟨datas, hdatas⟩ := insertsOnly_of_run hrun
  obtain ⟨hpublished, -⟩ := publishesWhole_of_completed hblock hfresh hbytes hne hsize hput
  have hnumbers := length_of_published hpublished
  have hapart := pathsApart_of_published hpublished hsha
  have ht := putInv_of_run (hnumbers.2.trans hnumbers.1.symm) hapart hfull hmeets hrun
  obtain ⟨-, hnil | ⟨hpos, -, hfew⟩⟩ := hsize
  · exact absurd (List.eq_nil_of_length_eq_zero hnil) hne
  have hend : p.endBlockId = some (UInt64.ofNat (bytes.length / c₀.mBlockSize.toNat)) := by
    rw [hstop, PutClient.publishedEnd_eq hbytes (by omega), if_neg hpos.ne', sub_zero, PutClient.ofInt_natCast]
  have hq : (UInt64.ofNat (bytes.length / c₀.mBlockSize.toNat)).toNat = bytes.length / c₀.mBlockSize.toNat :=
    UInt64.toNat_ofNat_of_lt' (by show _ < 2 ^ 64; omega)
  refine ⟨datas, hdatas, ?_, ?_, ?_⟩
  · intro d hd
    have hread := ht.session.completed hcompleted d hd
    unfold StoredPacket at hread
    rw [← hread, hdatas, (hs.insertAll datas).read]
  · exact (handled_iff deleteStored _ hstart hend UInt64.zero_le).mpr (by omega)
  · intro fuel outcome hhandled
    exact fileDeleted_of_handled hpublished hq (by omega) hname hid hstart hend hhandled

end Deletion

/-- A node whose storage is empty. -/
def emptyTree : FsStorage plainNames insertDigest := {}

theorem film_put_then_deleted : ∃ t, putFilmEnd = some t ∧
    ∃ datas, t.node.store = ({} : DataStore plainNames insertDigest).insertAll datas ∧
      (∀ d ∈ filmCut.mData, (emptyTree.insertAll datas).read d.name = some (filmPackets.encode d)) ∧
      (∃ fuel outcome,
        handleDeleteDataCommand deleteStored fuel (emptyTree.insertAll datas) (exampleParameter 0 2) = some outcome) ∧
      ∀ fuel outcome,
        handleDeleteDataCommand deleteStored fuel (emptyTree.insertAll datas) (exampleParameter 0 2) = some outcome →
          FileDeleted filmCut.mData (emptyTree.insertAll datas) outcome := by
  obtain ⟨t, ht, hcompleted⟩ := Option.map_eq_some_iff.mp film_put
  exact ⟨t, ht, put_then_deleted (by decide) ⟨rfl, rfl⟩ (by decide) (by decide) ⟨by decide, Or.inr (by decide)⟩ film_cut
    film_paths (fun _ _ => rfl) film_hands_over ht hcompleted SameFiles.empty rfl rfl rfl (by decide +kernel)⟩

end Difs
