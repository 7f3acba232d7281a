import Difs.Client.PutSession
import Difs.Insert.Findable

/-!
# Files that were put

A client that has completed can rely on the node: it has counted exactly the segments that its
process got, and they are read back as the bytes of the file.
-/

namespace Difs

open EventRun

section Stored

variable {L : NameLibrary} {sha1 : String → String} {lib : PacketLibrary L} {c : PutClient L}
  {store : DataStore L sha1} {t : PutNet L sha1} {d : PutData L} {p : UInt64} {nodePrefix : Option (List String)}
  {keySpace : KeySpaceHandle} {settings : WriteHandle L} {es : List (PutEvent L)}

/-- In every state a process of the file has counted as many segments as there are exactly if it has got
them all. -/
theorem put_counts_exact (hnumber : c.mCurrentSegmentNo.toNat = c.mData.length)
    (hapart : PathsApart lib sha1 c.mData) (hfull : NoFullNames lib c.mData store)
    (hcounts : ∀ d ∈ c.mData, hash (L.uri d.name) ≠ notFound)
    (hmeets : Meets (PutNet.step lib) (FetchersHandOver lib) (putStart c nodePrefix keySpace settings store) es)
    (hrun : run (PutNet.step lib) (putStart c nodePrefix keySpace settings store) es = some t)
    {process : ProcessInfo L} (hp : t.node.handle.mProcesses p = some process)
    (hobject : t.node.objects p = some c.mDataPrefix) :
    process.response.getInsertNum = c.mCurrentSegmentNo ↔ ∀ d ∈ c.mData, d.name ∈ t.handed p := by
  have ht := putInv_of_run hnumber hapart hfull hmeets hrun
  obtain ⟨hnodup, hnames⟩ := ht.handed p hobject
  have hsub : (t.handed p).Subperm (c.mData.map PutData.name) := hnodup.subperm (fun name hname => by
    obtain ⟨d, hd, rfl⟩ := hnames name hname
    exact List.mem_map_of_mem hd)
  have hle := hsub.length_le
  have hlt := c.mCurrentSegmentNo.toNat_lt
  rw [List.length_map] at hle
  have hcount : process.response.getInsertNum = c.mCurrentSegmentNo ↔ (t.handed p).length = c.mData.length := by
    rw [ht.exact hcounts p process hp hobject, ← UInt64.toNat_inj,
      UInt64.toNat_ofNat_of_lt' (by show (t.handed p).length < 2 ^ 64; omega), hnumber]
  rw [hcount]
  constructor
  · intro hlength d hd
    have hperm := hsub.perm_of_length_le (by rw [List.length_map, hlength])
    exact hperm.mem_iff.mpr (List.mem_map_of_mem hd)
  · intro hall
    have hmap : (c.mData.map PutData.name).Subperm (t.handed p) := hapart.nodup.subperm (fun name hname => by
      obtain ⟨d, hd, rfl⟩ := List.mem_map.mp hname
      exact hall d hd)
    have hge := hmap.length_le
    rw [List.length_map] at hge
    exact le_antisymm hle hge

/-! ### The bytes of the file -/

/-- `ReadHandle::onInterest` puts what `readData` finds under the name of the Interest. -/
def onInterest (store : DataStore L sha1) (interest : L.Name) : Option (Data L) := store.read interest

/-- `DIFS::onDataCommandResponse`. -/
def PacketLibrary.write (lib : PacketLibrary L) (os : List UInt8) (data : Data L) : List UInt8 :=
  os ++ lib.getContent data

lemma foldl_write (packets : List (Data L)) (os : List UInt8) :
    packets.foldl lib.write os = os ++ packets.flatMap lib.getContent := by
  induction packets generalizing os with
  | nil => exact (List.append_nil os).symm
  | cons d packets ih =>
    rw [List.foldl_cons, ih, List.flatMap_cons, PacketLibrary.write, List.append_assoc]

/-- The names that are digested for the packets of a file. -/
def packetNames (lib : PacketLibrary L) (datas : List (PutData L)) : Set L.Name :=
  {name | ∃ d ∈ datas, name = d.name ∨ name = (lib.encode d).getFullName}

section File

open PutClient

variable {c₀ : PutClient L} {signature : PutData L → List UInt8} {fuel : ℕ} {ndnName : L.Name} {bytes : List UInt8}
  {blockSize : UInt64} {q : ℕ}

lemma segment_injective (lib : PacketLibrary L) : Function.Injective L.segment := by
  intro i j hij
  have hread := congrArg lib.toSegment hij
  rwa [lib.toSegment_segment, lib.toSegment_segment, Option.some_inj] at hread

/-- What a file that does not end with a full block is cut into. -/
lemma publishesWhole_of_completed (hblock : 0 < c₀.mBlockSize.toNat) (hfresh : c₀.Fresh)
    (hbytes : bytes.length < 2 ^ 63) (hne : bytes ≠ []) (hsize : WholeSize bytes.length c₀.mBlockSize.toNat)
    (h : putFile signature fuel c₀ ndnName bytes = some (.completed c)) :
    PublishesWhole ndnName bytes c₀.mBlockSize (bytes.length / c₀.mBlockSize.toNat : ℕ) c ∧
      c.mDataPrefix = ndnName := by
  obtain ⟨hsize, hnil | ⟨hpos, hrest, hfew⟩⟩ := hsize
  · exact absurd (List.eq_nil_of_length_eq_zero hnil) hne
  obtain ⟨hdiv, hmod⟩ := toNat_blocks hbytes c₀.mBlockSize
  have hr := Nat.mod_lt bytes.length hblock
  have hlength := Nat.div_add_mod' bytes.length c₀.mBlockSize.toNat
  have hchunk : toInt (UInt64.ofNat bytes.length / c₀.mBlockSize) = (bytes.length / c₀.mBlockSize.toNat : ℕ) := by
    rw [toInt_eq (by omega), hdiv]
  have hlast : toInt (UInt64.ofNat bytes.length % c₀.mBlockSize) = (bytes.length % c₀.mBlockSize.toNat : ℕ) := by
    rw [toInt_eq (by omega), hmod]
  rw [putFile_eq hsize, hchunk, hlast] at h
  generalize bytes.length / c₀.mBlockSize.toNat = q at *
  generalize bytes.length % c₀.mBlockSize.toNat = r at *
  obtain ⟨s, ⟨hlinked, hcut⟩, hcount, rfl⟩ := prepareLoop_invariant
    (I := fun s => Linked q ndnName s ∧ Cut bytes c₀.mBlockSize.toNat q r s)
    (fun s s' data hs hcount _ hdata => ⟨hs.1.prepared hcount hdata,
      hs.2.prepared hlength.symm hbytes hsize hpos hr hcount hdata⟩)
    ⟨hfresh.linked q ndnName bytes, hfresh.cut ndnName hlength.symm⟩ h
  exact ⟨hcut.publishesWhole hlinked hcount (by omega), hlinked.mDataPrefix⟩

lemma length_of_published (h : PublishesWhole ndnName bytes blockSize q c) :
    c.mData.length = q + 1 ∧ c.mCurrentSegmentNo.toNat = q + 1 := by
  have hlength := congrArg List.length h.name
  have hnumber := h.mCurrentSegmentNo
  rw [List.length_map, List.length_map, List.length_range] at hlength
  omega

lemma length_name_of_published (h : PublishesWhole ndnName bytes blockSize q c) (hd : d ∈ c.mData) :
    d.name.length = ndnName.length + 1 := by
  have hname := List.mem_map_of_mem (f := PutData.name) hd
  rw [h.name] at hname
  obtain ⟨i, -, heq⟩ := List.mem_map.mp hname
  rw [← heq, NameLibrary.appendSegment, List.length_append, List.length_singleton]

/-- The names of the segments differ in their numbers, and full names are longer. -/
lemma pathsApart_of_published (h : PublishesWhole ndnName bytes blockSize q c)
    (hsha : Set.InjOn (DataStore.getPath sha1) (packetNames lib c.mData)) : PathsApart lib sha1 c.mData := by
  constructor
  · have hlt := c.mCurrentSegmentNo.toNat_lt
    have hnumber := (length_of_published h).2
    rw [h.name]
    refine List.Nodup.map_on ?_ List.nodup_range
    intro i hi j hj hij
    rw [List.mem_range] at hi hj
    have hsegment := segment_injective lib (List.singleton_injective (List.append_cancel_left hij))
    have htoNat := congrArg UInt64.toNat hsegment
    rwa [UInt64.toNat_ofNat_of_lt' (by show i < 2 ^ 64; omega),
      UInt64.toNat_ofNat_of_lt' (by show j < 2 ^ 64; omega)] at htoNat
  · intro d hd d' hd' hpath
    exact hsha ⟨d, hd, Or.inl rfl⟩ ⟨d', hd', Or.inl rfl⟩ hpath
  · intro d hd d' hd' hpath
    have heq := hsha ⟨d, hd, Or.inr rfl⟩ ⟨d', hd', Or.inl rfl⟩ hpath
    have hlength := congrArg List.length heq
    rw [Data.getFullName, lib.name_encode, List.length_append, List.length_singleton, length_name_of_published h hd,
      length_name_of_published h hd'] at hlength
    omega

/-- Where the packets of a file are stored, they are read, and what is written of them is the file. -/
lemma reads_of_stored {store : DataStore L sha1} (h : PublishesWhole ndnName bytes blockSize q c)
    (hstored : ∀ d ∈ c.mData, StoredPacket lib store d) : ∃ packets : List (Data L),
      (List.range (q + 1)).map (fun i => onInterest store (L.appendSegment ndnName (UInt64.ofNat i))) =
        packets.map some ∧
      packets.foldl lib.write [] = bytes := by
  refine ⟨c.mData.map lib.encode, ?_, ?_⟩
  · have hread : c.mData.map (fun d => onInterest store d.name) = c.mData.map (fun d => some (lib.encode d)) := by
      refine List.map_congr_left ?_
      intro d hd
      exact hstored d hd
    have hnames := congrArg (List.map (onInterest store)) h.name
    rw [List.map_map, List.map_map] at hnames
    rw [List.map_map]
    exact hnames.symm.trans hread
  · rw [foldl_write, List.nil_append, List.flatMap_map, ← h.content]
    simp only [lib.getContent_encode]

/-- When the client has completed, the node answers the Interests for the segments of its file, and
what is written of the answers is the file. -/
theorem put_then_read (hblock : 0 < c₀.mBlockSize.toNat) (hfresh : c₀.Fresh) (hbytes : bytes.length < 2 ^ 63)
    (hne : bytes ≠ []) (hsize : WholeSize bytes.length c₀.mBlockSize.toNat)
    (hput : putFile signature fuel c₀ ndnName bytes = some (.completed c))
    (hsha : Set.InjOn (DataStore.getPath sha1) (packetNames lib c.mData)) (hfull : NoFullNames lib c.mData store)
    (hmeets : Meets (PutNet.step lib) (FetchersHandOver lib) (putStart c nodePrefix keySpace settings store) es)
    (hrun : run (PutNet.step lib) (putStart c nodePrefix keySpace settings store) es = some t)
    (hcompleted : t.session.status = .completed) : ∃ packets : List (Data L),
      (List.range (bytes.length / c₀.mBlockSize.toNat + 1)).map (fun i =>
        onInterest t.node.store (L.appendSegment ndnName (UInt64.ofNat i))) = packets.map some ∧
      packets.foldl lib.write [] = bytes := by
  obtain ⟨hpublished, -⟩ := publishesWhole_of_completed hblock hfresh hbytes hne hsize hput
  have hnumbers := length_of_published hpublished
  have hapart := pathsApart_of_published hpublished hsha
  have ht := putInv_of_run (hnumbers.2.trans hnumbers.1.symm) hapart hfull hmeets hrun
  exact reads_of_stored hpublished (ht.session.completed hcompleted)

end File

end Stored

/-! ### The film -/

/-- The number after `seg=`. -/
def plainSegment (c : plainNames.Component) : Option UInt64 :=
  if (PlainComponent.text c).toList.take 4 = ['s', 'e', 'g', '='] then
    some (UInt64.ofNat (Nat.ofDigitChars 10 ((PlainComponent.text c).toList.drop 4) 0))
  else none

lemma plainSegment_segment (segmentNo : UInt64) : plainSegment (plainNames.segment segmentNo) = some segmentNo := by
  have htext : (PlainComponent.text (plainNames.segment segmentNo)).toList =
      's' :: 'e' :: 'g' :: '=' :: Nat.toDigits 10 segmentNo.toNat := by
    change ("seg=" ++ Nat.repr segmentNo.toNat).toList = _
    rw [String.toList_append, Nat.toList_repr]
    rfl
  unfold plainSegment
  rw [htext]
  change (if ['s', 'e', 'g', '='] = ['s', 'e', 'g', '='] then
    some (UInt64.ofNat (Nat.ofDigitChars 10 (Nat.toDigits 10 segmentNo.toNat) 0)) else none) = _
  rw [if_pos rfl, Nat.ofDigitChars_ten_toDigits, UInt64.ofNat_toNat]

lemma takeWhile_slash {cs ds : List Char} (h : '/' ∉ cs) :
    (cs ++ '/' :: ds).takeWhile (fun ch => decide (ch ≠ '/')) = cs ∧
      (cs ++ '/' :: ds).dropWhile (fun ch => decide (ch ≠ '/')) = '/' :: ds := by
  have hall : ∀ ch ∈ cs, decide (ch ≠ '/') = true := by
    intro ch hch
    refine decide_eq_true ?_
    rintro rfl
    exact h hch
  rw [List.takeWhile_append_of_pos hall, List.dropWhile_append_of_pos hall]
  simp

/-- A packet of the film has the digest of the frame in its place; what it carries starts with its
final block. -/
def filmPackets : PacketLibrary plainNames where
  toSegment := plainSegment
  matchesData interest data := interest = data.name
  encode data :=
    { name := data.name
      digest := (frame ((data.name.getLast?.bind plainSegment).getD 0)).digest
      content := String.ofList ((PlainComponent.text data.finalBlock).toList ++
        '/' :: data.content.map (fun b => Char.ofNat b.toNat)) }
  getContent data :=
    ((data.content.toList.dropWhile (fun ch => decide (ch ≠ '/'))).drop 1).map (fun ch => UInt8.ofNat ch.toNat)
  toSegment_segment := plainSegment_segment
  name_encode _ := rfl
  getContent_encode data := by
    have hbyte : ∀ b : UInt8, UInt8.ofNat (Char.ofNat b.toNat).toNat = b := by decide +kernel
    rw [String.toList_ofList, (takeWhile_slash (PlainComponent.slash data.finalBlock)).2]
    simp [List.map_map, Function.comp_def, hbyte]

/-- The client after it has cut the film into three segments. -/
def filmCut : PutClient plainNames :=
  match PutClient.putFile PutClient.filmSignature 4 PutClient.filmClient [film] PutClient.filmBytes with
  | some (.completed c) => c
  | _ => PutClient.filmClient

def putFilmStart : PutNet plainNames insertDigest := putStart filmCut none exampleKeySpace exampleHandle {}

def filmPacket (segmentNo : UInt64) (content : String) : Data plainNames where
  name := plainNames.appendSegment [film] segmentNo
  digest := (frame segmentNo).digest
  content := "seg=2/" ++ content

/-- The second segment is handed over first, and the client checks when all are there. -/
def putFilm : List (PutEvent plainNames) :=
  let accepted : RepoCommandResponse := { code := 100, processId := some 7, insertNum := some 0 }
  let checked : RepoCommandResponse := { code := 300, processId := some 7, insertNum := some 3 }
  [.registered, .node (.insert 0 { name := [film] }),
    .node (.data (.find "/a/repo" (insertDigest "/film") 0 4000 0 { name := [film] }) .empty true 7 0),
    .answered .insert accepted,
    .node (.data (.object [film] none 4000 7) (.info ⟨"/film", insertDigest "/film", 2⟩) true 0 0),
    .fetch 7 0, .fetch 7 1, .fetch 7 2, .node (.segment 7 (filmPacket 1 "\x03\x04") 0),
    .node (.segment 7 (filmPacket 0 "\x01\x02") 0), .node (.segment 7 (filmPacket 2 "\x05") 0),
    .due, .node (.check 7 100), .answered (.check 7) checked]

def putFilmEnd : Option (PutNet plainNames insertDigest) := run (PutNet.step filmPackets) putFilmStart putFilm

lemma film_put : putFilmEnd.map (fun t => t.session.status) = some .completed := by decide +kernel

lemma film_cut : PutClient.putFile PutClient.filmSignature 4 PutClient.filmClient [film] PutClient.filmBytes =
    some (.completed filmCut) := by
  unfold filmCut
  have hcompleted : ((PutClient.putFile PutClient.filmSignature 4 PutClient.filmClient [film]
      PutClient.filmBytes).any PutOutcome.isCompleted) = true := by decide +kernel
  obtain ⟨outcome, houtcome, hend⟩ := (Option.any_eq_true _ _).mp hcompleted
  rw [houtcome]
  cases outcome with
  | completed c => rfl
  | lengthError => cases hend
  | overflow => cases hend
  | readFailed c => cases hend

lemma film_paths : Set.InjOn (DataStore.getPath insertDigest) (packetNames filmPackets filmCut.mData) := by
  have hnodup : ((filmCut.mData.flatMap (fun d => [d.name, (filmPackets.encode d).getFullName])).map
      (DataStore.getPath insertDigest)).Nodup := by decide +kernel
  have hmem : ∀ name ∈ packetNames filmPackets filmCut.mData,
      name ∈ filmCut.mData.flatMap (fun d => [d.name, (filmPackets.encode d).getFullName]) := by
    intro name ⟨d, hd, hname⟩
    exact List.mem_flatMap.mpr ⟨d, hd, by simpa using hname⟩
  intro name hname other hother hpath
  exact List.inj_on_of_nodup_map hnodup (hmem name hname) (hmem other hother) hpath

lemma film_hands_over : Meets (PutNet.step filmPackets) (FetchersHandOver filmPackets) putFilmStart putFilm := by
  decide +kernel

theorem film_put_then_read : ∃ t, putFilmEnd = some t ∧ ∃ packets : List (Data plainNames),
    (List.range 3).map (fun i => onInterest t.node.store (plainNames.appendSegment [film] (UInt64.ofNat i))) =
      packets.map some ∧
    packets.foldl filmPackets.write [] = PutClient.filmBytes := by
  obtain ⟨t, ht, hcompleted⟩ := Option.map_eq_some_iff.mp film_put
  exact ⟨t, ht, put_then_read (by decide) ⟨rfl, rfl⟩ (by decide) (by decide) ⟨by decide, Or.inr (by decide)⟩ film_cut
    film_paths (fun _ _ => rfl) film_hands_over ht hcompleted⟩

/-- Before the third segment the process has counted two. -/
theorem film_counts_exact : ∃ t process,
    run (PutNet.step filmPackets) putFilmStart (putFilm.take 10) = some t ∧
      t.node.handle.mProcesses 7 = some process ∧
      (process.response.getInsertNum = filmCut.mCurrentSegmentNo ↔ ∀ d ∈ filmCut.mData, d.name ∈ t.handed 7) := by
  have hone : ((run (PutNet.step filmPackets) putFilmStart (putFilm.take 10)).any (fun t =>
      (t.node.handle.mProcesses 7).isSome && t.node.objects 7 = some filmCut.mDataPrefix)) = true := by decide +kernel
  obtain ⟨t, ht, hall⟩ := (Option.any_eq_true _ _).mp hone
  rw [Bool.and_eq_true, decide_eq_true_eq] at hall
  obtain ⟨process, hp⟩ := Option.isSome_iff_exists.mp hall.1
  refine ⟨t, process, ht, hp, put_counts_exact (by decide +kernel) ?_ (fun _ _ => rfl) ?_ ?_ ht hp hall.2⟩
  · exact pathsApart_of_published (publishesWhole_of_completed (by decide) ⟨rfl, rfl⟩ (by decide) (by decide)
      ⟨by decide, Or.inr (by decide)⟩ film_cut).1 film_paths
  · decide +kernel
  · exact Meets.of_isPrefix film_hands_over (List.take_prefix 10 putFilm)

end Difs
