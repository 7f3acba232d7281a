import Difs.Client.PutCompletion
import Difs.Insert.Admission

/-!
# The client of a get

The client asks the first repo of the manifest for the segments, with a fetcher that goes on to the
final block that the packets name; the end in the manifest is not read. It writes each packet as it
arrives, so what it writes of a file that is stored are the blocks of the file in that order.
-/

namespace Difs

open PutClient

variable {L : NameLibrary} {sha1 : String → String}

/-- Besides, what the network library says of the final block of a packet. -/
structure GetLibrary (L : NameLibrary) extends PacketLibrary L where
  getFinalBlock : Data L → Option L.Component
  getFinalBlock_encode : ∀ data, getFinalBlock (encode data) = some data.finalBlock

namespace GetLibrary

/-- The number of the last segment that a packet names. -/
def lastSegment (lib : GetLibrary L) (data : Data L) : Option UInt64 := (lib.getFinalBlock data).bind lib.toSegment

end GetLibrary

namespace GetClient

/-- Content that is empty is an object that was not found; `fetch` parses the others. -/
def onGetCommandResponse : InsertContent → Option Manifest
  | .manifest json => Manifest.fromJson json
  | _ => none

/-- The Interests for the segments are forwarded to the first repo of the manifest. -/
def fetch (L : NameLibrary) (m : Manifest) : Option (String × (UInt64 → L.Name)) :=
  m.mRepos.head?.map (fun repo => (repo.name, m.segmentName L))

end GetClient

/-- The numbers of so many segments in their order. -/
def segmentNumbers (count : ℕ) : List UInt64 := (List.range count).map UInt64.ofNat

/-- A fetcher is done: it has handed over every segment up to the final block of its packets once, in
the order in which they came. -/
structure Fetched (lib : GetLibrary L) (store : DataStore L sha1) (names : UInt64 → L.Name) (order : List UInt64)
    (packets : List (Data L)) : Prop where
  answers : order.map (fun segmentNo => onInterest store (names segmentNo)) = packets.map some
  complete : ∃ last : UInt64, (∀ data ∈ packets, lib.lastSegment data = some last) ∧
    order.Perm (segmentNumbers (last.toNat + 1))

/-- The segments can come in every order, and are written in the order in which they come. -/
structure WritesBlocks (lib : GetLibrary L) (store : DataStore L sha1) (names : UInt64 → L.Name)
    (blocks : List (List UInt8)) : Prop where
  orders : ∀ order, (∃ packets, Fetched lib store names order packets) ↔ order.Perm (segmentNumbers blocks.length)
  written : ∀ order packets, Fetched lib store names order packets →
    packets.foldl lib.write [] = order.flatMap (fun segmentNo => blocks.getD segmentNo.toNat [])

/-- A get that is answered with that content asks the repo for the segments of the object. Whatever order
they come in, the blocks that are written are those of the file, in that order; in the order of
their numbers they are the file. -/
def Gets (lib : GetLibrary L) (store : DataStore L sha1) (content : InsertContent) (repo : String)
    (bytes : List UInt8) : Prop :=
  ∃ m names blocks, GetClient.onGetCommandResponse content = some m ∧ GetClient.fetch L m = some (repo, names) ∧
    WritesBlocks lib store names blocks ∧ blocks.flatten = bytes ∧
    ∀ packets, Fetched lib store names (segmentNumbers blocks.length) packets → packets.foldl lib.write [] = bytes

section File

variable {lib : GetLibrary L} {c : PutClient L} {store : DataStore L sha1} {ndnName : L.Name} {bytes : List UInt8}
  {blockSize : UInt64} {q : ℕ} {order : List UInt64} {packets : List (Data L)} {blocks : List (List UInt8)}
  {names : UInt64 → L.Name}

lemma mem_segmentNumbers {count : ℕ} {segmentNo : UInt64} (h : segmentNo ∈ segmentNumbers count) :
    segmentNo.toNat < count := by
  obtain ⟨k, hk, rfl⟩ := List.mem_map.mp h
  exact lt_of_le_of_lt (Nat.mod_le k _) (List.mem_range.mp hk)

/-- In the order of their numbers the blocks are put together again. -/
lemma flatMap_segmentNumbers (hlt : blocks.length < 2 ^ 64) :
    (segmentNumbers blocks.length).flatMap (fun segmentNo => blocks.getD segmentNo.toNat []) = blocks.flatten := by
  have hblocks : (List.range blocks.length).map (fun k => blocks.getD k []) = blocks := by
    apply List.ext_getElem
    · rw [List.length_map, List.length_range]
    · intro k hk hlength
      rw [List.getElem_map, List.getElem_range, List.getD_eq_getElem _ _ hlength]
  have hnumber : ∀ k ∈ List.range blocks.length, blocks.getD (UInt64.ofNat k).toNat [] = blocks.getD k [] := by
    intro k hk
    have hk := List.mem_range.mp hk
    rw [UInt64.toNat_ofNat_of_lt' (by show k < 2 ^ 64; omega)]
  rw [segmentNumbers, List.flatMap_map, List.flatMap_def, List.map_congr_left hnumber, hblocks]

/-- A file that has come in the order of its segments is written as it is. -/
lemma WritesBlocks.inOrder (h : WritesBlocks lib store names blocks) (hlt : blocks.length < 2 ^ 64)
    (hfetched : Fetched lib store names (segmentNumbers blocks.length) packets) :
    packets.foldl lib.write [] = blocks.flatten := by
  rw [h.written _ _ hfetched, flatMap_segmentNumbers hlt]

/-! ### A file that is stored -/

lemma exists_map_some {α β : Type} {f : α → Option β} {as : List α} (h : ∀ a ∈ as, (f a).isSome) :
    ∃ bs : List β, as.map f = bs.map some := by
  induction as with
  | nil => exact ⟨[], rfl⟩
  | cons a as ih =>
    obtain ⟨bs, hbs⟩ := ih (fun a ha => h a (List.mem_cons_of_mem _ ha))
    obtain ⟨b, hb⟩ := Option.isSome_iff_exists.mp (h a List.mem_cons_self)
    exact ⟨b :: bs, by rw [List.map_cons, List.map_cons, hb, hbs]⟩

/-- The Interest for a segment is answered with its packet. -/
lemma answered_of_stored (h : PublishesWhole ndnName bytes blockSize q c)
    (hstored : ∀ d ∈ c.mData, StoredPacket lib.toPacketLibrary store d) {segmentNo : UInt64} {d : PutData L}
    (hd : c.mData[segmentNo.toNat]? = some d) :
    onInterest store (L.appendSegment ndnName segmentNo) = some (lib.encode d) := by
  have hname := congrArg (fun names => names[segmentNo.toNat]?) h.name
  have hlt : segmentNo.toNat < q + 1 := by
    rw [← (length_of_published h).1]
    exact (List.getElem?_eq_some_iff.mp hd).1
  have hstop : ((q : ℤ) + 1).toNat = q + 1 := by omega
  simp only [List.getElem?_map, hd, hstop, List.getElem?_range hlt, Option.map_some, Option.some_inj,
    UInt64.ofNat_toNat] at hname
  rw [← hname]
  exact hstored d (List.mem_of_getElem? hd)

lemma lastSegment_of_published (h : PublishesWhole ndnName bytes blockSize q c) {d : PutData L} (hd : d ∈ c.mData) :
    lib.lastSegment (lib.encode d) = some (UInt64.ofInt q) := by
  rw [GetLibrary.lastSegment, lib.getFinalBlock_encode, h.finalBlock d hd, Option.bind_some, lib.toSegment_segment]

lemma toNat_lastSegment (h : PublishesWhole ndnName bytes blockSize q c) : (UInt64.ofInt q).toNat = q := by
  have hlt := c.mCurrentSegmentNo.toNat_lt
  have hnumber := (length_of_published h).2
  rw [ofInt_natCast, UInt64.toNat_ofNat_of_lt' (by show q < 2 ^ 64; omega)]

lemma segment_of_lt (h : PublishesWhole ndnName bytes blockSize q c) {segmentNo : UInt64}
    (hlt : segmentNo.toNat < q + 1) : ∃ d, c.mData[segmentNo.toNat]? = some d := by
  rw [← (length_of_published h).1] at hlt
  exact ⟨_, List.getElem?_eq_getElem hlt⟩

/-- The packet of the first segment says which one is the last. -/
lemma order_of_fetched (h : PublishesWhole ndnName bytes blockSize q c)
    (hstored : ∀ d ∈ c.mData, StoredPacket lib.toPacketLibrary store d)
    (hfetched : Fetched lib store (L.appendSegment ndnName) order packets) : order.Perm (segmentNumbers (q + 1)) := by
  obtain ⟨hanswers, last, hlast, hperm⟩ := hfetched
  have hzero : (0 : UInt64) ∈ order := by
    rw [hperm.mem_iff]
    exact List.mem_map.mpr ⟨0, List.mem_range.mpr (Nat.succ_pos _), rfl⟩
  have hpos : (0 : UInt64).toNat < q + 1 := Nat.succ_pos q
  obtain ⟨d, hd⟩ := segment_of_lt h hpos
  have hmem : some (lib.encode d) ∈ packets.map some := by
    rw [← hanswers, ← answered_of_stored h hstored hd]
    exact List.mem_map_of_mem hzero
  obtain ⟨packet, hpacket, heq⟩ := List.mem_map.mp hmem
  have hq := hlast packet hpacket
  rw [Option.some_inj.mp heq, lastSegment_of_published h (List.mem_of_getElem? hd), Option.some_inj] at hq
  rwa [← hq, toNat_lastSegment h] at hperm

lemma fetched_of_order (h : PublishesWhole ndnName bytes blockSize q c)
    (hstored : ∀ d ∈ c.mData, StoredPacket lib.toPacketLibrary store d)
    (hperm : order.Perm (segmentNumbers (q + 1))) :
    ∃ packets, Fetched lib store (L.appendSegment ndnName) order packets := by
  have hmem : ∀ segmentNo ∈ order, ∃ d, c.mData[segmentNo.toNat]? = some d := fun segmentNo hs =>
    segment_of_lt h (mem_segmentNumbers (hperm.mem_iff.mp hs))
  have hsome : ∀ segmentNo ∈ order, (onInterest store (L.appendSegment ndnName segmentNo)).isSome := by
    intro segmentNo hs
    obtain ⟨d, hd⟩ := hmem segmentNo hs
    rw [answered_of_stored h hstored hd]
    rfl
  obtain ⟨packets, hpackets⟩ := exists_map_some hsome
  refine ⟨packets, hpackets, UInt64.ofInt q, ?_, by rwa [toNat_lastSegment h]⟩
  intro packet hpacket
  have hanswer : some packet ∈ packets.map some := List.mem_map_of_mem hpacket
  rw [← hpackets] at hanswer
  obtain ⟨segmentNo, hs, heq⟩ := List.mem_map.mp hanswer
  obtain ⟨d, hd⟩ := hmem segmentNo hs
  rw [answered_of_stored h hstored hd, Option.some_inj] at heq
  rw [← heq]
  exact lastSegment_of_published h (List.mem_of_getElem? hd)

lemma contents_of_answers (h : PublishesWhole ndnName bytes blockSize q c)
    (hstored : ∀ d ∈ c.mData, StoredPacket lib.toPacketLibrary store d)
    (hlt : ∀ segmentNo ∈ order, segmentNo.toNat < q + 1)
    (hanswers : order.map (fun segmentNo => onInterest store (L.appendSegment ndnName segmentNo)) = packets.map some) :
    packets.flatMap lib.getContent =
      order.flatMap (fun segmentNo => (c.mData.map PutData.content).getD segmentNo.toNat []) := by
  induction order generalizing packets with
  | nil =>
    obtain rfl : packets = [] := List.map_eq_nil_iff.mp hanswers.symm
    rfl
  | cons segmentNo order ih =>
    rw [List.forall_mem_cons] at hlt
    obtain ⟨d, hd⟩ := segment_of_lt h hlt.1
    cases packets with
    | nil => cases hanswers
    | cons packet packets =>
      obtain ⟨hpacket, hrest⟩ := List.cons.inj hanswers
      dsimp only at hpacket
      rw [answered_of_stored h hstored hd, Option.some_inj] at hpacket
      have hblock : (c.mData.map PutData.content).getD segmentNo.toNat [] = d.content := by
        rw [List.getD_eq_getElem?_getD, List.getElem?_map, hd]
        rfl
      rw [List.flatMap_cons, List.flatMap_cons, ih hlt.2 hrest, hblock, ← hpacket, lib.getContent_encode]

/-- What arrives of a file that is stored are its packets, and their contents are its blocks. -/
theorem writesBlocks_of_stored (h : PublishesWhole ndnName bytes blockSize q c)
    (hstored : ∀ d ∈ c.mData, StoredPacket lib.toPacketLibrary store d) :
    WritesBlocks lib store (L.appendSegment ndnName) (c.mData.map PutData.content) where
  orders order := by
    rw [List.length_map, (length_of_published h).1]
    exact ⟨fun ⟨packets, hfetched⟩ => order_of_fetched h hstored hfetched, fetched_of_order h hstored⟩
  written order packets hfetched := by
    have hperm := order_of_fetched h hstored hfetched
    rw [foldl_write, List.nil_append]
    exact contents_of_answers h hstored (fun _ hs => mem_segmentNumbers (hperm.mem_iff.mp hs)) hfetched.answers

end File

end Difs
