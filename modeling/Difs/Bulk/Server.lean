import Difs.Bulk.TcpBulkInsert
import Difs.Lib.Producers
import Difs.Storage.Prefixes

/-!
# Bulk insertion by many clients

The handle accepts one connection after the other. Each has a buffer of its own, and all insert
into the storage of the node.
-/

namespace Difs

open EventRun Framing Producers

variable {L : NameLibrary} {sha1 : String → String}

inductive SocketEvent where
  | received (bytes : List UInt8)
  | error (error : ReceiveError)

def SocketEvent.bytes : SocketEvent → List UInt8
  | .received bytes => bytes
  | .error _ => []

/-- A handler that runs, with the packets that it passes to `insertData`. -/
def NdnCxx.onSocket {Block Data : Type} (cxx : NdnCxx Block Data) (fuel : ℕ) (connection : Connection Data) :
    SocketEvent → Option (Connection Data × List Data)
  | .received bytes =>
    (cxx.receive fuel connection bytes).map (fun c => (c, c.inserted.drop connection.inserted.length))
  | .error error =>
    connection.offered.bind (fun _ => (cxx.handleReceive fuel connection (some error) 0).map (fun c => (c, [])))

/-- The sink is the storage of the node with the handle that listens to it. -/
def bulkInsert (sha1 : String → String) {Block : Type} (cxx : NdnCxx Block (Data L)) (fuel : ℕ) :
    Workshop (Connection (Data L)) SocketEvent (Data L) (ListeningStore L sha1) where
  step := cxx.onSocket fuel
  put s data := s.after (.insertData data)

abbrev BulkState (L : NameLibrary) (sha1 : String → String) :=
  State ℕ (Connection (Data L)) (Data L) (ListeningStore L sha1)

abbrev BulkEvent (L : NameLibrary) := Producers.Event ℕ (Connection (Data L)) SocketEvent

/-- `handleAccept` starts a client with a buffer that is not initialised. -/
def Accepts (e : BulkEvent L) : Prop :=
  match e with
  | .start _ connection => ∃ memory : List UInt8, memory.length = maxNdnPacketSize ∧
      connection = startReceive (Data L) memory
  | .work _ _ => True

/-- What has arrived over a connection. -/
def bytesOf (i : ℕ) (es : List (BulkEvent L)) : List UInt8 := (eventsOf i es).flatMap SocketEvent.bytes

/-- A packet that is complete in what has arrived over a connection: one of its elements is of the type Data
and decodes to it. -/
def SentBy {Block : Type} (cxx : NdnCxx Block (Data L)) (IsElement : List UInt8 → Block → Prop)
    (es : List (BulkEvent L)) (i : ℕ) (data : Data L) : Prop :=
  ∃ pre elements, LongestSplit IsElement maxNdnPacketSize (bytesOf i es) pre elements ∧
    ∃ element ∈ elements, cxx.type element = tlvData ∧ cxx.wireDecode element = some data

/-! ### One connection -/

section Connection

variable {Block Data : Type} {cxx : NdnCxx Block Data} {IsElement : List UInt8 → Block → Prop} {fuel : ℕ}
  {connection c : Connection Data} {bytes chunk : List UInt8}

lemma inserted_receive (h : cxx.receive fuel connection chunk = some c) :
    c.inserted = connection.inserted ++ c.inserted.drop connection.inserted.length := by
  cases hoffered : connection.offered with
  | none => simp [NdnCxx.receive, hoffered] at h
  | some free =>
    by_cases hchunk : chunk.length ≤ free
    · rw [NdnCxx.receive_eq hoffered hchunk] at h
      obtain ⟨parsed, -, rfl⟩ := Option.map_eq_some_iff.mp h
      split_ifs <;> rw [List.drop_left]
    · simp [NdnCxx.receive, hoffered, hchunk] at h

lemma ReadOff.of_receive (hreads : Reads cxx.fromBuffer cxx.size IsElement) (hfuel : maxNdnPacketSize < fuel)
    (hoff : ReadOff cxx IsElement bytes connection) (h : cxx.receive fuel connection chunk = some c) :
    ReadOff cxx IsElement (bytes ++ chunk) c := by
  have hrun : run (cxx.receive fuel) connection [chunk] = some c := run_cons_eq_some.mpr ⟨c, h, rfl⟩
  have hend := readOff_run hreads hfuel hoff hrun
  rwa [List.flatten_singleton] at hend

end Connection

/-- A connection alone passes on the packets of what has arrived, also when it ends with an error. -/
lemma alone_bulkInsert {Block : Type} {cxx : NdnCxx Block (Data L)} {IsElement : List UInt8 → Block → Prop} {fuel : ℕ}
    (hreads : Reads cxx.fromBuffer cxx.size IsElement) (hfuel : maxNdnPacketSize < fuel)
    {connection u : Connection (Data L)} {bytes : List UInt8} {inputs : List SocketEvent} {items : List (Data L)}
    (hoff : ReadOff cxx IsElement bytes connection)
    (h : alone (bulkInsert sha1 cxx fuel) connection inputs = some (u, items)) :
    ∃ pre elements, LongestSplit IsElement maxNdnPacketSize (bytes ++ inputs.flatMap SocketEvent.bytes) pre elements ∧
      connection.inserted ++ items = elements.filterMap cxx.toInsert := by
  induction inputs generalizing bytes connection items with
  | nil =>
    cases h
    obtain ⟨pre, elements, hlongest, hinserted⟩ := hoff.longestSplit hreads (Or.inl rfl)
    rw [List.flatMap_nil, List.append_nil, List.append_nil]
    exact ⟨pre, elements, hlongest, hinserted⟩
  | cons e inputs ih =>
    obtain ⟨o, ho, hrest⟩ := Option.bind_eq_some_iff.mp h
    obtain ⟨v, hv, heq⟩ := Option.map_eq_some_iff.mp hrest
    obtain ⟨rfl, rfl⟩ := Prod.mk.inj heq
    cases e with
    | received chunk =>
      obtain ⟨c, hc, rfl⟩ := Option.map_eq_some_iff.mp ho
      obtain ⟨pre, elements, hlongest, hinserted⟩ := ih (hoff.of_receive hreads hfuel hc) hv
      refine ⟨pre, elements, ?_, ?_⟩
      · rwa [List.append_assoc] at hlongest
      · rw [← List.append_assoc, ← inserted_receive hc]
        exact hinserted
    | error error =>
      obtain ⟨free, hfree, hclosed⟩ := Option.bind_eq_some_iff.mp ho
      obtain ⟨c, hc, rfl⟩ := Option.map_eq_some_iff.mp hclosed
      cases hc
      -- nothing arrives at a socket that is closed
      have hnil : inputs = [] ∧ v.2 = [] := by
        cases inputs with
        | nil =>
          cases hv
          exact ⟨rfl, rfl⟩
        | cons e inputs => cases e <;> cases hv
      obtain ⟨pre, elements, hlongest, hinserted⟩ := hoff.longestSplit hreads (Or.inl rfl)
      refine ⟨pre, elements, ?_, ?_⟩
      · rw [hnil.1]
        simpa [SocketEvent.bytes] using hlongest
      · rw [hnil.2]
        simpa using hinserted

/-! ### The storage -/

section Storage

variable {s : ListeningStore L sha1} {datas : List (Data L)} {data : Data L} {path : String × String}

/-- Packets are stored under their names when nothing is under their full names. -/
lemma file_insertData (hfull : s.store.has data.getFullName = false) : (s.after (.insertData data)).store.file path =
    if path = FsStorage.getPath sha1 data.name then some data else s.store.file path := by
  have hstore : (s.after (.insertData data)).store = (s.store.insert data).1 := by
    unfold ListeningStore.after RepoStorage.insertData
    simp only [hfull, Bool.false_eq_true, if_false]
    split_ifs <;> rfl
  rw [hstore, FsStorage.file_insert]

lemma has_insertData {name : L.Name} (hfull : s.store.has data.getFullName = false)
    (hne : FsStorage.getPath sha1 name ≠ FsStorage.getPath sha1 data.name) :
    (s.after (.insertData data)).store.has name = s.store.has name := by
  unfold FsStorage.has
  rw [file_insertData hfull, if_neg hne]

/-- Under the path of each packet lies the last one with that path, and every other file is as it was. -/
lemma file_foldl (hfull : ∀ d ∈ datas, s.store.has d.getFullName = false)
    (hapart : ∀ d ∈ datas, ∀ d' ∈ datas, FsStorage.getPath sha1 d.getFullName ≠ FsStorage.getPath sha1 d'.name) :
    (∀ d ∈ datas, ∃ d' ∈ datas, FsStorage.getPath sha1 d'.name = FsStorage.getPath sha1 d.name ∧
      (datas.foldl (fun s d => s.after (.insertData d)) s).store.file (FsStorage.getPath sha1 d.name) = some d') ∧
    ∀ path, (∀ d ∈ datas, path ≠ FsStorage.getPath sha1 d.name) →
      (datas.foldl (fun s d => s.after (.insertData d)) s).store.file path = s.store.file path := by
  induction datas generalizing s with
  | nil => exact ⟨List.forall_mem_nil _, fun _ _ => rfl⟩
  | cons data datas ih =>
    rw [List.forall_mem_cons] at hfull
    obtain ⟨hown, hothers⟩ := ih (s := s.after (.insertData data))
      (fun d hd => (has_insertData hfull.1 (hapart d (List.mem_cons_of_mem _ hd) data List.mem_cons_self)).trans
        (hfull.2 d hd))
      (fun d hd d' hd' => hapart d (List.mem_cons_of_mem _ hd) d' (List.mem_cons_of_mem _ hd'))
    rw [List.foldl_cons]
    constructor
    · intro d hd
      by_cases hlater : ∃ d' ∈ datas, FsStorage.getPath sha1 d.name = FsStorage.getPath sha1 d'.name
      · obtain ⟨d', hd', hpath⟩ := hlater
        obtain ⟨last, hlast, hsame, hfile⟩ := hown d' hd'
        rw [hpath]
        exact ⟨last, List.mem_cons_of_mem _ hlast, hsame, hfile⟩
      · push Not at hlater
        obtain rfl | hd := List.mem_cons.mp hd
        · refine ⟨d, List.mem_cons_self, rfl, ?_⟩
          rw [hothers _ hlater, file_insertData hfull.1, if_pos rfl]
        · exact absurd rfl (hlater d hd)
    · intro path hpath
      rw [List.forall_mem_cons] at hpath
      rw [hothers path hpath.2, file_insertData hfull.1, if_neg hpath.1]

end Storage

/-! ### Many connections -/

section Connections

variable {Block : Type} {cxx : NdnCxx Block (Data L)} {IsElement : List UInt8 → Block → Prop} {fuel : ℕ}
  {s : ListeningStore L sha1} {t : BulkState L sha1} {es : List (BulkEvent L)} {i : ℕ} {d : Data L}

/-- What an element is passed on as. -/
lemma mem_toInsert {elements : List Block} : d ∈ elements.filterMap cxx.toInsert ↔
    ∃ element ∈ elements, cxx.type element = tlvData ∧ cxx.wireDecode element = some d := by
  simp only [List.mem_filterMap, NdnCxx.toInsert, Option.ite_none_right_eq_some]

lemma sentBy_iff (hreads : Reads cxx.fromBuffer cxx.size IsElement) {pre : List UInt8} {elements : List Block}
    (h : LongestSplit IsElement maxNdnPacketSize (bytesOf i es) pre elements) :
    SentBy cxx IsElement es i d ↔ d ∈ elements.filterMap cxx.toInsert := by
  rw [mem_toInsert]
  constructor
  · rintro ⟨pre', elements', h', hd⟩
    rwa [(h.unique hreads h').2] at hd
  · intro hd
    exact ⟨pre, elements, h, hd⟩

lemma mem_handedBy : d ∈ t.handedBy i ↔ (i, d) ∈ t.handed := by
  unfold State.handedBy
  rw [List.mem_filterMap]
  constructor
  · rintro ⟨⟨j, d'⟩, hmem, heq⟩
    dsimp only at heq
    split_ifs at heq with hj
    cases heq
    rwa [← hj]
  · intro hmem
    exact ⟨(i, d), hmem, if_pos rfl⟩

/-- Every connection has passed on the packets that are complete in what has arrived over it. -/
lemma handed_iff (hreads : Reads cxx.fromBuffer cxx.size IsElement) (hfuel : maxNdnPacketSize < fuel)
    (haccepts : ∀ e ∈ es, Accepts e) (hrun : run (step (bulkInsert sha1 cxx fuel)) { sink := s } es = some t) :
    (i, d) ∈ t.handed ↔ SentBy cxx IsElement es i d := by
  rw [← mem_handedBy]
  cases hu : t.producer i with
  | none =>
    obtain ⟨hnone, hevents⟩ := idle_of_run hrun rfl hu
    rw [hnone]
    have hempty : bytesOf i es = [] := by
      unfold bytesOf
      rw [hevents]
      rfl
    have hlongest : LongestSplit IsElement maxNdnPacketSize (bytesOf i es) [] [] := by
      rw [hempty]
      exact (longestSplit_iff hreads).mpr ⟨[], rfl, Splits.nil, hreads.stuck_nil⟩
    rw [sentBy_iff hreads hlongest]
    exact Iff.rfl
  | some u =>
    obtain ⟨connection, items, hstart, halone, hhanded⟩ := alone_of_started hrun rfl hu
    obtain ⟨memory, hmemory, rfl⟩ := haccepts _ hstart
    obtain ⟨pre, elements, hlongest, hinserted⟩ :=
      alone_bulkInsert hreads hfuel (readOff_startReceive hreads hmemory) halone
    rw [hhanded, sentBy_iff hreads hlongest, ← hinserted]
    exact Iff.rfl

/-- However the connections interleave, and whichever of them fail, in the end what is read under the name
of a packet that is complete in what has arrived is a packet that arrived with that path, and no other
file has changed. -/
theorem bulk_interleaved (hreads : Reads cxx.fromBuffer cxx.size IsElement) (hfuel : maxNdnPacketSize < fuel)
    (haccepts : ∀ e ∈ es, Accepts e) (hrun : run (step (bulkInsert sha1 cxx fuel)) { sink := s } es = some t)
    (hfull : ∀ i d, SentBy cxx IsElement es i d → s.store.has d.getFullName = false)
    (hapart : ∀ i j d d', SentBy cxx IsElement es i d → SentBy cxx IsElement es j d' →
      FsStorage.getPath sha1 d.getFullName ≠ FsStorage.getPath sha1 d'.name) :
    (∀ i d, SentBy cxx IsElement es i d → ∃ j d', SentBy cxx IsElement es j d' ∧
      FsStorage.getPath sha1 d'.name = FsStorage.getPath sha1 d.name ∧ t.sink.store.read d.name = some d') ∧
    ∀ path, (∀ i d, SentBy cxx IsElement es i d → path ≠ FsStorage.getPath sha1 d.name) →
      t.sink.store.file path = s.store.file path := by
  obtain ⟨handed, heq, hsink⟩ := sink_of_run hrun
  rw [List.nil_append] at heq
  subst heq
  have hiff (i : ℕ) (d : Data L) : (i, d) ∈ t.handed ↔ SentBy cxx IsElement es i d :=
    handed_iff hreads hfuel haccepts hrun
  have hsent : ∀ d ∈ t.handed.map Prod.snd, ∃ i, SentBy cxx IsElement es i d := by
    intro d hd
    obtain ⟨⟨i, d⟩, hmem, rfl⟩ := List.mem_map.mp hd
    exact ⟨i, (hiff i d).mp hmem⟩
  have hfull' : ∀ d ∈ t.handed.map Prod.snd, s.store.has d.getFullName = false := by
    intro d hd
    obtain ⟨i, hi⟩ := hsent d hd
    exact hfull i d hi
  have hapart' : ∀ d ∈ t.handed.map Prod.snd, ∀ d' ∈ t.handed.map Prod.snd,
      FsStorage.getPath sha1 d.getFullName ≠ FsStorage.getPath sha1 d'.name := by
    intro d hd d' hd'
    obtain ⟨i, hi⟩ := hsent d hd
    obtain ⟨j, hj⟩ := hsent d' hd'
    exact hapart i j d d' hi hj
  obtain ⟨hown, hothers⟩ := file_foldl hfull' hapart'
  rw [hsink]
  constructor
  · intro i d hd
    obtain ⟨d', hd', hpath, hfile⟩ := hown d (List.mem_map_of_mem (f := Prod.snd) ((hiff i d).mpr hd))
    obtain ⟨j, hj⟩ := hsent d' hd'
    refine ⟨j, d', hj, hpath, ?_⟩
    rw [FsStorage.read_eq]
    exact hfile
  · intro path hpath
    apply hothers
    intro d hd
    obtain ⟨i, hi⟩ := hsent d hd
    exact hpath i d hi

end Connections

/-! ### Two connections -/

/-- Another packet under the name of the second frame. -/
def cutAgain : Data plainNames := { frame 1 with digest := (frame 2).digest, content := "frame 1, cut again" }

def framePacket (n : UInt8) : Data plainNames := if n = 3 then cutAgain else frame n.toUInt64

/-- A packet of a frame of the film is the number of the frame. -/
def frameBlocks : NdnCxx Tlv.Block (Data plainNames) where
  fromBuffer := tlvBlocks.fromBuffer
  size := tlvBlocks.size
  type := tlvBlocks.type
  wireDecode b := b.value.head?.map framePacket

def frameBlock (n : UInt8) : Tlv.Block where
  type := ⟨6, by decide, by decide⟩
  value := [n]
  length_lt := by norm_num

lemma splits_frames (ns : List UInt8) : Splits (fun xs (b : Tlv.Block) => xs = b.wire) maxNdnPacketSize
    (ns.flatMap (fun n => [6, 1, n])) (ns.map frameBlock) := by
  induction ns with
  | nil => exact .nil
  | cons n ns ih =>
    have hlimit : [6, 1, n].length ≤ maxNdnPacketSize := Nat.le_of_ble_eq_true rfl
    exact Splits.cons (b := frameBlock n) rfl hlimit ih

/-- The second connection sends one frame while the first sends two, then a packet under the name of a frame
that the first has sent, and fails in the next. -/
def bulkFilm : List (BulkEvent plainNames) :=
  let memory := List.replicate 8800 0
  [.start 0 (startReceive _ memory), .work 0 (.received [6, 1]), .start 1 (startReceive _ memory),
    .work 1 (.received [6]), .work 0 (.received [0, 6, 1, 1]), .work 1 (.received [1, 2, 6, 1, 3, 6]),
    .work 1 (.error .failed)]

def bulkStart : ListeningStore plainNames frameDigest := { readHandle := { mPrefixSubsetLength := 1 } }

def framesOf : ℕ → List UInt8
  | 0 => [0, 1]
  | 1 => [2, 3]
  | _ => []

lemma bulkFilm_sent {i : ℕ} {d : Data plainNames} :
    SentBy frameBlocks (fun xs (b : Tlv.Block) => xs = b.wire) bulkFilm i d ↔
      d ∈ (framesOf i).map framePacket := by
  have hlongest : LongestSplit (fun xs (b : Tlv.Block) => xs = b.wire) maxNdnPacketSize (bytesOf i bulkFilm)
      ((framesOf i).flatMap (fun n => [6, 1, n])) ((framesOf i).map frameBlock) := by
    refine (longestSplit_iff reads_tlvBlocks).mpr ⟨if i = 1 then [6] else [], ?_, splits_frames _, ?_⟩
    · match i with
      | 0 => rfl
      | 1 => rfl
      | i + 2 => rfl
    · split_ifs
      · exact reads_tlvBlocks.stuck_of_read (by decide +kernel)
      · exact reads_tlvBlocks.stuck_nil
  have hpackets : frameBlocks.toInsert ∘ frameBlock = some ∘ framePacket := rfl
  rw [sentBy_iff reads_tlvBlocks hlongest, List.filterMap_map, hpackets, List.filterMap_eq_map]

def bulkFrames : List (Data plainNames) := [0, 1, 2, 3].map framePacket

lemma mem_bulkFrames {i : ℕ} {d : Data plainNames}
    (h : SentBy frameBlocks (fun xs (b : Tlv.Block) => xs = b.wire) bulkFilm i d) : d ∈ bulkFrames := by
  have hframes : framesOf i ⊆ [0, 1, 2, 3] := by
    match i with
    | 0 => decide
    | 1 => decide
    | i + 2 => exact List.nil_subset _
  exact List.map_subset framePacket hframes (bulkFilm_sent.mp h)

/-- The packet that came last is read. -/
theorem film_bulk_inserted : ∃ t,
    run (step (bulkInsert frameDigest frameBlocks 8801)) { sink := bulkStart } bulkFilm = some t ∧
      (t.sink.store.read (frame 1).name).map Data.content = some "frame 1, cut again" ∧
      ((∀ i d, SentBy frameBlocks (fun xs (b : Tlv.Block) => xs = b.wire) bulkFilm i d →
          ∃ j d', SentBy frameBlocks (fun xs (b : Tlv.Block) => xs = b.wire) bulkFilm j d' ∧
            FsStorage.getPath frameDigest d'.name = FsStorage.getPath frameDigest d.name ∧
            t.sink.store.read d.name = some d') ∧
        ∀ path, (∀ i d, SentBy frameBlocks (fun xs (b : Tlv.Block) => xs = b.wire) bulkFilm i d →
            path ≠ FsStorage.getPath frameDigest d.name) →
          t.sink.store.file path = bulkStart.store.file path) := by
  have hview : (run (step (bulkInsert frameDigest frameBlocks 8801)) { sink := bulkStart } bulkFilm).map (fun t =>
      (t.sink.store.read (frame 1).name).map Data.content) = some (some "frame 1, cut again") := by decide +kernel
  obtain ⟨t, hrun, hread⟩ := Option.map_eq_some_iff.mp hview
  refine ⟨t, hrun, hread, bulk_interleaved reads_tlvBlocks (by decide) ?_ hrun (fun _ _ _ => rfl) ?_⟩
  · intro e he
    simp only [bulkFilm, List.mem_cons, List.not_mem_nil, or_false] at he
    obtain rfl | rfl | rfl | rfl | rfl | rfl | rfl := he
    · exact ⟨_, List.length_replicate .., rfl⟩
    · trivial
    · exact ⟨_, List.length_replicate .., rfl⟩
    · trivial
    · trivial
    · trivial
    · trivial
  · have hapart : ∀ d ∈ bulkFrames, ∀ d' ∈ bulkFrames,
        FsStorage.getPath frameDigest d.getFullName ≠ FsStorage.getPath frameDigest d'.name := by decide +kernel
    intro i j d d' hd hd'
    exact hapart d (mem_bulkFrames hd) d' (mem_bulkFrames hd')

end Difs
