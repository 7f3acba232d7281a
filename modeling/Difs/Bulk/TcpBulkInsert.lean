import Difs.Lib.EventRun
import Difs.Lib.Framing
import Difs.Lib.Tlv

/-!
# Bulk insertion over TCP

The client collects what the socket delivers in one buffer of `MAX_NDN_PACKET_SIZE` bytes, reads
elements off its front, passes on those that are Data packets and moves the rest to the front.
Whatever the chunks, the elements read are those of the longest prefix of the stream that splits.
-/

namespace Difs

open EventRun Framing

/-- `ndn::MAX_NDN_PACKET_SIZE`. -/
def maxNdnPacketSize : ℕ := 8800

/-- `ndn::tlv::Data`. -/
def tlvData : ℕ := 6

/-- What the client calls of ndn-cxx. `wireDecode` is the constructor `Data(element)`; where that
throws it is `none`. -/
structure NdnCxx (Block Data : Type) where
  fromBuffer : List UInt8 → Option Block
  size : Block → ℕ
  type : Block → ℕ
  wireDecode : Block → Option Data

inductive ReceiveError where
  | operationCanceled
  | failed

/-- The bytes of the buffer behind the first `mInputBufferSize` are what was there before. -/
structure TcpBulkInsertClient where
  mInputBuffer : List UInt8
  mInputBufferSize : ℕ := 0

/-- A client, the packets it passed to `insertData`, and the length of the buffer that it offered
to `async_receive`, if a call is pending. -/
structure Connection (Data : Type) where
  client : TcpBulkInsertClient
  inserted : List Data := []
  offered : Option ℕ

/-- What the parse loop leaves. -/
structure Parsed (Data : Type) where
  offset : ℕ
  isOk : Bool
  inserted : List Data

namespace TcpBulkInsertClient

/-- The bytes received and not yet read. -/
def unread (client : TcpBulkInsertClient) : List UInt8 :=
  client.mInputBuffer.take client.mInputBufferSize

/-- The socket writes behind the bytes received before. -/
def write (client : TcpBulkInsertClient) (bytes : List UInt8) : TcpBulkInsertClient :=
  { client with mInputBuffer := client.mInputBuffer.take client.mInputBufferSize ++ bytes ++
                                client.mInputBuffer.drop (client.mInputBufferSize + bytes.length) }

/-- The bytes from `offset` on are copied to the front, over those already read. -/
def compact (client : TcpBulkInsertClient) (offset : ℕ) : TcpBulkInsertClient :=
  if 0 < offset then
    if offset ≠ client.mInputBufferSize then
      { mInputBuffer := (client.mInputBuffer.drop offset).take (client.mInputBufferSize - offset) ++
                        client.mInputBuffer.drop (client.mInputBufferSize - offset),
        mInputBufferSize := client.mInputBufferSize - offset }
    else { client with mInputBufferSize := 0 }
  else client

end TcpBulkInsertClient

namespace NdnCxx

variable {Block Data : Type}

/-- The packet that is passed to `insertData` for an element. -/
def toInsert (cxx : NdnCxx Block Data) (element : Block) : Option Data :=
  if cxx.type element = tlvData then cxx.wireDecode element else none

/-- The loop of `handleReceive`, with a bound on its rounds. -/
def parseElements (cxx : NdnCxx Block Data) (client : TcpBulkInsertClient) : ℕ → ℕ → Option (Parsed Data)
  | 0, _ => none
  | fuel + 1, offset =>
    if 0 < client.mInputBufferSize - offset then
      match cxx.fromBuffer ((client.mInputBuffer.drop offset).take (client.mInputBufferSize - offset)) with
      | none => some ⟨offset, false, []⟩
      | some element =>
        (cxx.parseElements client fuel (offset + cxx.size element)).map (fun parsed =>
          { parsed with inserted := (cxx.toInsert element).toList ++ parsed.inserted })
    else some ⟨offset, true, []⟩

/-- On an error the socket is closed, or was closed before. -/
def handleReceive (cxx : NdnCxx Block Data) (fuel : ℕ) (connection : Connection Data)
    (error : Option ReceiveError) (nBytesReceived : ℕ) : Option (Connection Data) :=
  match error with
  | some _ => some { connection with offered := none }
  | none =>
    let client := { connection.client with
                    mInputBufferSize := connection.client.mInputBufferSize + nBytesReceived }
    (cxx.parseElements client fuel 0).map (fun parsed =>
      let inserted := connection.inserted ++ parsed.inserted
      if ¬ parsed.isOk ∧ client.mInputBufferSize = maxNdnPacketSize ∧ parsed.offset = 0 then
        ⟨client, inserted, none⟩
      else
        ⟨client.compact parsed.offset, inserted,
          some (maxNdnPacketSize - (client.compact parsed.offset).mInputBufferSize)⟩)

/-- Bytes arrive, at most as many as the buffer offered holds. -/
def receive (cxx : NdnCxx Block Data) (fuel : ℕ) (connection : Connection Data) (bytes : List UInt8) :
    Option (Connection Data) :=
  match connection.offered with
  | none => none
  | some free =>
    if bytes.length ≤ free then
      cxx.handleReceive fuel { connection with client := connection.client.write bytes } none bytes.length
    else none

end NdnCxx

/-- The buffer of a new client is not initialised. -/
def startReceive (Data : Type) (memory : List UInt8) : Connection Data where
  client := { mInputBuffer := memory }
  offered := some maxNdnPacketSize

/-! ### The buffer -/

namespace TcpBulkInsertClient

variable {client : TcpBulkInsertClient} {bytes : List UInt8} {offset : ℕ}

/-- The buffer has its fixed length, and the bytes received are in it. -/
structure Fits (client : TcpBulkInsertClient) : Prop where
  length_eq : client.mInputBuffer.length = maxNdnPacketSize
  size_le : client.mInputBufferSize ≤ maxNdnPacketSize

lemma Fits.length_unread (h : client.Fits) : client.unread.length = client.mInputBufferSize := by
  have hlength := h.length_eq
  have hsize := h.size_le
  unfold unread
  rw [List.length_take]
  omega

/-- Reading at an offset reads the unread bytes from there on. -/
lemma window_eq : (client.mInputBuffer.drop offset).take (client.mInputBufferSize - offset) =
    client.unread.drop offset := by
  unfold unread
  rw [List.drop_take]

def received (client : TcpBulkInsertClient) (bytes : List UInt8) : TcpBulkInsertClient :=
  { client.write bytes with mInputBufferSize := (client.write bytes).mInputBufferSize + bytes.length }

lemma received_spec (h : client.Fits) (hfree : bytes.length ≤ maxNdnPacketSize - client.mInputBufferSize) :
    (client.received bytes).Fits ∧ (client.received bytes).unread = client.unread ++ bytes := by
  have hlength := h.length_eq
  have hsize := h.size_le
  have htake := h.length_unread
  unfold unread at htake ⊢
  unfold received write
  refine ⟨⟨?_, ?_⟩, ?_⟩
  · simp only [List.length_append, List.length_take, List.length_drop]
    omega
  · dsimp only
    omega
  · apply List.take_left'
    rw [List.length_append, htake]

lemma compact_spec (h : client.Fits) (hoffset : offset ≤ client.mInputBufferSize) :
    (client.compact offset).Fits ∧ (client.compact offset).unread = client.unread.drop offset ∧
      (client.compact offset).mInputBufferSize = client.mInputBufferSize - offset := by
  have hlength := h.length_eq
  have hsize := h.size_le
  have hunread := h.length_unread
  unfold compact
  by_cases hpos : 0 < offset
  · rw [if_pos hpos]
    by_cases hne : offset ≠ client.mInputBufferSize
    · rw [if_pos hne, window_eq]
      refine ⟨⟨?_, ?_⟩, ?_, rfl⟩
      · simp only [List.length_append, List.length_drop, hunread]
        omega
      · dsimp only
        omega
      · apply List.take_left'
        rw [List.length_drop, hunread]
    · rw [if_neg hne]
      refine ⟨⟨hlength, Nat.zero_le _⟩, ?_, ?_⟩
      · rw [List.drop_of_length_le (by omega)]
        exact List.take_zero
      · dsimp only
        omega
  · have hzero : offset = 0 := by omega
    rw [if_neg hpos, hzero]
    exact ⟨h, rfl, rfl⟩

end TcpBulkInsertClient

/-! ### The parse loop -/

namespace NdnCxx

variable {Block Data : Type} {cxx : NdnCxx Block Data} {IsElement : List UInt8 → Block → Prop} {fuel offset : ℕ}
  {client : TcpBulkInsertClient}

/-- The loop ends within one round more than there are bytes, and has split off elements until
none starts the rest. -/
lemma parseElements_spec (hreads : Reads cxx.fromBuffer cxx.size IsElement) (hfits : client.Fits)
    (hoffset : offset ≤ client.mInputBufferSize) (hfuel : client.mInputBufferSize - offset < fuel) :
    ∃ pre rest elements, client.unread.drop offset = pre ++ rest ∧
      Splits IsElement maxNdnPacketSize pre elements ∧
      cxx.parseElements client fuel offset =
        some ⟨offset + pre.length, decide (rest = []), elements.filterMap cxx.toInsert⟩ ∧
      (rest ≠ [] → cxx.fromBuffer rest = none) := by
  have hlength := hfits.length_unread
  have hsize := hfits.size_le
  induction fuel generalizing offset with
  | zero => omega
  | succ fuel ih =>
    rw [parseElements, TcpBulkInsertClient.window_eq]
    by_cases hpos : 0 < client.mInputBufferSize - offset
    · rw [if_pos hpos]
      cases hread : cxx.fromBuffer (client.unread.drop offset) with
      | none =>
        have hne : client.unread.drop offset ≠ [] := by
          rw [Ne, List.drop_eq_nil_iff]
          omega
        refine ⟨[], client.unread.drop offset, [], rfl, Splits.nil, ?_, fun _ => hread⟩
        simp [hne]
      | some element =>
        obtain ⟨xs, tail, hdrop, hx⟩ := (hreads.read_eq_some_iff _ element).mp hread
        have hlengths := congrArg List.length hdrop
        rw [List.length_drop, hlength, List.length_append] at hlengths
        have hxpos := hreads.size_pos hx
        have hnext : offset + xs.length ≤ client.mInputBufferSize := by omega
        obtain ⟨pre, rest, elements, hrest, hsplits, hparse, hstop⟩ := ih hnext (by omega)
        have htail : tail = pre ++ rest := by
          rw [← hrest, ← List.drop_drop, hdrop, List.drop_left]
        refine ⟨xs ++ pre, rest, element :: elements, ?_, Splits.cons hx (by omega) hsplits, ?_, hstop⟩
        · rw [hdrop, htail, List.append_assoc]
        · dsimp only
          rw [hreads.size_eq xs element hx, hparse, Option.map_some, List.length_append, Nat.add_assoc]
          cases htoInsert : cxx.toInsert element with
          | none => simp [htoInsert]
          | some packet => simp [htoInsert]
    · have hend : client.unread.drop offset = [] := by
        rw [List.drop_eq_nil_iff]
        omega
      refine ⟨[], [], [], hend, Splits.nil, ?_, fun h => absurd rfl h⟩
      rw [if_neg hpos]
      rfl

end NdnCxx

/-! ### Chunks -/

/-- What a connection holds after the bytes received so far: the elements of a split are passed on,
the rest is in the buffer. It is stuck with room for more while a call is pending, and fills the
buffer once the socket is closed. -/
structure ReadOff (cxx : NdnCxx Block Data) (IsElement : List UInt8 → Block → Prop) (bytes : List UInt8)
    (connection : Connection Data) : Prop where
  fits : connection.client.Fits
  split : ∃ pre elements, bytes = pre ++ connection.client.unread ∧
    Splits IsElement maxNdnPacketSize pre elements ∧ connection.inserted = elements.filterMap cxx.toInsert
  pending : ∀ free, connection.offered = some free → 0 < free ∧
    free = maxNdnPacketSize - connection.client.mInputBufferSize ∧
    Stuck IsElement maxNdnPacketSize connection.client.unread
  closed : connection.offered = none → connection.client.mInputBufferSize = maxNdnPacketSize ∧
    cxx.fromBuffer connection.client.unread = none

section Chunks

variable {Block Data : Type} {cxx : NdnCxx Block Data} {IsElement : List UInt8 → Block → Prop} {fuel free : ℕ}
  {connection : Connection Data} {bytes chunk memory stream : List UInt8} {chunks : List (List UInt8)}

/-- The socket is closed on a full buffer that does not start with an element. -/
lemma readOff_closed {client : TcpBulkInsertClient} {inserted : List Data} (hfits : client.Fits)
    (hsplit : ∃ pre elements, bytes = pre ++ client.unread ∧ Splits IsElement maxNdnPacketSize pre elements ∧
      inserted = elements.filterMap cxx.toInsert)
    (hfull : client.mInputBufferSize = maxNdnPacketSize) (hread : cxx.fromBuffer client.unread = none) :
    ReadOff cxx IsElement bytes ⟨client, inserted, none⟩ where
  fits := hfits
  split := hsplit
  pending free hfree := by cases hfree
  closed _ := ⟨hfull, hread⟩

/-- The rest of the buffer is offered while there is room. -/
lemma readOff_offering {client : TcpBulkInsertClient} {inserted : List Data} (hfits : client.Fits)
    (hsplit : ∃ pre elements, bytes = pre ++ client.unread ∧ Splits IsElement maxNdnPacketSize pre elements ∧
      inserted = elements.filterMap cxx.toInsert)
    (hroom : 0 < maxNdnPacketSize - client.mInputBufferSize) (hstuck : Stuck IsElement maxNdnPacketSize client.unread) :
    ReadOff cxx IsElement bytes ⟨client, inserted, some (maxNdnPacketSize - client.mInputBufferSize)⟩ where
  fits := hfits
  split := hsplit
  pending free hfree := by
    rw [Option.some_inj] at hfree
    subst hfree
    exact ⟨hroom, rfl, hstuck⟩
  closed h := by cases h

lemma readOff_startReceive (hreads : Reads cxx.fromBuffer cxx.size IsElement)
    (hmemory : memory.length = maxNdnPacketSize) : ReadOff cxx IsElement [] (startReceive Data memory) where
  fits := ⟨hmemory, Nat.zero_le _⟩
  split := ⟨[], [], rfl, Splits.nil, rfl⟩
  pending free hfree := by
    cases hfree
    exact ⟨by decide, rfl, hreads.stuck_nil⟩
  closed h := by cases h

/-- The handler after the bytes are in the buffer. -/
lemma NdnCxx.receive_eq (hoffered : connection.offered = some free) (hchunk : chunk.length ≤ free) :
    cxx.receive fuel connection chunk =
      (cxx.parseElements (connection.client.received chunk) fuel 0).map (fun parsed =>
        if ¬ parsed.isOk ∧ (connection.client.received chunk).mInputBufferSize = maxNdnPacketSize ∧
            parsed.offset = 0 then
          ⟨connection.client.received chunk, connection.inserted ++ parsed.inserted, none⟩
        else
          ⟨(connection.client.received chunk).compact parsed.offset, connection.inserted ++ parsed.inserted,
            some (maxNdnPacketSize -
              ((connection.client.received chunk).compact parsed.offset).mInputBufferSize)⟩) := by
  unfold NdnCxx.receive
  rw [hoffered]
  exact if_pos hchunk

/-- A chunk that fits the buffer offered is received, whatever it is. -/
theorem ReadOff.receive (hreads : Reads cxx.fromBuffer cxx.size IsElement) (hfuel : maxNdnPacketSize < fuel)
    (hoff : ReadOff cxx IsElement bytes connection) (hoffered : connection.offered = some free)
    (hchunk : chunk.length ≤ free) :
    ∃ t, cxx.receive fuel connection chunk = some t ∧ ReadOff cxx IsElement (bytes ++ chunk) t := by
  obtain ⟨-, hfree, -⟩ := hoff.pending free hoffered
  obtain ⟨before, old, hbytes, hsplitsOld, hinserted⟩ := hoff.split
  have hroom : chunk.length ≤ maxNdnPacketSize - connection.client.mInputBufferSize := hfree ▸ hchunk
  obtain ⟨hfits, hunread⟩ := TcpBulkInsertClient.received_spec hoff.fits hroom
  have hlength := hfits.length_unread
  have hsize := hfits.size_le
  have hrounds : (connection.client.received chunk).mInputBufferSize - 0 < fuel := by omega
  obtain ⟨pre, rest, elements, hdrop, hsplits, hparse, hstop⟩ :=
    NdnCxx.parseElements_spec hreads hfits (Nat.zero_le _) hrounds
  rw [List.drop_zero] at hdrop
  rw [Nat.zero_add] at hparse
  have hlengths := congrArg List.length hdrop
  rw [hlength, List.length_append] at hlengths
  have hsplit : bytes ++ chunk = (before ++ pre) ++ rest := by
    rw [hbytes, List.append_assoc, ← hunread, hdrop, List.append_assoc]
  have hpassed : connection.inserted ++ elements.filterMap cxx.toInsert =
      (old ++ elements).filterMap cxx.toInsert := by
    rw [List.filterMap_append, hinserted]
  have hstuck : Stuck IsElement maxNdnPacketSize rest := by
    by_cases hnil : rest = []
    · rw [hnil]
      exact hreads.stuck_nil
    · exact hreads.stuck_of_read (hstop hnil)
  rw [NdnCxx.receive_eq hoffered hchunk, hparse, Option.map_some]
  refine ⟨_, rfl, ?_⟩
  dsimp only
  by_cases hclose : ¬ decide (rest = []) = true ∧
      (connection.client.received chunk).mInputBufferSize = maxNdnPacketSize ∧ pre.length = 0
  · rw [if_pos hclose]
    obtain ⟨hne, hfull, hzero⟩ := hclose
    have hpre := List.length_eq_zero_iff.mp hzero
    rw [hpre, List.nil_append] at hdrop
    apply readOff_closed hfits ⟨before ++ pre, old ++ elements, ?_, hsplitsOld.append hsplits, hpassed⟩ hfull
    · rw [hdrop]
      exact hstop (by simpa using hne)
    · rw [hsplit, hdrop]
  · rw [if_neg hclose]
    have hpre : pre.length ≤ (connection.client.received chunk).mInputBufferSize := by omega
    obtain ⟨hfits', hunread', hsize'⟩ := TcpBulkInsertClient.compact_spec hfits hpre
    have hrest : ((connection.client.received chunk).compact pre.length).unread = rest := by
      rw [hunread', hdrop, List.drop_left]
    apply readOff_offering hfits' ⟨before ++ pre, old ++ elements, ?_, hsplitsOld.append hsplits, hpassed⟩
    · -- room is left by an element read, by an empty rest, or because the buffer was not full
      rw [hsize']
      by_contra hno
      apply hclose
      refine ⟨?_, by omega, by omega⟩
      have hnil : rest ≠ [] := by
        intro hnil
        rw [hnil, List.length_nil] at hlengths
        have hmax : 0 < maxNdnPacketSize := by decide
        omega
      simpa using hnil
    · rw [hrest]
      exact hstuck
    · rw [hsplit, hrest]

lemma readOff_run (hreads : Reads cxx.fromBuffer cxx.size IsElement) (hfuel : maxNdnPacketSize < fuel)
    (hoff : ReadOff cxx IsElement bytes connection) {t : Connection Data}
    (hrun : run (cxx.receive fuel) connection chunks = some t) : ReadOff cxx IsElement (bytes ++ chunks.flatten) t := by
  induction chunks generalizing bytes connection with
  | nil =>
    cases hrun
    rw [List.flatten_nil, List.append_nil]
    exact hoff
  | cons chunk chunks ih =>
    obtain ⟨u, hu, hut⟩ := run_cons_eq_some.mp hrun
    rw [List.flatten_cons, ← List.append_assoc]
    apply ih _ hut
    cases hoffered : connection.offered with
    | none => simp [NdnCxx.receive, hoffered] at hu
    | some free =>
      by_cases hchunk : chunk.length ≤ free
      · obtain ⟨v, hv, hoff'⟩ := hoff.receive hreads hfuel hoffered hchunk
        rw [hu, Option.some_inj] at hv
        exact hv ▸ hoff'
      · simp [NdnCxx.receive, hoffered, hchunk] at hu

/-- What was passed on is the longest split of the bytes received, and of every stream that goes on
from there once the socket is closed. -/
theorem ReadOff.longestSplit (hreads : Reads cxx.fromBuffer cxx.size IsElement)
    (hoff : ReadOff cxx IsElement bytes connection)
    (hstream : bytes = stream ∨ connection.offered = none ∧ bytes <+: stream) :
    ∃ pre elements, LongestSplit IsElement maxNdnPacketSize stream pre elements ∧
      connection.inserted = elements.filterMap cxx.toInsert := by
  obtain ⟨pre, elements, hbytes, hsplits, hinserted⟩ := hoff.split
  have hlength := hoff.fits.length_unread
  refine ⟨pre, elements, (longestSplit_iff hreads).mpr ?_, hinserted⟩
  cases hoffered : connection.offered with
  | some free =>
    obtain rfl | ⟨hnone, -⟩ := hstream
    · exact ⟨_, hbytes, hsplits, (hoff.pending free hoffered).2.2⟩
    · rw [hoffered] at hnone
      cases hnone
  | none =>
    obtain ⟨hfull, hread⟩ := hoff.closed hoffered
    have hprefix : bytes <+: stream := by
      obtain rfl | ⟨-, hprefix⟩ := hstream
      · exact List.prefix_refl bytes
      · exact hprefix
    obtain ⟨more, rfl⟩ := hprefix
    refine ⟨connection.client.unread ++ more, by rw [hbytes, List.append_assoc], hsplits, ?_⟩
    exact hreads.stuck_append_of_read hread (by omega)

/-- The packets of elements are what those of the type Data decode to. -/
lemma filterMap_toInsert (elements : List Block) : elements.filterMap cxx.toInsert =
    (elements.filter (fun element => cxx.type element = tlvData)).filterMap cxx.wireDecode := by
  rw [List.filterMap_filter]
  apply List.filterMap_congr
  intro element _
  by_cases htype : cxx.type element = tlvData <;> simp [NdnCxx.toInsert, htype]

/-- However a stream is cut into chunks that fit the buffers offered, the packets passed to
`insertData` are those that the Data elements of its longest split decode to, the loop ends within a
fixed number of rounds on every further chunk, and every buffer offered has room. -/
theorem inserted_of_chunks (hreads : Reads cxx.fromBuffer cxx.size IsElement) (hfuel : maxNdnPacketSize < fuel)
    (hmemory : memory.length = maxNdnPacketSize)
    (hrun : run (cxx.receive fuel) (startReceive Data memory) chunks = some connection)
    (hstream : chunks.flatten = stream ∨ connection.offered = none ∧ chunks.flatten <+: stream) :
    (∃ pre elements, LongestSplit IsElement maxNdnPacketSize stream pre elements ∧
        connection.inserted =
          (elements.filter (fun element => cxx.type element = tlvData)).filterMap cxx.wireDecode) ∧
      ∀ free, connection.offered = some free → 0 < free ∧
        ∀ chunk : List UInt8, chunk.length ≤ free → ∃ t, cxx.receive fuel connection chunk = some t := by
  have hoff := readOff_run hreads hfuel (readOff_startReceive hreads hmemory) hrun
  rw [List.nil_append] at hoff
  obtain ⟨pre, elements, hlongest, hinserted⟩ := hoff.longestSplit hreads hstream
  refine ⟨⟨pre, elements, hlongest, ?_⟩, fun free hfree => ⟨(hoff.pending free hfree).1, ?_⟩⟩
  · rw [hinserted, filterMap_toInsert]
  · intro chunk hchunk
    obtain ⟨t, ht, -⟩ := hoff.receive hreads hfuel hfree hchunk
    exact ⟨t, ht⟩

end Chunks

/-- Packets that are the blocks themselves. -/
def tlvBlocks : NdnCxx Tlv.Block Tlv.Block where
  fromBuffer input := (Tlv.readBlock input).map Prod.fst
  size b := b.wire.length
  type b := b.type.number
  wireDecode := some

lemma reads_tlvBlocks : Reads tlvBlocks.fromBuffer tlvBlocks.size (fun xs b => xs = b.wire) where
  read_eq_some_iff input b := by
    unfold tlvBlocks
    dsimp only
    rw [Option.map_eq_some_iff]
    constructor
    · intro h
      obtain ⟨⟨b', rest⟩, hread, rfl⟩ := h
      exact ⟨b'.wire, rest, Tlv.readBlock_eq_some.mp hread, rfl⟩
    · intro h
      obtain ⟨xs, rest, rfl, rfl⟩ := h
      exact ⟨(b, rest), Tlv.readBlock_wire b, rfl⟩
  size_eq xs b h := by
    rw [h]
    rfl
  ne_nil xs b h := by
    intro hnil
    have htwo := Tlv.Block.two_le_length_wire b
    rw [← h, hnil] at htwo
    simp at htwo

/-- A Data packet and an element that is none, each cut in the middle, and another Data packet. -/
theorem inserted_of_three_chunks :
    ∃ connection, run (tlvBlocks.receive 8801) (startReceive Tlv.Block (List.replicate 8800 0))
        [[6], [1, 65, 7], [0, 6, 0]] = some connection ∧
      ((∃ pre elements, LongestSplit (fun xs (b : Tlv.Block) => xs = b.wire) maxNdnPacketSize [6, 1, 65, 7, 0, 6, 0] pre
          elements ∧ connection.inserted =
            (elements.filter (fun element => tlvBlocks.type element = tlvData)).filterMap tlvBlocks.wireDecode) ∧
        ∀ free, connection.offered = some free → 0 < free ∧
          ∀ chunk : List UInt8, chunk.length ≤ free → ∃ t, tlvBlocks.receive 8801 connection chunk = some t) := by
  have hsome : (run (tlvBlocks.receive 8801) (startReceive Tlv.Block (List.replicate 8800 0))
      [[6], [1, 65, 7], [0, 6, 0]]).isSome := by decide +kernel
  obtain ⟨connection, hrun⟩ := Option.isSome_iff_exists.mp hsome
  refine ⟨connection, hrun, ?_⟩
  exact inserted_of_chunks reads_tlvBlocks (by decide) (List.length_replicate ..) hrun (Or.inl rfl)

end Difs
