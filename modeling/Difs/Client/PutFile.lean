import Difs.Delete.BlockRange
import Difs.Lib.InputStream

/-!
# Publishing a file

`DIFS::putFile` reads its stream from the end, cuts it into segments and signs each with the
signature value of the segment after it. `signature` is what `HCKeyChain` makes of a packet and
its signing information.
-/

namespace Difs

inductive Signer where
  | identity
  | sha256
deriving DecidableEq

/-- A data packet of the client. It has no signer before it is signed. -/
structure PutData (L : NameLibrary) where
  name : L.Name
  freshnessPeriod : ℕ
  content : List UInt8
  finalBlock : L.Component
  hashChain : List UInt8 := []
  signer : Option Signer := none
  signatureValue : List UInt8 := []

structure PutClient (L : NameLibrary) where
  mDataPrefix : L.Name := []
  mNdnName : L.Name := []
  mBlockSize : UInt64
  mFreshnessPeriod : ℕ
  mInsertStream : InputStream := { bytes := [] }
  mBytes : UInt64 := 0
  mData : List (PutData L) := []
  mCurrentSegmentNo : UInt64 := 0

/-- The loop of `putFilePrepareNextData`. -/
structure PutLoop (L : NameLibrary) where
  client : PutClient L
  count : ℤ := 0
  nextHash : List UInt8 := []

/-- How `putFilePrepareNextData` ends. The buffer may be longer than a vector, and the counter may
pass the largest `int`. -/
inductive PutOutcome (L : NameLibrary) where
  | lengthError
  | overflow
  | readFailed (client : PutClient L)
  | completed (client : PutClient L)

def PutOutcome.isCompleted {L : NameLibrary} : PutOutcome L → Bool
  | .completed _ => true
  | _ => false

namespace PutClient

variable {L : NameLibrary} (signature : PutData L → List UInt8)

/-- The chain and the signing information are part of what is signed. -/
def sign (data : PutData L) (nextHash : List UInt8) (signer : Signer) : PutData L :=
  let data := { data with hashChain := nextHash, signer := some signer }
  { data with signatureValue := signature data }

/-- The last segment is read first, and it is shorter. -/
def readSegment (lastDataSize : ℤ) (s : PutLoop L) : List UInt8 × InputStream :=
  let c := s.client
  if s.count = 0 then (c.mInsertStream.seekg (c.mBytes - UInt64.ofInt lastDataSize).toNat).read lastDataSize
  else
    let pos := c.mBytes - UInt64.ofInt lastDataSize - c.mBlockSize * UInt64.ofInt s.count
    (c.mInsertStream.seekg pos.toNat).read c.mBlockSize.toNat

/-- One round of the loop. `error` is a read that failed. -/
def prepareSegment (chunkSize lastDataSize : ℤ) (s : PutLoop L) : Except (PutClient L) (PutLoop L) :=
  let (buffer, stream) := readSegment lastDataSize s
  let c := { s.client with mInsertStream := stream }
  if 0 < stream.gcount then
    let data : PutData L := {
      name := L.appendSegment c.mDataPrefix (UInt64.ofInt (chunkSize - s.count))
      freshnessPeriod := c.mFreshnessPeriod
      content := buffer
      finalBlock := L.segment (UInt64.ofInt chunkSize) }
    let data := sign signature data s.nextHash (if s.count = chunkSize then .identity else .sha256)
    let c := { c with mData := data :: c.mData, mCurrentSegmentNo := c.mCurrentSegmentNo + 1 }
    .ok { client := c, count := s.count + 1, nextHash := data.signatureValue }
  else .error c

/-- `none` is a loop that goes on after so many rounds. -/
def prepareLoop (chunkSize lastDataSize : ℤ) : ℕ → PutLoop L → Option (PutOutcome L)
  | 0, _ => none
  | fuel + 1, s =>
    if s.count ≤ chunkSize then
      match prepareSegment signature chunkSize lastDataSize s with
      | .error c => some (.readFailed c)
      | .ok s => if s.count = 2 ^ 31 then some .overflow else prepareLoop chunkSize lastDataSize fuel s
    else some (.completed s.client)

def putFilePrepareNextData (fuel : ℕ) (c : PutClient L) : Option (PutOutcome L) :=
  let chunkSize := toInt (c.mBytes / c.mBlockSize)
  let lastDataSize := toInt (c.mBytes % c.mBlockSize)
  if 2 ^ 63 ≤ c.mBlockSize.toNat then some .lengthError
  else prepareLoop signature chunkSize lastDataSize fuel { client := c }

/-- The size of the stream is the distance to its end. -/
def openFile (c : PutClient L) (ndnName : L.Name) (bytes : List UInt8) : PutClient L :=
  { c with
    mDataPrefix := ndnName
    mNdnName := ndnName
    mInsertStream := { bytes := bytes }
    mBytes := UInt64.ofNat bytes.length }

def putFile (fuel : ℕ) (c : PutClient L) (ndnName : L.Name) (bytes : List UInt8) : Option (PutOutcome L) :=
  putFilePrepareNextData signature fuel (c.openFile ndnName bytes)

/-- A client that has put nothing yet. -/
structure Fresh (c : PutClient L) : Prop where
  data : c.mData = []
  currentSegmentNo : c.mCurrentSegmentNo = 0

lemma putFile_eq {signature : PutData L → List UInt8} {fuel : ℕ} {c : PutClient L} {ndnName : L.Name}
    {bytes : List UInt8} (hsize : c.mBlockSize.toNat < 2 ^ 63) : putFile signature fuel c ndnName bytes =
      prepareLoop signature (toInt (UInt64.ofNat bytes.length / c.mBlockSize))
        (toInt (UInt64.ofNat bytes.length % c.mBlockSize)) fuel { client := c.openFile ndnName bytes } := by
  unfold putFile putFilePrepareNextData
  exact if_neg (not_le.mpr hsize)

lemma size_of_outcome {signature : PutData L → List UInt8} {fuel : ℕ} {c : PutClient L} {ndnName : L.Name}
    {bytes : List UInt8} {outcome : PutOutcome L} (h : putFile signature fuel c ndnName bytes = some outcome)
    (hne : outcome ≠ .lengthError) : c.mBlockSize.toNat < 2 ^ 63 := by
  by_contra hsize
  have herror : putFile signature fuel c ndnName bytes = some .lengthError := if_pos (not_lt.mp hsize)
  rw [herror] at h
  exact hne (Option.some.inj h).symm

/-! ### One round -/

/-- What a round of the loop does when its read does not fail. -/
structure Prepared (chunkSize lastDataSize : ℤ) (s s' : PutLoop L) (data : PutData L) : Prop where
  count : s'.count = s.count + 1
  mData : s'.client.mData = data :: s.client.mData
  mCurrentSegmentNo : s'.client.mCurrentSegmentNo = s.client.mCurrentSegmentNo + 1
  nextHash : s'.nextHash = data.signatureValue
  mDataPrefix : s'.client.mDataPrefix = s.client.mDataPrefix
  mBytes : s'.client.mBytes = s.client.mBytes
  mBlockSize : s'.client.mBlockSize = s.client.mBlockSize
  mInsertStream : s'.client.mInsertStream = (readSegment lastDataSize s).2
  name : data.name = L.appendSegment s.client.mDataPrefix (UInt64.ofInt (chunkSize - s.count))
  content : data.content = (readSegment lastDataSize s).1
  finalBlock : data.finalBlock = L.segment (UInt64.ofInt chunkSize)
  hashChain : data.hashChain = s.nextHash
  signer : data.signer = some (if s.count = chunkSize then .identity else .sha256)

variable {signature} {chunkSize lastDataSize : ℤ} {s s' : PutLoop L} {c : PutClient L} {fuel : ℕ}

lemma gcount_readSegment (lastDataSize : ℤ) (s : PutLoop L) :
    (readSegment lastDataSize s).2.gcount = (readSegment lastDataSize s).1.length := by
  unfold readSegment
  dsimp only
  split_ifs <;> exact InputStream.gcount_read _ _

lemma bytes_readSegment (lastDataSize : ℤ) (s : PutLoop L) :
    (readSegment lastDataSize s).2.bytes = s.client.mInsertStream.bytes := by
  unfold readSegment
  dsimp only
  split_ifs <;> rw [InputStream.bytes_read, InputStream.bytes_seekg]

lemma length_readSegment_le (lastDataSize : ℤ) (s : PutLoop L) : (readSegment lastDataSize s).1.length ≤
    if s.count = 0 then lastDataSize.toNat else s.client.mBlockSize.toNat := by
  unfold readSegment
  dsimp only
  split_ifs
  · exact InputStream.length_read_le _ _
  · have hle := InputStream.length_read_le (s.client.mInsertStream.seekg (s.client.mBytes - UInt64.ofInt lastDataSize -
      s.client.mBlockSize * UInt64.ofInt s.count).toNat) s.client.mBlockSize.toNat
    rwa [Int.toNat_natCast] at hle

lemma exists_prepared (h : prepareSegment signature chunkSize lastDataSize s = .ok s') :
    ∃ data, Prepared chunkSize lastDataSize s s' data := by
  unfold prepareSegment at h
  dsimp only at h
  split_ifs at h
  all_goals
    cases h
    exact ⟨_, rfl, rfl, rfl, rfl, rfl, rfl, rfl, rfl, rfl, rfl, rfl, rfl, by simp [sign, *]⟩

/-! ### The loop -/

/-- What can be said of an outcome when all states of the loop have the invariant. -/
def EndsWith (chunkSize : ℤ) (I : PutLoop L → Prop) : PutOutcome L → Prop
  | .lengthError => True
  | .overflow => True
  | .readFailed c => ∃ s stream, I s ∧ c = { s.client with mInsertStream := stream }
  | .completed c => ∃ s, I s ∧ chunkSize < s.count ∧ c = s.client

/-- What every round preserves holds when the loop ends. -/
theorem prepareLoop_invariant {I : PutLoop L → Prop} {outcome : PutOutcome L}
    (hstep : ∀ s s' data, I s → s.count ≤ chunkSize → s'.count ≠ 2 ^ 31 →
      Prepared chunkSize lastDataSize s s' data → I s')
    (hs : I s) (h : prepareLoop signature chunkSize lastDataSize fuel s = some outcome) :
    EndsWith chunkSize I outcome := by
  induction fuel generalizing s with
  | zero => cases h
  | succ fuel ih =>
    rw [prepareLoop] at h
    by_cases hcount : s.count ≤ chunkSize
    · rw [if_pos hcount] at h
      cases hsegment : prepareSegment signature chunkSize lastDataSize s with
      | error c =>
        rw [hsegment] at h
        cases h
        refine ⟨s, (readSegment lastDataSize s).2, hs, ?_⟩
        unfold prepareSegment at hsegment
        dsimp only at hsegment
        split_ifs at hsegment
        cases hsegment
        rfl
      | ok s' =>
        rw [hsegment] at h
        dsimp only at h
        by_cases hmax : s'.count = 2 ^ 31
        · rw [if_pos hmax] at h
          cases h
          trivial
        · rw [if_neg hmax] at h
          obtain ⟨data, hdata⟩ := exists_prepared hsegment
          exact ih (hstep s s' data hs hcount hmax hdata) h
    · rw [if_neg hcount] at h
      cases h
      exact ⟨s, hs, lt_of_not_ge hcount, rfl⟩

/-! ### The hash chain -/

/-- Each segment has the signature value of the next, and the first has `nextHash`. -/
def Chained : List (PutData L) → List UInt8 → Prop
  | [], nextHash => nextHash = []
  | data :: rest, nextHash => data.signatureValue = nextHash ∧ Chained rest data.hashChain

structure Linked (chunkSize : ℤ) (dataPrefix : L.Name) (s : PutLoop L) : Prop where
  count_eq : s.count = s.client.mData.length
  count_le : s.count ≤ max 0 (chunkSize + 1)
  mDataPrefix : s.client.mDataPrefix = dataPrefix
  chained : Chained s.client.mData s.nextHash
  name : ∀ (i : ℕ) data, s.client.mData[i]? = some data →
    data.name = L.appendSegment dataPrefix (UInt64.ofInt (chunkSize + 1 - s.count + i))
  signer : ∀ (i : ℕ) data, s.client.mData[i]? = some data →
    data.signer = some (if i = 0 ∧ s.count = chunkSize + 1 then .identity else .sha256)

lemma Linked.prepared {dataPrefix : L.Name} {data : PutData L} (h : Linked chunkSize dataPrefix s)
    (hcount : s.count ≤ chunkSize) (hdata : Prepared chunkSize lastDataSize s s' data) :
    Linked chunkSize dataPrefix s' := by
  constructor
  · rw [hdata.count, hdata.mData, h.count_eq]
    rfl
  · rw [hdata.count]
    omega
  · rw [hdata.mDataPrefix, h.mDataPrefix]
  · rw [hdata.mData, hdata.nextHash]
    refine ⟨rfl, ?_⟩
    rw [hdata.hashChain]
    exact h.chained
  · intro i other hi
    rw [hdata.mData] at hi
    rw [hdata.count]
    cases i with
    | zero =>
      cases hi
      rw [hdata.name, h.mDataPrefix]
      congr 2
      push_cast
      omega
    | succ i =>
      rw [h.name i other hi]
      congr 2
      push_cast
      omega
  · intro i other hi
    rw [hdata.mData] at hi
    rw [hdata.count]
    cases i with
    | zero =>
      cases hi
      rw [hdata.signer]
      simp
    | succ i =>
      have hmore : ¬ (i = 0 ∧ s.count = chunkSize + 1) := fun hlast => by omega
      rw [h.signer i other hi, if_neg hmore, if_neg (fun hzero => by omega)]

/-- The segments are numbered in order, each has the signature value of the next as its chain, the
last has none, and only the first is signed with the identity. -/
structure HashLinked (dataPrefix : L.Name) (lastSegment : ℤ) (c : PutClient L) : Prop where
  length_eq : (c.mData.length : ℤ) = max 0 (lastSegment + 1)
  name : ∀ (i : ℕ) data, c.mData[i]? = some data → data.name = L.appendSegment dataPrefix (UInt64.ofNat i)
  linked : ∀ (i : ℕ) data next, c.mData[i]? = some data → c.mData[i + 1]? = some next →
    data.hashChain = next.signatureValue
  last : ∀ data, c.mData.getLast? = some data → data.hashChain = []
  signer : ∀ (i : ℕ) data, c.mData[i]? = some data → data.signer = some (if i = 0 then .identity else .sha256)

lemma Chained.linked {datas : List (PutData L)} {nextHash : List UInt8} (h : Chained datas nextHash) (i : ℕ)
    {data next : PutData L} (hdata : datas[i]? = some data) (hnext : datas[i + 1]? = some next) :
    data.hashChain = next.signatureValue := by
  induction datas generalizing nextHash i with
  | nil => cases hdata
  | cons head rest ih =>
    cases i with
    | zero =>
      cases hdata
      cases rest with
      | nil => cases hnext
      | cons second rest =>
        cases hnext
        exact h.2.1.symm
    | succ i => exact ih h.2 i hdata hnext

lemma Chained.last {datas : List (PutData L)} {nextHash : List UInt8} (h : Chained datas nextHash) {data : PutData L}
    (hlast : datas.getLast? = some data) : data.hashChain = [] := by
  induction datas generalizing nextHash with
  | nil => cases hlast
  | cons head rest ih =>
    cases rest with
    | nil =>
      cases hlast
      exact h.2
    | cons second rest =>
      rw [List.getLast?_cons_cons] at hlast
      exact ih h.2 hlast

lemma ofInt_natCast (k : ℕ) : UInt64.ofInt k = UInt64.ofNat k := by
  unfold UInt64.ofInt
  rw [← UInt64.toNat_inj, UInt64.toNat_ofNat', UInt64.toNat_ofNat']
  omega

lemma Linked.hashLinked {dataPrefix : L.Name} (h : Linked chunkSize dataPrefix s) (hcount : chunkSize < s.count) :
    HashLinked dataPrefix chunkSize s.client := by
  have hlength := h.count_eq
  have hle := h.count_le
  have hlast (i : ℕ) (data : PutData L) (hi : s.client.mData[i]? = some data) : s.count = chunkSize + 1 := by
    have hlt := (List.getElem?_eq_some_iff.mp hi).1
    omega
  constructor
  · omega
  · intro i data hi
    have hnumber : chunkSize + 1 - s.count + i = (i : ℤ) := by
      have hall := hlast i data hi
      omega
    rw [h.name i data hi, hnumber, ofInt_natCast]
  · intro i data next hi hnext
    exact h.chained.linked i hi hnext
  · intro data hdata
    exact h.chained.last hdata
  · intro i data hi
    rw [h.signer i data hi]
    simp only [hlast i data hi, and_true]

lemma Fresh.linked (hfresh : c.Fresh) (chunkSize : ℤ) (ndnName : L.Name) (bytes : List UInt8) :
    Linked chunkSize ndnName { client := c.openFile ndnName bytes } := by
  have hdata : (c.openFile ndnName bytes).mData = [] := hfresh.data
  constructor
  · rw [hdata]
    rfl
  · exact le_max_left _ _
  · rfl
  · rw [hdata]
    rfl
  · intro i data hi
    rw [hdata] at hi
    cases hi
  · intro i data hi
    rw [hdata] at hi
    cases hi

/-- Where no read fails, the segments are linked by their chains. -/
theorem hash_chain_linked (hfresh : c.Fresh) (ndnName : L.Name) (bytes : List UInt8) {result : PutClient L}
    (h : putFile signature fuel c ndnName bytes = some (.completed result)) :
    HashLinked ndnName (toInt (UInt64.ofNat bytes.length / c.mBlockSize)) result := by
  rw [putFile_eq (size_of_outcome h nofun)] at h
  obtain ⟨s, hs, hcount, rfl⟩ := prepareLoop_invariant (fun s s' data hs hcount _ hdata => hs.prepared hcount hdata)
    (hfresh.linked _ ndnName bytes) h
  exact hs.hashLinked hcount

/-- A client with blocks of two bytes. -/
def filmClient : PutClient plainNames where
  mBlockSize := 2
  mFreshnessPeriod := 4000

/-- The signature value of a packet is here its content and then its chain. -/
def filmSignature (data : PutData plainNames) : List UInt8 := data.content ++ data.hashChain

def filmBytes : List UInt8 := [1, 2, 3, 4, 5]

theorem film_linked : ∃ result, putFile filmSignature 4 filmClient [film] filmBytes = some (.completed result) ∧
    HashLinked [film] 2 result := by
  have hlast : toInt (UInt64.ofNat filmBytes.length / filmClient.mBlockSize) = 2 := by decide +kernel
  have hrun : ((putFile filmSignature 4 filmClient [film] filmBytes).any PutOutcome.isCompleted) = true := by
    decide +kernel
  obtain ⟨outcome, houtcome, hcompleted⟩ := (Option.any_eq_true _ _).mp hrun
  cases outcome with
  | completed result =>
    have hlinked := hash_chain_linked ⟨rfl, rfl⟩ [film] filmBytes houtcome
    rw [hlast] at hlinked
    exact ⟨result, houtcome, hlinked⟩
  | lengthError => cases hcompleted
  | overflow => cases hcompleted
  | readFailed => cases hcompleted

/-! ### The whole file -/

/-- The segments are those up to the end that is announced, and together they are the file. -/
structure PublishesWhole (dataPrefix : L.Name) (bytes : List UInt8) (blockSize : UInt64) (stop : ℤ) (c : PutClient L) :
    Prop where
  name : c.mData.map PutData.name =
    (List.range (stop + 1).toNat).map (fun i => L.appendSegment dataPrefix (UInt64.ofNat i))
  finalBlock : ∀ data ∈ c.mData, data.finalBlock = L.segment (UInt64.ofInt stop)
  length_le : ∀ data ∈ c.mData, data.content.length ≤ blockSize.toNat
  content : c.mData.flatMap PutData.content = bytes
  mCurrentSegmentNo : (c.mCurrentSegmentNo.toNat : ℤ) = stop + 1

/-- `putFilePrepareNextData` returns, and the client has the whole file. -/
def Publishes (signature : PutData L → List UInt8) (c : PutClient L) (ndnName : L.Name) (bytes : List UInt8) : Prop :=
  ∃ fuel result, (putFile signature fuel c ndnName bytes = some (.completed result) ∨
      putFile signature fuel c ndnName bytes = some (.readFailed result)) ∧
    PublishesWhole ndnName bytes c.mBlockSize
      (DeleteHandle.publishedEnd (UInt64.ofNat bytes.length) c.mBlockSize) result

/-- Where every round succeeds, the loop comes to its end. -/
lemma exists_completed {I : PutLoop L → Prop} (hmax : chunkSize < 2 ^ 31 - 1)
    (hround : ∀ s, I s → s.count ≤ chunkSize → ∃ s', prepareSegment signature chunkSize lastDataSize s = .ok s')
    (hstep : ∀ s s' data, I s → s.count ≤ chunkSize → Prepared chunkSize lastDataSize s s' data → I s') (hs : I s) :
    ∃ fuel result, prepareLoop signature chunkSize lastDataSize fuel s = some (.completed result) := by
  generalize hn : (chunkSize + 1 - s.count).toNat = n
  induction n generalizing s with
  | zero =>
    have hcount : ¬ s.count ≤ chunkSize := by omega
    exact ⟨1, s.client, by rw [prepareLoop, if_neg hcount]⟩
  | succ n ih =>
    have hcount : s.count ≤ chunkSize := by omega
    obtain ⟨s', hs'⟩ := hround s hs hcount
    obtain ⟨data, hdata⟩ := exists_prepared hs'
    have hnext : (chunkSize + 1 - s'.count).toNat = n := by
      rw [hdata.count]
      omega
    obtain ⟨fuel, result, hresult⟩ := ih (hstep s s' data hs hcount hdata) hnext
    have hcount' : ¬ s'.count = 2 ^ 31 := by
      rw [hdata.count]
      omega
    refine ⟨fuel + 1, result, ?_⟩
    rw [prepareLoop, if_pos hcount, hs']
    dsimp only
    rw [if_neg hcount', hresult]

lemma prepareSegment_ok (h : (readSegment lastDataSize s).1 ≠ []) :
    ∃ s', prepareSegment signature chunkSize lastDataSize s = .ok s' := by
  have hpos : 0 < (readSegment lastDataSize s).2.gcount := by
    rw [gcount_readSegment]
    exact List.length_pos_iff.mpr h
  unfold prepareSegment
  dsimp only
  rw [if_pos hpos]
  exact ⟨_, rfl⟩

/-- A client that has cut the end of the file into segments. `q` blocks are full and `r` bytes are left. -/
structure Cut (bytes : List UInt8) (blockSize q r : ℕ) (s : PutLoop L) : Prop where
  count_eq : s.count = s.client.mData.length
  count_le : s.client.mData.length ≤ q + 1
  bytes_eq : s.client.mInsertStream.bytes = bytes
  failbit : s.client.mInsertStream.failbit = false
  mBytes : s.client.mBytes = UInt64.ofNat (q * blockSize + r)
  mBlockSize : s.client.mBlockSize = UInt64.ofNat blockSize
  finalBlock : ∀ data ∈ s.client.mData, data.finalBlock = L.segment (UInt64.ofInt q)
  length_le : ∀ data ∈ s.client.mData, data.content.length ≤ blockSize
  content : s.client.mData.flatMap PutData.content =
    if s.client.mData.length = 0 then [] else bytes.drop ((q + 1 - s.client.mData.length) * blockSize)
  mCurrentSegmentNo : s.client.mCurrentSegmentNo = UInt64.ofNat s.client.mData.length

section Cut

variable {bytes : List UInt8} {blockSize q r : ℕ}

/-- The last bytes of the file are read first. -/
lemma Cut.readSegment_first (h : Cut bytes blockSize q r s) (hlength : bytes.length = q * blockSize + r)
    (hlt : bytes.length < 2 ^ 63) (hcount : s.client.mData.length = 0) :
    (readSegment r s).1 = bytes.drop (q * blockSize) ∧ (readSegment r s).2.failbit = false := by
  have hpos : (s.client.mBytes - UInt64.ofInt r).toNat = q * blockSize := by
    have hk : q * blockSize < 2 ^ 64 := by omega
    rw [h.mBytes, ofInt_natCast, ← UInt64.ofNat_sub (Nat.le_add_left _ _), Nat.add_sub_cancel,
      UInt64.toNat_ofNat_of_lt' hk]
  have hread := InputStream.read_seekg s.client.mInsertStream (q * blockSize) r h.failbit (by rw [h.bytes_eq, hlength])
  have hzero : s.count = 0 := by rw [h.count_eq, hcount, Nat.cast_zero]
  unfold readSegment
  rw [if_pos hzero, hpos, hread.1, hread.2, h.bytes_eq]
  refine ⟨?_, rfl⟩
  apply List.take_of_length_le
  rw [List.length_drop]
  omega

/-- Then come the blocks from the last one on. -/
lemma Cut.readSegment_next (h : Cut bytes blockSize q r s) (hlength : bytes.length = q * blockSize + r)
    (hlt : bytes.length < 2 ^ 63) (hblock : blockSize < 2 ^ 63) {k : ℕ} (hk : s.client.mData.length = k + 1)
    (hle : k + 1 ≤ q) :
    (readSegment r s).1 = (bytes.drop ((q - (k + 1)) * blockSize)).take blockSize ∧
      (readSegment r s).2.failbit = false := by
  have hq : q * blockSize = (q - (k + 1)) * blockSize + blockSize * (k + 1) := by
    rw [mul_comm blockSize, ← add_mul, Nat.sub_add_cancel hle]
  have hpos : (s.client.mBytes - UInt64.ofInt r - s.client.mBlockSize * UInt64.ofInt s.count).toNat =
      (q - (k + 1)) * blockSize := by
    have hbound : (q - (k + 1)) * blockSize < 2 ^ 64 := by omega
    rw [h.mBytes, h.mBlockSize, h.count_eq, hk, ofInt_natCast, ofInt_natCast, ← UInt64.ofNat_sub (Nat.le_add_left _ _),
      Nat.add_sub_cancel, ← UInt64.ofNat_mul, hq, ← UInt64.ofNat_sub (Nat.le_add_left _ _), Nat.add_sub_cancel,
      UInt64.toNat_ofNat_of_lt' hbound]
  have hsize : s.client.mBlockSize.toNat = blockSize := by
    have hbound : blockSize < 2 ^ 64 := by omega
    rw [h.mBlockSize, UInt64.toNat_ofNat_of_lt' hbound]
  have hmul : blockSize ≤ blockSize * (k + 1) := Nat.le_mul_of_pos_right _ (Nat.succ_pos k)
  have hread := InputStream.read_seekg s.client.mInsertStream ((q - (k + 1)) * blockSize) blockSize h.failbit
    (by rw [h.bytes_eq]; omega)
  have hcount : ¬ s.count = 0 := by
    rw [h.count_eq, hk]
    omega
  unfold readSegment
  dsimp only
  rw [if_neg hcount, hpos, hsize, hread.1, hread.2, h.bytes_eq]
  exact ⟨rfl, rfl⟩

/-- A round puts the bytes before the segments in front of them. -/
lemma Cut.readSegment_append (h : Cut bytes blockSize q r s) (hlength : bytes.length = q * blockSize + r)
    (hlt : bytes.length < 2 ^ 63) (hblock : blockSize < 2 ^ 63) (hpos : 0 < r) (hr : r < blockSize)
    (hle : s.client.mData.length ≤ q) :
    (readSegment r s).1 ++ s.client.mData.flatMap PutData.content =
        bytes.drop ((q - s.client.mData.length) * blockSize) ∧
      (readSegment r s).1 ≠ [] ∧ (readSegment r s).1.length ≤ blockSize ∧ (readSegment r s).2.failbit = false := by
  cases hk : s.client.mData.length with
  | zero =>
    obtain ⟨hread, hfail⟩ := h.readSegment_first hlength hlt hk
    have hdrop : (bytes.drop (q * blockSize)).length = r := by
      rw [List.length_drop]
      omega
    rw [hread, h.content, if_pos hk, List.append_nil, Nat.sub_zero, hdrop]
    exact ⟨rfl, List.length_pos_iff.mp (by omega), hr.le, hfail⟩
  | succ k =>
    obtain ⟨hread, hfail⟩ := h.readSegment_next hlength hlt hblock hk (hk ▸ hle)
    have hmul : (q + 1 - (k + 1)) * blockSize = (q - (k + 1)) * blockSize + blockSize := by
      rw [← Nat.succ_mul]
      congr 1
      omega
    have hq : (q + 1 - (k + 1)) * blockSize ≤ q * blockSize := Nat.mul_le_mul_right _ (by omega)
    have htake : ((bytes.drop ((q - (k + 1)) * blockSize)).take blockSize).length = blockSize := by
      rw [List.length_take, List.length_drop]
      omega
    have hne : ¬ s.client.mData.length = 0 := by omega
    rw [hread, h.content, if_neg hne, hk, htake]
    refine ⟨?_, List.length_pos_iff.mp (by omega), le_rfl, hfail⟩
    rw [hmul, ← List.drop_drop]
    exact List.take_append_drop _ _

lemma Cut.prepared {data : PutData L} (h : Cut bytes blockSize q r s) (hlength : bytes.length = q * blockSize + r)
    (hlt : bytes.length < 2 ^ 63) (hblock : blockSize < 2 ^ 63) (hpos : 0 < r) (hr : r < blockSize)
    (hcount : s.count ≤ q) (hdata : Prepared q r s s' data) : Cut bytes blockSize q r s' := by
  have hle : s.client.mData.length ≤ q := by
    have hcounted := h.count_eq
    omega
  obtain ⟨happend, -, hsize, hfail⟩ := h.readSegment_append hlength hlt hblock hpos hr hle
  have hnext : s'.client.mData.length = s.client.mData.length + 1 := by
    rw [hdata.mData]
    rfl
  constructor
  · rw [hdata.count, h.count_eq, hnext, Nat.cast_add, Nat.cast_one]
  · rw [hnext]
    omega
  · rw [hdata.mInsertStream, bytes_readSegment, h.bytes_eq]
  · rw [hdata.mInsertStream, hfail]
  · rw [hdata.mBytes, h.mBytes]
  · rw [hdata.mBlockSize, h.mBlockSize]
  · intro other hother
    rw [hdata.mData] at hother
    obtain rfl | hother := List.mem_cons.mp hother
    · exact hdata.finalBlock
    · exact h.finalBlock other hother
  · intro other hother
    rw [hdata.mData] at hother
    obtain rfl | hother := List.mem_cons.mp hother
    · rw [hdata.content]
      exact hsize
    · exact h.length_le other hother
  · rw [if_neg (by omega), hnext, Nat.add_sub_add_right, hdata.mData, List.flatMap_cons, hdata.content, happend]
  · rw [hdata.mCurrentSegmentNo, h.mCurrentSegmentNo, hnext, UInt64.ofNat_add]
    rfl

end Cut

section Sizes

variable {bytes : List UInt8} {blockSize : UInt64}

lemma toInt_eq {n : UInt64} (h : n.toNat < 2 ^ 31) : toInt n = n.toNat := by
  unfold toInt
  apply Int.bmod_eq_of_le <;> omega

lemma toNat_toInt_lt (n : UInt64) : (toInt n).toNat < 2 ^ 31 := by
  have hbmod : toInt n < ((2 ^ 32 : ℕ) + 1) / 2 := Int.bmod_lt (by norm_num)
  generalize toInt n = k at hbmod
  norm_num at hbmod
  omega

lemma toNat_blocks (hbytes : bytes.length < 2 ^ 63) (blockSize : UInt64) :
    (UInt64.ofNat bytes.length / blockSize).toNat = bytes.length / blockSize.toNat ∧
      (UInt64.ofNat bytes.length % blockSize).toNat = bytes.length % blockSize.toNat := by
  have hlt : bytes.length < 2 ^ 64 := by omega
  rw [UInt64.toNat_div, UInt64.toNat_mod, UInt64.toNat_ofNat_of_lt' hlt]
  exact ⟨rfl, rfl⟩

/-- The end that is announced is the number of the last segment, or -1. -/
lemma publishedEnd_eq (hbytes : bytes.length < 2 ^ 63) (hint : bytes.length / blockSize.toNat < 2 ^ 31) :
    DeleteHandle.publishedEnd (UInt64.ofNat bytes.length) blockSize =
      ((bytes.length / blockSize.toNat : ℕ) : ℤ) - if bytes.length % blockSize.toNat = 0 then 1 else 0 := by
  obtain ⟨hdiv, hmod⟩ := toNat_blocks hbytes blockSize
  have hzero : UInt64.ofNat bytes.length % blockSize = 0 ↔ bytes.length % blockSize.toNat = 0 := by
    rw [← hmod, ← UInt64.toNat_inj]
    rfl
  unfold DeleteHandle.publishedEnd
  dsimp only
  by_cases hr : bytes.length % blockSize.toNat = 0
  · rw [if_neg (not_not.mpr (hzero.mpr hr)), if_pos hr, add_zero]
    generalize hx : UInt64.ofNat bytes.length / blockSize = x at *
    rw [← hdiv] at hint ⊢
    by_cases hpos : x.toNat = 0
    · have hx : x = 0 := UInt64.toNat_inj.mp hpos
      rw [hx]
      decide +kernel
    · have hone : (1 : UInt64) ≤ x := by
        rw [UInt64.le_iff_toNat_le]
        exact Nat.one_le_iff_ne_zero.mpr hpos
      have hsub : (x - 1).toNat = x.toNat - 1 := by
        rw [UInt64.toNat_sub_of_le _ _ hone, UInt64.toNat_one]
      rw [toInt_eq (by omega), hsub, Nat.cast_sub (by omega), Nat.cast_one]
  · rw [if_pos (fun h => hr (hzero.mp h)), if_neg hr, UInt64.add_sub_cancel, toInt_eq (hdiv ▸ hint), hdiv, sub_zero]

end Sizes

/-- The first segment that is read has at most `lastDataSize` bytes, the others at most a block. -/
structure Bounded (lastDataSize : ℤ) (blockSize : UInt64) (s : PutLoop L) : Prop where
  count_eq : s.count = s.client.mData.length
  count_lt : s.count < 2 ^ 31
  mBlockSize : s.client.mBlockSize = blockSize
  length_le : (s.client.mData.flatMap PutData.content).length ≤
    lastDataSize.toNat + (s.client.mData.length - 1) * blockSize.toNat

lemma Bounded.prepared {blockSize : UInt64} {data : PutData L} (h : Bounded lastDataSize blockSize s)
    (hmax : s'.count ≠ 2 ^ 31) (hdata : Prepared chunkSize lastDataSize s s' data) :
    Bounded lastDataSize blockSize s' := by
  have hread := length_readSegment_le lastDataSize s
  have hcount := h.count_eq
  have hlength := h.length_le
  have hlt := h.count_lt
  rw [← hdata.content] at hread
  constructor
  · rw [hdata.count, hcount, hdata.mData]
    rfl
  · rw [hdata.count] at hmax ⊢
    omega
  · rw [hdata.mBlockSize, h.mBlockSize]
  · rw [hdata.mData, List.flatMap_cons, List.length_append, List.length_cons, Nat.add_sub_cancel]
    cases hk : s.client.mData.length with
    | zero =>
      have hnil : s.client.mData = [] := List.length_eq_zero_iff.mp hk
      rw [if_pos (by omega)] at hread
      rw [hnil, List.flatMap_nil, List.length_nil]
      omega
    | succ k =>
      rw [hk, Nat.add_sub_cancel] at hlength
      rw [if_neg (by omega), h.mBlockSize] at hread
      rw [Nat.succ_mul]
      omega

variable {ndnName : L.Name} {bytes : List UInt8}

/-- The outcomes that leave a client with segments have kept the bound. -/
lemma exists_bounded (hfresh : c.Fresh) {result : PutClient L} (h : putFile signature fuel c ndnName bytes =
    some (.completed result) ∨ putFile signature fuel c ndnName bytes = some (.readFailed result)) :
    c.mBlockSize.toNat < 2 ^ 63 ∧ ∃ s : PutLoop L, result.mData = s.client.mData ∧
      Bounded (toInt (UInt64.ofNat bytes.length % c.mBlockSize)) c.mBlockSize s := by
  have hstart : Bounded (toInt (UInt64.ofNat bytes.length % c.mBlockSize)) c.mBlockSize
      { client := c.openFile ndnName bytes } := by
    have hdata : (c.openFile ndnName bytes).mData = [] := hfresh.data
    constructor
    · rw [hdata]
      rfl
    · norm_num
    · rfl
    · rw [hdata]
      exact Nat.zero_le _
  have hsize : c.mBlockSize.toNat < 2 ^ 63 :=
    h.elim (fun h => size_of_outcome h nofun) (fun h => size_of_outcome h nofun)
  refine ⟨hsize, ?_⟩
  rw [putFile_eq hsize] at h
  have hstep (s s' : PutLoop L) (data : PutData L)
      (hs : Bounded (toInt (UInt64.ofNat bytes.length % c.mBlockSize)) c.mBlockSize s)
      (_ : s.count ≤ toInt (UInt64.ofNat bytes.length / c.mBlockSize)) (hmax : s'.count ≠ 2 ^ 31)
      (hdata : Prepared (toInt (UInt64.ofNat bytes.length / c.mBlockSize))
        (toInt (UInt64.ofNat bytes.length % c.mBlockSize)) s s' data) :
      Bounded (toInt (UInt64.ofNat bytes.length % c.mBlockSize)) c.mBlockSize s' := hs.prepared hmax hdata
  obtain h | h := h
  · obtain ⟨s, hs, -, rfl⟩ := prepareLoop_invariant hstep hstart h
    exact ⟨s, rfl, hs⟩
  · obtain ⟨s, stream, hs, rfl⟩ := prepareLoop_invariant hstep hstart h
    exact ⟨s, rfl, hs⟩

/-- The sizes for which the whole file is published: the file is empty, or bytes are left after its
full blocks. The counters are `int`s, and the buffer is a vector. -/
def WholeSize (length blockSize : ℕ) : Prop :=
  blockSize < 2 ^ 63 ∧ (length = 0 ∨
    0 < length % blockSize ∧ length % blockSize < 2 ^ 31 ∧ length / blockSize < 2 ^ 31 - 1)

lemma wholeSize_of_publishes (hblock : 0 < c.mBlockSize.toNat) (hfresh : c.Fresh) (hbytes : bytes.length < 2 ^ 63)
    (hint : bytes.length / c.mBlockSize.toNat < 2 ^ 31) (h : Publishes signature c ndnName bytes) :
    WholeSize bytes.length c.mBlockSize.toNat := by
  obtain ⟨fuel, result, houtcome, hwhole⟩ := h
  obtain ⟨hsize, s, hdata, hbounded⟩ := exists_bounded hfresh houtcome
  have hnumber := congrArg List.length hwhole.name
  have htotal := congrArg List.length hwhole.content
  have hlength := hbounded.length_le
  have hcount := hbounded.count_eq
  have hlt := hbounded.count_lt
  have hsplit := Nat.div_add_mod bytes.length c.mBlockSize.toNat
  obtain ⟨-, hmod⟩ := toNat_blocks hbytes c.mBlockSize
  rw [List.length_map, List.length_map, List.length_range, publishedEnd_eq hbytes hint, hdata] at hnumber
  rw [hdata] at htotal
  rw [htotal] at hlength
  refine ⟨hsize, or_iff_not_imp_left.mpr (fun hne => ?_)⟩
  generalize hq : bytes.length / c.mBlockSize.toNat = q at *
  generalize hr : bytes.length % c.mBlockSize.toNat = r at *
  by_cases hzero : r = 0
  · -- all blocks are full, and the first read asks for nothing
    have hlast : toInt (UInt64.ofNat bytes.length % c.mBlockSize) = 0 := by
      rw [toInt_eq (by omega), hmod, hzero, Nat.cast_zero]
    have hall : s.client.mData.length = q := by
      rw [if_pos hzero] at hnumber
      omega
    rw [hlast, hall, Int.toNat_zero, zero_add] at hlength
    exfalso
    cases q with
    | zero => omega
    | succ q =>
      rw [Nat.add_sub_cancel] at hlength
      rw [Nat.mul_succ, mul_comm] at hsplit
      omega
  · rw [if_neg hzero] at hnumber
    have hall : s.client.mData.length = q + 1 := by omega
    refine ⟨Nat.pos_of_ne_zero hzero, ?_, by omega⟩
    by_contra hlarge
    have hlast := toNat_toInt_lt (UInt64.ofNat bytes.length % c.mBlockSize)
    rw [hall, Nat.add_sub_cancel, mul_comm] at hlength
    generalize (toInt (UInt64.ofNat bytes.length % c.mBlockSize)).toNat = lastDataSize at hlast hlength
    omega

/-- A file without bytes ends the loop with its first read. -/
lemma publishes_nil (hsize : c.mBlockSize.toNat < 2 ^ 63) (hfresh : c.Fresh) (signature : PutData L → List UInt8)
    (ndnName : L.Name) : Publishes signature c ndnName [] := by
  have hempty : ([] : List UInt8).length < 2 ^ 63 := by norm_num
  obtain ⟨hdiv, hmod⟩ := toNat_blocks hempty c.mBlockSize
  rw [List.length_nil, Nat.zero_div] at hdiv
  rw [List.length_nil, Nat.zero_mod] at hmod
  have hchunk : toInt (UInt64.ofNat 0 / c.mBlockSize) = 0 := by
    rw [toInt_eq (by omega), hdiv, Nat.cast_zero]
  have hlast : toInt (UInt64.ofNat 0 % c.mBlockSize) = 0 := by
    rw [toInt_eq (by omega), hmod, Nat.cast_zero]
  have hend : DeleteHandle.publishedEnd (UInt64.ofNat ([] : List UInt8).length) c.mBlockSize = -1 := by
    rw [publishedEnd_eq hempty (by simp)]
    simp
  let s : PutLoop L := { client := c.openFile ndnName [] }
  have hread : (readSegment 0 s).1 = [] := by
    have hle := length_readSegment_le 0 s
    rw [if_pos rfl] at hle
    exact List.eq_nil_of_length_eq_zero (Nat.le_zero.mp hle)
  have hgcount : ¬ 0 < (readSegment 0 s).2.gcount := by
    rw [gcount_readSegment, hread]
    exact Nat.lt_irrefl 0
  refine ⟨1, { s.client with mInsertStream := (readSegment 0 s).2 }, Or.inr ?_, ?_⟩
  · rw [putFile_eq hsize, List.length_nil, hchunk, hlast, prepareLoop, if_pos le_rfl]
    unfold prepareSegment
    dsimp only
    rw [if_neg hgcount]
  · have hdata : s.client.mData = [] := hfresh.data
    have hnumber : s.client.mCurrentSegmentNo = 0 := hfresh.currentSegmentNo
    rw [hend]
    constructor
    · rw [hdata]
      rfl
    · rw [hdata]
      exact List.forall_mem_nil _
    · rw [hdata]
      exact List.forall_mem_nil _
    · rw [hdata]
      rfl
    · rw [hnumber]
      rfl

lemma Fresh.cut {q r : ℕ} (hfresh : c.Fresh) (ndnName : L.Name) (hlength : bytes.length = q * c.mBlockSize.toNat + r) :
    Cut bytes c.mBlockSize.toNat q r { client := c.openFile ndnName bytes } := by
  have hdata : (c.openFile ndnName bytes).mData = [] := hfresh.data
  constructor
  · rw [hdata]
    rfl
  · rw [hdata]
    exact Nat.zero_le _
  · rfl
  · rfl
  · rw [← hlength]
    rfl
  · exact UInt64.ofNat_toNat.symm
  · rw [hdata]
    exact List.forall_mem_nil _
  · rw [hdata]
    exact List.forall_mem_nil _
  · rw [hdata]
    rfl
  · rw [hdata]
    exact hfresh.currentSegmentNo

/-- A client that has cut all of the file has published it. -/
lemma Cut.publishesWhole {q r : ℕ} (h : Cut bytes c.mBlockSize.toNat q r s) (hlinked : Linked q ndnName s)
    (hcount : (q : ℤ) < s.count) (hq : q < 2 ^ 31) : PublishesWhole ndnName bytes c.mBlockSize q s.client := by
  have hcounted := h.count_eq
  have hle := h.count_le
  have hall : s.client.mData.length = q + 1 := by omega
  have hne : ¬ s.client.mData.length = 0 := by omega
  constructor
  · apply List.ext_getElem?
    intro i
    rw [List.getElem?_map, List.getElem?_map]
    by_cases hi : i < q + 1
    · have hdata := List.getElem?_eq_getElem (hall ▸ hi)
      have hrange : (List.range ((q : ℤ) + 1).toNat)[i]? = some i := by
        rw [List.getElem?_range]
        omega
      rw [hdata, hrange, Option.map_some, Option.map_some, (hlinked.hashLinked hcount).name i _ hdata]
    · rw [List.getElem?_eq_none (by omega), List.getElem?_eq_none (by rw [List.length_range]; omega)]
      rfl
  · exact h.finalBlock
  · exact h.length_le
  · rw [h.content, if_neg hne, hall, Nat.sub_self, zero_mul, List.drop_zero]
  · have hlt : q + 1 < 2 ^ 64 := by omega
    rw [h.mCurrentSegmentNo, hall, UInt64.toNat_ofNat_of_lt' hlt, Nat.cast_add, Nat.cast_one]

/-- A file that does not end with a full block is cut into its blocks and what is left. -/
lemma publishes_of_cut (hsize : c.mBlockSize.toNat < 2 ^ 63) (hblock : 0 < c.mBlockSize.toNat) (hfresh : c.Fresh)
    (signature : PutData L → List UInt8) (ndnName : L.Name) (hbytes : bytes.length < 2 ^ 63)
    (hpos : 0 < bytes.length % c.mBlockSize.toNat) (hrest : bytes.length % c.mBlockSize.toNat < 2 ^ 31)
    (hfew : bytes.length / c.mBlockSize.toNat < 2 ^ 31 - 1) : Publishes signature c ndnName bytes := by
  obtain ⟨hdiv, hmod⟩ := toNat_blocks hbytes c.mBlockSize
  have hr := Nat.mod_lt bytes.length hblock
  have hlength := Nat.div_add_mod' bytes.length c.mBlockSize.toNat
  have hend := publishedEnd_eq hbytes (show bytes.length / c.mBlockSize.toNat < 2 ^ 31 by omega)
  have hchunk : toInt (UInt64.ofNat bytes.length / c.mBlockSize) = (bytes.length / c.mBlockSize.toNat : ℕ) := by
    rw [toInt_eq (by omega), hdiv]
  have hlast : toInt (UInt64.ofNat bytes.length % c.mBlockSize) = (bytes.length % c.mBlockSize.toNat : ℕ) := by
    rw [toInt_eq (by omega), hmod]
  rw [if_neg hpos.ne', sub_zero] at hend
  generalize bytes.length / c.mBlockSize.toNat = q at *
  generalize bytes.length % c.mBlockSize.toNat = r at *
  have hstart : Linked q ndnName { client := c.openFile ndnName bytes } ∧
      Cut bytes c.mBlockSize.toNat q r { client := c.openFile ndnName bytes } :=
    ⟨hfresh.linked q ndnName bytes, hfresh.cut ndnName hlength.symm⟩
  have hstep (s s' : PutLoop L) (data : PutData L) (hs : Linked q ndnName s ∧ Cut bytes c.mBlockSize.toNat q r s)
      (hcount : s.count ≤ q) (hdata : Prepared q r s s' data) :
      Linked q ndnName s' ∧ Cut bytes c.mBlockSize.toNat q r s' :=
    ⟨hs.1.prepared hcount hdata, hs.2.prepared hlength.symm hbytes hsize hpos hr hcount hdata⟩
  have hround (s : PutLoop L) (hs : Linked q ndnName s ∧ Cut bytes c.mBlockSize.toNat q r s) (hcount : s.count ≤ q) :
      ∃ s', prepareSegment signature q r s = .ok s' := by
    apply prepareSegment_ok
    have hcounted := hs.2.count_eq
    exact (hs.2.readSegment_append hlength.symm hbytes hsize hpos hr (by omega)).2.1
  obtain ⟨fuel, result, hresult⟩ := exists_completed (by omega) hround hstep hstart
  obtain ⟨s, hs, hcount, rfl⟩ :=
    prepareLoop_invariant (fun s s' data hs hcount _ hdata => hstep s s' data hs hcount hdata) hstart hresult
  refine ⟨fuel, s.client, Or.inl ?_, ?_⟩
  · rw [putFile_eq hsize, hchunk, hlast, hresult]
  · rw [hend]
    exact hs.2.publishesWhole hs.1 hcount (by omega)

/-- The whole file is published exactly when it is empty or does not end with a full block. -/
theorem publishes_whole_iff (hblock : 0 < c.mBlockSize.toNat) (hfresh : c.Fresh) (signature : PutData L → List UInt8)
    (ndnName : L.Name) (hbytes : bytes.length < 2 ^ 63) (hint : bytes.length / c.mBlockSize.toNat < 2 ^ 31) :
    Publishes signature c ndnName bytes ↔ WholeSize bytes.length c.mBlockSize.toNat := by
  constructor
  · exact wholeSize_of_publishes hblock hfresh hbytes hint
  · rintro ⟨hsize, hnil | ⟨hpos, hr, hq⟩⟩
    · rw [List.length_eq_zero_iff.mp hnil]
      exact publishes_nil hsize hfresh signature ndnName
    · exact publishes_of_cut hsize hblock hfresh signature ndnName hbytes hpos hr hq

theorem film_published : Publishes filmSignature filmClient [film] filmBytes :=
  (publishes_whole_iff (by decide) ⟨rfl, rfl⟩ filmSignature [film] (by decide) (by decide)).mpr
    ⟨by decide, Or.inr (by decide)⟩

/-- The first read of four bytes in blocks of two asks for nothing. -/
theorem full_blocks_not_published : ¬ ∀ (signature : PutData plainNames → List UInt8) (c : PutClient plainNames)
    (ndnName : plainNames.Name) (bytes : List UInt8), 0 < c.mBlockSize.toNat → c.Fresh → bytes.length < 2 ^ 63 →
      bytes.length / c.mBlockSize.toNat < 2 ^ 31 → Publishes signature c ndnName bytes := by
  intro h
  have hpublishes := h filmSignature filmClient [film] [1, 2, 3, 4] (by decide) ⟨rfl, rfl⟩ (by decide) (by decide)
  have hsize := wholeSize_of_publishes (by decide) ⟨rfl, rfl⟩ (by decide) (by decide) hpublishes
  exact absurd hsize.2 (by decide)

end PutClient

end Difs
