import Difs.Client.PutFile
import Difs.Client.Requests
import Difs.Insert.Counts

/-!
# Putting a file

A client cuts a file into segments, asks a node to insert it, serves the Interests of the fetchers
of the node and asks after its process until as many segments are counted as there are. The node
has other clients as well. Its fetchers are not part of the repository: they may ask for anything
at any time, and hand over what was sent to them, no segment twice.
-/

namespace Difs

open EventRun

/-- What the network library makes of the packets of the client. -/
structure PacketLibrary (L : NameLibrary) where
  toSegment : L.Component → Option UInt64
  matchesData : L.Name → PutData L → Bool
  encode : PutData L → Data L
  getContent : Data L → List UInt8
  toSegment_segment : ∀ segmentNo, toSegment (L.segment segmentNo) = some segmentNo
  name_encode : ∀ data, (encode data).name = data.name
  getContent_encode : ∀ data, getContent (encode data) = data.content

inductive PutReply (L : NameLibrary) where
  | manifest (json : InfoJson)
  | data (data : PutData L)
  | nack
  | ignored

inductive PutStatus where
  | running
  | completed
  | stopped
  | threw (message : String)
deriving DecidableEq, Repr

/-- What the client asks the node for. -/
inductive PutCommand where
  | insert
  | check (processId : UInt64)
deriving DecidableEq, Repr

/-- `commands` have been sent and not been answered, and `scheduled` checks are with the scheduler. -/
structure PutSession (L : NameLibrary) where
  client : PutClient L
  mNodePrefix : Option (List String) := none
  mProcessId : UInt64 := 0
  mRetryCount : ℤ := 0
  commands : List PutCommand := []
  scheduled : ℕ := 0
  status : PutStatus := .running

namespace PutSession

variable {L : NameLibrary}

/-- The parameter of the insert command. -/
def insertParameter (s : PutSession L) : RepoCommandParameter L :=
  { name := s.client.mDataPrefix, nodePrefix := s.mNodePrefix }

/-! ### Interests -/

section Interests

variable (lib : PacketLibrary L) (sha1 : String → String)

def putFileSendManifest (s : PutSession L) (interest : L.Name) : PutReply L :=
  if s.client.mDataPrefix = interest then
    .manifest (Difs.putFileSendManifest sha1 interest (DeleteHandle.publishedEnd s.client.mBytes s.client.mBlockSize))
  else .ignored

/-- `none` is the read of a first segment that is not there. -/
def onPutFileInterest (s : PutSession L) (interest : L.Name) : Option (PutReply L) :=
  if interest.length = s.client.mDataPrefix.length then some (s.putFileSendManifest sha1 interest)
  else
    match interest[s.client.mDataPrefix.length]?.bind lib.toSegment with
    | none => some .ignored
    | some segmentNo =>
      match s.client.mData[segmentNo.toNat]?, s.client.mData with
      | some data, _ => some (.data data)
      | none, [] => none
      | none, data :: _ => some (if lib.matchesData interest data then .data data else .nack)

end Interests

/-! ### Commands -/

def putFileStartInsertCommand (s : PutSession L) : PutSession L := { s with commands := s.commands ++ [.insert] }

def putFileStartCheckCommand (s : PutSession L) : PutSession L :=
  { s with commands := s.commands ++ [.check s.mProcessId] }

def onPutFileInsertCommandResponse (s : PutSession L) (response : RepoCommandResponse) : PutSession L :=
  if response.code ≥ 400 then
    { s with status := .threw ("insert command failed with code: " ++ Nat.repr response.code) }
  else { s with mProcessId := response.processId.getD 0, scheduled := s.scheduled + 1 }

def onPutFileCheckCommandResponse (s : PutSession L) (response : RepoCommandResponse) : PutSession L :=
  if response.code ≥ 400 then
    { s with status := .threw ("Insert check command failed with code: " ++ Nat.repr response.code) }
  else if response.getInsertNum = s.client.mCurrentSegmentNo then { s with status := .completed }
  else { s with scheduled := s.scheduled + 1 }

def retry (start : PutSession L → PutSession L) (s : PutSession L) : PutSession L :=
  let counted := { s with mRetryCount := s.mRetryCount + 1 }
  if s.mRetryCount < Command.MAX_RETRY then start counted else counted

def onPutFileInsertCommandTimeout (s : PutSession L) : PutSession L := s.retry putFileStartInsertCommand

/-- Bound for a nack as well. -/
def onPutFileCheckCommandTimeout (s : PutSession L) : PutSession L := s.retry putFileStartCheckCommand

def putFileStopProcess (s : PutSession L) : PutSession L := { s with status := .stopped }

def onResponse (s : PutSession L) (response : RepoCommandResponse) : PutCommand → PutSession L
  | .insert => s.onPutFileInsertCommandResponse response
  | .check _ => s.onPutFileCheckCommandResponse response

def onFailure (s : PutSession L) : PutCommand → PutSession L
  | .insert => s.onPutFileInsertCommandTimeout
  | .check _ => s.onPutFileCheckCommandTimeout

end PutSession

/-! ### The client and the node -/

/-- `answers` are on their way to the client, and `fetched` are the packets that it has put for the
fetcher of a process. The names of the packets that a process got are read by no handler. -/
structure PutNet (L : NameLibrary) (sha1 : String → String) where
  session : PutSession L
  node : WriteNode L sha1
  answers : List (PutCommand × RepoCommandResponse) := []
  fetched : List (UInt64 × Data L) := []
  handed : UInt64 → List L.Name := fun _ => []

inductive PutEvent (L : NameLibrary) where
  | registered
  | due
  | answered (command : PutCommand) (response : RepoCommandResponse)
  | failed (command : PutCommand)
  | stop
  | fetch (processId segmentNo : UInt64)
  | node (e : WriteEvent L)

section Net

variable {L : NameLibrary} {sha1 : String → String} (lib : PacketLibrary L)

def PutReply.packets : PutReply L → List (Data L)
  | .data segment => [lib.encode segment]
  | _ => []

namespace PutNet

/-- The answers of the node to an insert like that of the client and to all checks. -/
def answersTo (n : PutNet L sha1) : WriteEvent L → List (PutCommand × RepoCommandResponse)
  | .data (.find _ _ _ _ _ parameter) content _ processId now =>
    if parameter = n.session.insertParameter then
      (n.node.handle.onFindResponse (content ≠ .empty) parameter processId now).done.toList.map (fun response =>
        (.insert, response))
    else []
  | .check processId now =>
    (n.node.handle.handleCheckCommand processId now).done.toList.map (fun response => (.check processId, response))
  | _ => []

/-- A process that is gone gets nothing any more. -/
def handedAfter (n : PutNet L sha1) : WriteEvent L → UInt64 → List L.Name
  | .segment processId data _ =>
    if (n.node.handle.mProcesses processId).isSome then
      Function.update n.handed processId (n.handed processId ++ [data.name])
    else n.handed
  | _ => n.handed

/-- An event of the client, which has neither stopped nor thrown. -/
def clientStep (n : PutNet L sha1) : PutEvent L → Option (PutNet L sha1)
  | .registered => some { n with session := n.session.putFileStartInsertCommand }
  | .due =>
    if 0 < n.session.scheduled then
      some { n with session := { n.session with scheduled := n.session.scheduled - 1 }.putFileStartCheckCommand }
    else none
  | .answered command response =>
    if command ∈ n.session.commands ∧ (command, response) ∈ n.answers then
      some { n with
        session := { n.session with commands := n.session.commands.erase command }.onResponse response command }
    else none
  | .failed command =>
    if command ∈ n.session.commands then
      some { n with session := { n.session with commands := n.session.commands.erase command }.onFailure command }
    else none
  | .stop => some { n with session := n.session.putFileStopProcess }
  | .fetch processId segmentNo =>
    if processId ∈ n.node.fetching ∧ n.node.objects processId = some n.session.client.mDataPrefix then
      (n.session.onPutFileInterest lib sha1 (L.appendSegment n.session.client.mDataPrefix segmentNo)).map (fun reply =>
        { n with fetched := n.fetched ++ (reply.packets lib).map (fun data => (processId, data)) })
    else none
  | .node _ => none

def step (n : PutNet L sha1) : PutEvent L → Option (PutNet L sha1)
  | .node e =>
    (writeStep n.node e).map (fun node =>
      { n with node := node, answers := n.answers ++ n.answersTo e, handed := n.handedAfter e })
  | e => if n.session.status = .running then n.clientStep lib e else none

end PutNet

/-- Ids are drawn once. A process that inserts the object of the client is handed what the client
has sent to its fetcher, no name twice. The packets of the other processes have other paths. -/
def FetchersHandOver (n : PutNet L sha1) : PutEvent L → Prop
  | .node (.segment processId data _) =>
    if n.node.objects processId = some n.session.client.mDataPrefix then
      (processId, data) ∈ n.fetched ∧ data.name ∉ n.handed processId
    else
      ∀ d ∈ n.session.client.mData, DataStore.getPath sha1 data.name ≠ DataStore.getPath sha1 d.name ∧
        DataStore.getPath sha1 data.name ≠ DataStore.getPath sha1 (lib.encode d).getFullName
  | .node e => DrawnOnce n.node e
  | _ => True

/-- Field by field, so that a run can be evaluated. -/
def Data.decideEq (data data' : Data L) : Decidable (data = data') :=
  decidable_of_iff (data.name = data'.name ∧ data.digest = data'.digest ∧ data.content = data'.content)
    (by cases data; cases data'; simp only [Data.mk.injEq])

instance (n : PutNet L sha1) : DecidablePred (FetchersHandOver lib n)
  | .node (.segment processId data _) =>
    letI : DecidableEq (Data L) := Data.decideEq
    inferInstanceAs (Decidable (
      if n.node.objects processId = some n.session.client.mDataPrefix then
        (processId, data) ∈ n.fetched ∧ data.name ∉ n.handed processId
      else
        ∀ d ∈ n.session.client.mData, DataStore.getPath sha1 data.name ≠ DataStore.getPath sha1 d.name ∧
          DataStore.getPath sha1 data.name ≠ DataStore.getPath sha1 (lib.encode d).getFullName))
  | .node (.data i content valid processId now) =>
    inferInstanceAs (Decidable (DrawnOnce n.node (.data i content valid processId now)))
  | .node (.keySpace _) | .node (.insert _ _) | .node (.timeout _) | .node (.segmentTimeout _) | .node (.check _ _)
  | .node (.info _) | .node (.deleteProcess _) | .registered | .due | .answered _ _ | .failed _ | .stop | .fetch _ _ =>
    inferInstanceAs (Decidable True)

end Net

/-! ### What is counted is stored -/

/-- The segments have names of their own, and no two names or full names of them have one digest. -/
structure PathsApart {L : NameLibrary} (lib : PacketLibrary L) (sha1 : String → String) (datas : List (PutData L)) :
    Prop where
  nodup : (datas.map PutData.name).Nodup
  name : ∀ d ∈ datas, ∀ d' ∈ datas, DataStore.getPath sha1 d.name = DataStore.getPath sha1 d'.name → d.name = d'.name
  full : ∀ d ∈ datas, ∀ d' ∈ datas,
    DataStore.getPath sha1 (lib.encode d).getFullName ≠ DataStore.getPath sha1 d'.name

section Stored

variable {L : NameLibrary} {sha1 : String → String} {lib : PacketLibrary L} {c : PutClient L}
  {store store' : DataStore L sha1} {n t : PutNet L sha1} {e : PutEvent L} {d d' : PutData L} {data : Data L}
  {datas : List (PutData L)} {p : UInt64} {count : UInt64}

lemma PathsApart.eq_of_name (h : PathsApart lib sha1 datas) (hd : d ∈ datas) (hd' : d' ∈ datas)
    (hname : d.name = d'.name) : d = d' :=
  List.inj_on_of_nodup_map h.nodup hd hd' hname

/-- The packet of the segment is what is read under its name. -/
def StoredPacket (lib : PacketLibrary L) (store : DataStore L sha1) (d : PutData L) : Prop :=
  store.read d.name = some (lib.encode d)

/-- Nothing is stored where the full names of the segments would be. -/
def NoFullNames (lib : PacketLibrary L) (datas : List (PutData L)) (store : DataStore L sha1) : Prop :=
  ∀ d ∈ datas, store.has (lib.encode d).getFullName = false

/-- A segment of the file is stored, and displaces no other. -/
lemma stored_insert_own (h : PathsApart lib sha1 datas) (hfull : NoFullNames lib datas store) (hd : d ∈ datas) :
    NoFullNames lib datas (store.insertData (lib.encode d)).1 ∧ StoredPacket lib (store.insertData (lib.encode d)).1 d ∧
      ∀ d' ∈ datas, StoredPacket lib store d' → StoredPacket lib (store.insertData (lib.encode d)).1 d' := by
  refine ⟨?_, ?_, ?_⟩
  · intro d' hd'
    have hne := h.full d' hd' d hd
    rw [← lib.name_encode] at hne
    rw [DataStore.has_insertData_of_ne hne]
    exact hfull d' hd'
  · unfold StoredPacket
    rw [DataStore.read_insertData (hfull d hd), lib.name_encode, if_pos rfl]
  · intro d' hd' hstored
    unfold StoredPacket
    rw [DataStore.read_insertData (hfull d hd), lib.name_encode]
    split_ifs with hpath
    · rw [h.eq_of_name hd' hd (h.name d' hd' d hd hpath)]
    · exact hstored

/-- Packets with other paths leave all segments alone. -/
lemma stored_insert_other (hfull : NoFullNames lib datas store)
    (hother : ∀ d ∈ datas, DataStore.getPath sha1 data.name ≠ DataStore.getPath sha1 d.name ∧
      DataStore.getPath sha1 data.name ≠ DataStore.getPath sha1 (lib.encode d).getFullName) :
    NoFullNames lib datas (store.insertData data).1 ∧
      ∀ d' ∈ datas, StoredPacket lib store d' → StoredPacket lib (store.insertData data).1 d' := by
  constructor
  · intro d' hd'
    rw [DataStore.has_insertData_of_ne (hother d' hd').2.symm]
    exact hfull d' hd'
  · intro d' hd' hstored
    unfold StoredPacket
    rw [DataStore.read_insertData_of_ne (hother d' hd').1.symm]
    exact hstored

/-- So many segments of the file were handed to the process and are stored. -/
def CountedAs (lib : PacketLibrary L) (c : PutClient L) (n : PutNet L sha1) (p count : UInt64) : Prop :=
  ∃ datas : List (PutData L), (datas.map PutData.name).Nodup ∧ count = UInt64.ofNat datas.length ∧
    ∀ d ∈ datas, d ∈ c.mData ∧ d.name ∈ n.handed p ∧ StoredPacket lib n.node.store d

/-- A process has an object, and where that is the file of the client its count is of stored segments. -/
def CountsOwn (lib : PacketLibrary L) (c : PutClient L) (n : PutNet L sha1) (p count : UInt64) : Prop :=
  ∃ object, n.node.objects p = some object ∧ (object = c.mDataPrefix → CountedAs lib c n p count)

/-- The client checks on a process of its file, and has completed only what is stored. -/
structure SessionInv (lib : PacketLibrary L) (c : PutClient L) (node : WriteNode L sha1) (s : PutSession L) : Prop where
  client : s.client = c
  own : ∀ p, .check p ∈ s.commands → node.objects p = some c.mDataPrefix
  bound : (0 < s.scheduled ∨ ∃ p, .check p ∈ s.commands) → node.objects s.mProcessId = some c.mDataPrefix
  completed : s.status = .completed → ∀ d ∈ c.mData, StoredPacket lib node.store d

structure PutInv (lib : PacketLibrary L) (c : PutClient L) (n : PutNet L sha1) : Prop where
  session : SessionInv lib c n.node n.session
  full : NoFullNames lib c.mData n.node.store
  fetched : ∀ p data, (p, data) ∈ n.fetched → ∃ d ∈ c.mData, data = lib.encode d
  counts : ∀ p process, n.node.handle.mProcesses p = some process → CountsOwn lib c n p process.response.getInsertNum
  inserts : ∀ response, (.insert, response) ∈ n.answers → response.code < 400 →
    ∃ p, response.processId = some p ∧ n.node.objects p = some c.mDataPrefix
  checks : ∀ p response, (.check p, response) ∈ n.answers → response.code < 400 →
    CountsOwn lib c n p response.getInsertNum
  unused : ∀ p, n.node.objects p = none → n.handed p = []
  handed : ∀ p, n.node.objects p = some c.mDataPrefix →
    (n.handed p).Nodup ∧ ∀ name ∈ n.handed p, ∃ d ∈ c.mData, d.name = name
  exact : (∀ d ∈ c.mData, hash (L.uri d.name) ≠ notFound) → ∀ p process, n.node.handle.mProcesses p = some process →
    n.node.objects p = some c.mDataPrefix → process.response.getInsertNum = UInt64.ofNat (n.handed p).length

/-- What stays while the node goes on. -/
structure Grows (lib : PacketLibrary L) (c : PutClient L) (n t : PutNet L sha1) : Prop where
  objects : ∀ p object, n.node.objects p = some object → t.node.objects p = some object
  handed : ∀ p, n.handed p ⊆ t.handed p
  stored : ∀ d ∈ c.mData, StoredPacket lib n.node.store d → StoredPacket lib t.node.store d

lemma CountedAs.mono (h : CountedAs lib c n p count) (hgrows : Grows lib c n t) : CountedAs lib c t p count := by
  obtain ⟨datas, hnodup, hcount, hdatas⟩ := h
  refine ⟨datas, hnodup, hcount, ?_⟩
  intro d hd
  obtain ⟨hmem, hhanded, hstored⟩ := hdatas d hd
  exact ⟨hmem, hgrows.handed p hhanded, hgrows.stored d hmem hstored⟩

lemma CountsOwn.mono (h : CountsOwn lib c n p count) (hgrows : Grows lib c n t) : CountsOwn lib c t p count := by
  obtain ⟨object, hobject, hcounted⟩ := h
  exact ⟨object, hgrows.objects p object hobject, fun hown => (hcounted hown).mono hgrows⟩

/-- As many segments as the file has are all of them. -/
lemma CountedAs.all (h : CountedAs lib c n p count) (hnumber : c.mCurrentSegmentNo.toNat = c.mData.length)
    (hcount : count = c.mCurrentSegmentNo) : ∀ d ∈ c.mData, StoredPacket lib n.node.store d := by
  obtain ⟨datas, hnodup, hlength, hdatas⟩ := h
  have hsub : datas.Subperm c.mData := hnodup.of_map.subperm (fun d hd => (hdatas d hd).1)
  have hlt := c.mCurrentSegmentNo.toNat_lt
  have hle := hsub.length_le
  have hall : datas.length = c.mData.length := by
    rw [hcount] at hlength
    have htoNat := congrArg UInt64.toNat hlength
    rw [UInt64.toNat_ofNat_of_lt' (by show datas.length < 2 ^ 64; omega)] at htoNat
    omega
  intro d hd
  exact (hdatas d ((hsub.perm_of_length_le hall.ge).mem_iff.mpr hd)).2.2

/-! ### Steps of the node -/

section NodeSteps

variable {we : WriteEvent L}

lemma objectsAfter_of_some {object : L.Name} (hc : DrawnOnce n.node we) (h : n.node.objects p = some object) :
    n.node.objectsAfter we p = some object := by
  unfold WriteNode.objectsAfter
  split
  · rename_i parameter content valid drawn now
    split_ifs with hstarts
    · have hne : p ≠ drawn := by
        rintro rfl
        rw [hc hstarts] at h
        cases h
      rw [Function.update_of_ne hne]
      exact h
    · exact h
  · exact h

lemma exists_objectsAfter (h : n.node.StartedBy p we) : ∃ object, n.node.objectsAfter we p = some object := by
  unfold WriteNode.StartedBy at h
  split at h
  · rename_i parameter content valid drawn now
    obtain ⟨rfl, hstarts⟩ := h
    refine ⟨parameter.name, ?_⟩
    unfold WriteNode.objectsAfter
    dsimp only
    rw [if_pos hstarts, Function.update_self]
  · exact h.elim

lemma drawnOnce_of_handOver (hc : FetchersHandOver lib n (.node we)) : DrawnOnce n.node we := by
  cases we with
  | data i content valid processId now => exact hc
  | _ => trivial

/-- The packet that a process of the file is handed is that of a segment. -/
lemma PutInv.own_segment (hn : PutInv lib c n) {processId : UInt64} {now : ℕ}
    (hc : FetchersHandOver lib n (.node (.segment processId data now)))
    (hown : n.node.objects processId = some c.mDataPrefix) :
    ∃ d ∈ c.mData, data = lib.encode d ∧ d.name ∉ n.handed processId := by
  dsimp only [FetchersHandOver] at hc
  rw [hn.session.client, if_pos hown] at hc
  obtain ⟨d, hd, rfl⟩ := hn.fetched processId data hc.1
  refine ⟨d, hd, rfl, ?_⟩
  rw [← lib.name_encode]
  exact hc.2

lemma PutInv.store_node (hn : PutInv lib c n) (hapart : PathsApart lib sha1 c.mData)
    (hc : FetchersHandOver lib n (.node we)) : NoFullNames lib c.mData (n.node.storeAfter we) ∧
      ∀ d ∈ c.mData, StoredPacket lib n.node.store d → StoredPacket lib (n.node.storeAfter we) d := by
  have hsame : NoFullNames lib c.mData n.node.store ∧
      ∀ d ∈ c.mData, StoredPacket lib n.node.store d → StoredPacket lib n.node.store d := ⟨hn.full, fun _ _ h => h⟩
  cases we with
  | segment processId data now =>
    unfold WriteNode.storeAfter
    dsimp only
    split_ifs with hp
    · by_cases hown : n.node.objects processId = some c.mDataPrefix
      · obtain ⟨d, hd, rfl, -⟩ := hn.own_segment hc hown
        obtain ⟨hfull, -, hstored⟩ := stored_insert_own hapart hn.full hd
        exact ⟨hfull, hstored⟩
      · dsimp only [FetchersHandOver] at hc
        rw [hn.session.client, if_neg hown] at hc
        exact stored_insert_other hn.full hc
    · exact hsame
  | _ => exact hsame

lemma handed_subset (we : WriteEvent L) (p : UInt64) : n.handed p ⊆ n.handedAfter we p := by
  cases we with
  | segment processId data now =>
    unfold PutNet.handedAfter
    dsimp only
    split_ifs
    · by_cases hp : p = processId
      · rw [hp, Function.update_self]
        exact List.subset_append_left _ _
      · rw [Function.update_of_ne hp]
        exact List.Subset.refl _
    · exact List.Subset.refl _
  | _ => exact List.Subset.refl _

/-- What a process of the file has counted after a step of the node. -/
lemma PutInv.counted_node (hn : PutInv lib c n) (hapart : PathsApart lib sha1 c.mData)
    (hc : FetchersHandOver lib n (.node we)) (hgrows : Grows lib c n t) (hstore : t.node.store = n.node.storeAfter we)
    (hhanded : t.handed = n.handedAfter we) {process : ProcessInfo L} (hp : n.node.handle.mProcesses p = some process)
    (hown : n.node.objects p = some c.mDataPrefix) :
    CountedAs lib c t p (process.response.getInsertNum + n.node.countFor p we) := by
  obtain ⟨object, hobject, hcounted⟩ := hn.counts p process hp
  rw [hown, Option.some_inj] at hobject
  obtain ⟨datas, hnodup, hcount, hdatas⟩ := hcounted hobject.symm
  have hold : CountedAs lib c t p (process.response.getInsertNum + 0) := by
    rw [UInt64.add_zero]
    exact (hcounted hobject.symm).mono hgrows
  cases we with
  | segment processId data now =>
    unfold WriteNode.countFor
    dsimp only
    split_ifs with hcounts
    · obtain ⟨rfl, -⟩ := hcounts
      obtain ⟨d, hd, rfl, hnew⟩ := hn.own_segment hc hown
      have hstored := (stored_insert_own hapart hn.full hd).2.1
      refine ⟨d :: datas, ?_, ?_, ?_⟩
      · rw [List.map_cons, List.nodup_cons]
        refine ⟨?_, hnodup⟩
        intro hmem
        obtain ⟨d', hd', hname⟩ := List.mem_map.mp hmem
        rw [← hname] at hnew
        exact hnew (hdatas d' hd').2.1
      · rw [hcount, List.length_cons, UInt64.ofNat_add]
        rfl
      · refine List.forall_mem_cons.mpr ⟨⟨hd, ?_, ?_⟩, ?_⟩
        · rw [hhanded, PutNet.handedAfter, hp, Option.isSome_some, if_pos rfl, Function.update_self, lib.name_encode]
          exact List.mem_concat_self
        · rw [hstore, WriteNode.storeAfter, hp, Option.isSome_some, if_pos rfl]
          exact hstored
        · intro d' hd'
          obtain ⟨hmem, hbefore, hstored'⟩ := hdatas d' hd'
          exact ⟨hmem, hgrows.handed p hbefore, hgrows.stored d' hmem hstored'⟩
    · exact hold
  | _ => exact hold

/-- The answers of the node vouch for its processes. -/
lemma PutInv.answers_node (hn : PutInv lib c n) {command : PutCommand} {response : RepoCommandResponse}
    (hm : (command, response) ∈ n.answersTo we) (hcode : response.code < 400) :
    (command = .insert ∧ ∃ p, response.processId = some p ∧ n.node.objectsAfter we p = some c.mDataPrefix) ∨
      ∃ p process, command = .check p ∧ n.node.handle.mProcesses p = some process ∧
        response.getInsertNum = process.response.getInsertNum := by
  unfold PutNet.answersTo at hm
  split at hm
  · rename_i parameter content valid processId now
    split_ifs at hm with hparameter
    · obtain ⟨r, hr, heq⟩ := List.mem_map.mp hm
      cases heq
      obtain hbad | ⟨hstarts, hid⟩ := done_onFindResponse (Option.mem_toList.mp hr)
      · omega
      · refine Or.inl ⟨rfl, processId, hid, ?_⟩
        unfold WriteNode.objectsAfter
        dsimp only
        rw [if_pos hstarts, Function.update_self, hparameter, PutSession.insertParameter, hn.session.client]
    · cases hm
  · obtain ⟨r, hr, heq⟩ := List.mem_map.mp hm
    cases heq
    obtain hbad | ⟨process, hp, hcount⟩ := done_handleCheckCommand (Option.mem_toList.mp hr)
    · omega
    · exact Or.inr ⟨_, process, rfl, hp, hcount⟩
  · cases hm

lemma objects_eq_none (hc : FetchersHandOver lib n (.node we)) (h : n.node.objectsAfter we p = none) :
    n.node.objects p = none := by
  by_contra hsome
  obtain ⟨object, hobject⟩ := Option.ne_none_iff_exists'.mp hsome
  rw [objectsAfter_of_some (drawnOnce_of_handOver hc) hobject] at h
  cases h

lemma objects_of_startedBy (hc : FetchersHandOver lib n (.node we)) (h : n.node.StartedBy p we) :
    n.node.objects p = none := by
  have hdrawn := drawnOnce_of_handOver hc
  unfold WriteNode.StartedBy at h
  split at h
  · obtain ⟨rfl, hstarts⟩ := h
    exact hdrawn hstarts
  · exact h.elim

/-- What the step hands to a process. -/
lemma handedAfter_eq (n : PutNet L sha1) (we : WriteEvent L) (p : UInt64) : n.handedAfter we p = n.handed p ∨
    ∃ data now process, we = .segment p data now ∧ n.node.handle.mProcesses p = some process ∧
      n.handedAfter we p = n.handed p ++ [data.name] := by
  cases we with
  | segment processId data now =>
    unfold PutNet.handedAfter
    dsimp only
    split_ifs with hsome
    · obtain ⟨process, hp⟩ := Option.isSome_iff_exists.mp hsome
      by_cases hpx : p = processId
      · subst hpx
        rw [Function.update_self]
        exact Or.inr ⟨data, now, process, rfl, hp, rfl⟩
      · rw [Function.update_of_ne hpx]
        exact Or.inl rfl
    · exact Or.inl rfl
  | _ => exact Or.inl rfl

lemma PutInv.unused_node (hn : PutInv lib c n) (hobject : n.node.objects p = none) : n.handedAfter we p = [] := by
  obtain heq | ⟨data, now, process, rfl, hp, -⟩ := handedAfter_eq n we p
  · rw [heq, hn.unused p hobject]
  · obtain ⟨object, hsome, -⟩ := hn.counts p process hp
    rw [hobject] at hsome
    cases hsome

lemma PutInv.handed_node (hn : PutInv lib c n) (hc : FetchersHandOver lib n (.node we))
    (hobject : n.node.objectsAfter we p = some c.mDataPrefix) :
    (n.handedAfter we p).Nodup ∧ ∀ name ∈ n.handedAfter we p, ∃ d ∈ c.mData, d.name = name := by
  cases hold : n.node.objects p with
  | none =>
    rw [hn.unused_node hold]
    exact ⟨List.nodup_nil, List.forall_mem_nil _⟩
  | some object =>
    rw [objectsAfter_of_some (drawnOnce_of_handOver hc) hold] at hobject
    obtain ⟨hnodup, hnames⟩ := hn.handed p (hold.trans hobject)
    obtain heq | ⟨data, now, process, rfl, -, heq⟩ := handedAfter_eq n we p
    · rw [heq]
      exact ⟨hnodup, hnames⟩
    · obtain ⟨d, hd, rfl, hnew⟩ := hn.own_segment hc (hold.trans hobject)
      rw [heq, lib.name_encode, ← List.concat_eq_append]
      refine ⟨hnodup.concat hnew, ?_⟩
      rw [List.concat_eq_append, List.forall_mem_append, List.forall_mem_singleton]
      exact ⟨hnames, d, hd, rfl⟩

/-- Where all names have ids, every packet that a process of the file gets is counted. -/
lemma PutInv.exact_node (hn : PutInv lib c n) (hc : FetchersHandOver lib n (.node we))
    (hcounts : ∀ d ∈ c.mData, hash (L.uri d.name) ≠ notFound) {process : ProcessInfo L}
    (hp : n.node.handle.mProcesses p = some process) (hobject : n.node.objects p = some c.mDataPrefix) :
    process.response.getInsertNum + n.node.countFor p we = UInt64.ofNat (n.handedAfter we p).length := by
  have hold := hn.exact hcounts p process hp hobject
  have hsame : process.response.getInsertNum + 0 = UInt64.ofNat (n.handed p).length := by
    rw [UInt64.add_zero, hold]
  cases we with
  | segment processId data now =>
    unfold WriteNode.countFor PutNet.handedAfter
    dsimp only
    by_cases hpx : p = processId
    · subst hpx
      obtain ⟨d, hd, rfl, -⟩ := hn.own_segment hc hobject
      have hinserted : (n.node.store.insertData (lib.encode d)).2 := by
        refine DataStore.insertData_counts.mpr (Or.inr ?_)
        rw [lib.name_encode]
        exact hcounts d hd
      rw [if_pos ⟨rfl, hinserted⟩, hp, Option.isSome_some, if_pos rfl, Function.update_self, List.length_append,
        List.length_singleton, UInt64.ofNat_add, hold]
      rfl
    · rw [if_neg (fun h => hpx h.1)]
      split_ifs
      · rw [Function.update_of_ne hpx]
        exact hsame
      · exact hsame
  | _ => exact hsame

/-- A step of the node leaves the client alone. -/
lemma PutInv.node_step (hn : PutInv lib c n) (hapart : PathsApart lib sha1 c.mData)
    (hc : FetchersHandOver lib n (.node we)) (h : n.step lib (.node we) = some t) : PutInv lib c t := by
  obtain ⟨node, hnode, rfl⟩ := Option.map_eq_some_iff.mp h
  obtain ⟨hobjects, hstore, hstarted, hcount⟩ := writeStep_counting hnode
  obtain ⟨hfull, hstored⟩ := hn.store_node hapart hc
  have hkept : ∀ p object, n.node.objects p = some object → node.objects p = some object := by
    intro p object hobject
    rw [hobjects]
    exact objectsAfter_of_some (drawnOnce_of_handOver hc) hobject
  have hgrows : Grows lib c n { n with
      node := node, answers := n.answers ++ n.answersTo we, handed := n.handedAfter we } := by
    refine ⟨hkept, handed_subset we, ?_⟩
    dsimp only
    rw [hstore]
    exact hstored
  constructor
  · constructor
    · exact hn.session.client
    · intro p hm
      exact hkept p _ (hn.session.own p hm)
    · intro hwaits
      exact hkept _ _ (hn.session.bound hwaits)
    · intro hcompleted d hd
      exact hgrows.stored d hd (hn.session.completed hcompleted d hd)
  · dsimp only
    rw [hstore]
    exact hfull
  · exact hn.fetched
  · intro p process' hp
    by_cases hs : n.node.StartedBy p we
    · obtain ⟨object, hobject⟩ := exists_objectsAfter hs
      refine ⟨object, (congrFun hobjects p).trans hobject, fun _ => ⟨[], List.nodup_nil, ?_, List.forall_mem_nil _⟩⟩
      rw [hstarted p process' hp hs]
      rfl
    · obtain ⟨process, hold, heq⟩ := hcount p process' hp hs
      obtain ⟨object, hobject, -⟩ := hn.counts p process hold
      refine ⟨object, hkept p object hobject, ?_⟩
      rintro rfl
      rw [heq]
      exact hn.counted_node hapart hc hgrows hstore rfl hold hobject
  · intro response hm hcode
    obtain hm | hm := List.mem_append.mp hm
    · obtain ⟨p, hid, hobject⟩ := hn.inserts response hm hcode
      exact ⟨p, hid, hkept p _ hobject⟩
    · obtain ⟨-, p, hid, hobject⟩ | ⟨_, _, hcommand, -⟩ := hn.answers_node hm hcode
      · exact ⟨p, hid, (congrFun hobjects p).trans hobject⟩
      · cases hcommand
  · intro p response hm hcode
    obtain hm | hm := List.mem_append.mp hm
    · exact (hn.checks p response hm hcode).mono hgrows
    · obtain ⟨hcommand, -⟩ | ⟨x, process, hcommand, hp, heq⟩ := hn.answers_node hm hcode
      · cases hcommand
      · cases hcommand
        rw [heq]
        exact (hn.counts p process hp).mono hgrows
  · intro p hobject
    exact hn.unused_node (objects_eq_none hc (hobjects ▸ hobject))
  · intro p hobject
    exact hn.handed_node hc (hobjects ▸ hobject)
  · intro hcounts p process' hp hobject
    by_cases hs : n.node.StartedBy p we
    · dsimp only
      rw [hstarted p process' hp hs, hn.unused_node (objects_of_startedBy hc hs)]
      rfl
    · obtain ⟨process, hold, heq⟩ := hcount p process' hp hs
      obtain ⟨object, hown, -⟩ := hn.counts p process hold
      rw [hkept p object hown, Option.some_inj] at hobject
      rw [heq]
      exact hn.exact_node hc hcounts hold (hown.trans (congrArg some hobject))

end NodeSteps

/-! ### Steps of the client -/

lemma PutNet.step_cases (h : n.step lib e = some t) : (∃ we, e = .node we) ∨ n.clientStep lib e = some t := by
  cases e with
  | node we => exact Or.inl ⟨we, rfl⟩
  | _ =>
    simp only [PutNet.step, Option.ite_none_right_eq_some] at h
    exact Or.inr h.2

lemma PutNet.node_clientStep (h : n.clientStep lib e = some t) : t.node = n.node := by
  cases e with
  | node we => cases h
  | registered | stop =>
    cases h
    rfl
  | due | answered | failed =>
    simp only [PutNet.clientStep, Option.ite_none_right_eq_some, Option.some_inj] at h
    rw [← h.2]
  | fetch =>
    simp only [PutNet.clientStep, Option.ite_none_right_eq_some, Option.map_eq_some_iff] at h
    obtain ⟨-, reply, -, rfl⟩ := h
    rfl

section ClientSteps

variable {s : PutSession L} {command : PutCommand} {response : RepoCommandResponse}

/-- The client sends what is in its file. -/
lemma mem_of_onPutFileInterest {interest : L.Name} {reply : PutReply L}
    (h : s.onPutFileInterest lib sha1 interest = some reply) (hm : data ∈ reply.packets lib) :
    ∃ d ∈ s.client.mData, data = lib.encode d := by
  unfold PutSession.onPutFileInterest at h
  split_ifs at h
  · cases h
    unfold PutSession.putFileSendManifest at hm
    split_ifs at hm <;> cases hm
  · cases hsegment : interest[s.client.mDataPrefix.length]?.bind lib.toSegment with
    | none =>
      simp only [hsegment] at h
      cases h
      cases hm
    | some segmentNo =>
      simp only [hsegment] at h
      cases hd : s.client.mData[segmentNo.toNat]? with
      | some d =>
        simp only [hd] at h
        cases h
        exact ⟨d, List.mem_of_getElem? hd, List.mem_singleton.mp hm⟩
      | none =>
        rw [hd] at h
        cases hdatas : s.client.mData with
        | nil => simp only [hdatas, reduceCtorEq] at h
        | cons d rest =>
          simp only [hdatas, Option.some_inj] at h
          subst h
          split_ifs at hm
          · exact ⟨d, List.mem_cons_self, List.mem_singleton.mp hm⟩
          · cases hm

namespace SessionInv

variable {node : WriteNode L sha1}

lemma start_insert (hs : SessionInv lib c node s) : SessionInv lib c node s.putFileStartInsertCommand := by
  have hsame : ∀ p, .check p ∈ s.commands ++ [PutCommand.insert] → .check p ∈ s.commands := by simp
  refine ⟨hs.client, fun p hm => hs.own p (hsame p hm), ?_, hs.completed⟩
  intro hwaits
  exact hs.bound (hwaits.imp_right (fun ⟨p, hm⟩ => ⟨p, hsame p hm⟩))

lemma start_check (hs : SessionInv lib c node s) (hbound : node.objects s.mProcessId = some c.mDataPrefix) :
    SessionInv lib c node s.putFileStartCheckCommand := by
  refine ⟨hs.client, ?_, fun _ => hbound, hs.completed⟩
  intro p hm
  obtain hm | hm := List.mem_append.mp hm
  · exact hs.own p hm
  · cases List.mem_singleton.mp hm
    exact hbound

lemma retry (hs : SessionInv lib c node s) {start : PutSession L → PutSession L}
    (hstart : ∀ s', SessionInv lib c node s' → s'.mProcessId = s.mProcessId → SessionInv lib c node (start s')) :
    SessionInv lib c node (s.retry start) := by
  have hcounted : SessionInv lib c node { s with mRetryCount := s.mRetryCount + 1 } :=
    ⟨hs.client, hs.own, hs.bound, hs.completed⟩
  unfold PutSession.retry
  dsimp only
  split_ifs
  · exact hstart _ hcounted rfl
  · exact hcounted

lemma erase (hs : SessionInv lib c node s) (command : PutCommand) :
    SessionInv lib c node { s with commands := s.commands.erase command } := by
  refine ⟨hs.client, fun p hm => hs.own p (List.mem_of_mem_erase hm), ?_, hs.completed⟩
  intro hwaits
  exact hs.bound (hwaits.imp_right (fun ⟨p, hm⟩ => ⟨p, List.mem_of_mem_erase hm⟩))

lemma onFailure (hs : SessionInv lib c node s) (hm : command ∈ s.commands) :
    SessionInv lib c node ({ s with commands := s.commands.erase command }.onFailure command) := by
  cases command with
  | insert => exact (hs.erase _).retry (fun s' hs' _ => hs'.start_insert)
  | check p =>
    have hbound := hs.bound (Or.inr ⟨p, hm⟩)
    refine (hs.erase _).retry (fun s' hs' hid => hs'.start_check ?_)
    rw [hid]
    exact hbound

lemma onResponse_insert (hs : SessionInv lib c node s)
    (hresponse : response.code < 400 → ∃ p, response.processId = some p ∧ node.objects p = some c.mDataPrefix) :
    SessionInv lib c node (s.onPutFileInsertCommandResponse response) := by
  unfold PutSession.onPutFileInsertCommandResponse
  split_ifs with hcode
  · exact ⟨hs.client, hs.own, hs.bound, fun hcompleted => by cases hcompleted⟩
  · obtain ⟨p, hid, hobject⟩ := hresponse (by omega)
    refine ⟨hs.client, hs.own, ?_, hs.completed⟩
    intro _
    dsimp only
    rw [hid]
    exact hobject

lemma onResponse_check (hs : SessionInv lib c node s) (hbound : node.objects s.mProcessId = some c.mDataPrefix)
    (hall : response.code < 400 → response.getInsertNum = c.mCurrentSegmentNo →
      ∀ d ∈ c.mData, StoredPacket lib node.store d) :
    SessionInv lib c node (s.onPutFileCheckCommandResponse response) := by
  unfold PutSession.onPutFileCheckCommandResponse
  split_ifs with hcode hcount
  · exact ⟨hs.client, hs.own, hs.bound, fun hcompleted => by cases hcompleted⟩
  · rw [hs.client] at hcount
    exact ⟨hs.client, hs.own, hs.bound, fun _ => hall (by omega) hcount⟩
  · exact ⟨hs.client, hs.own, fun _ => hbound, hs.completed⟩

end SessionInv

lemma PutInv.of_session (hn : PutInv lib c n) (hs : SessionInv lib c n.node s) :
    PutInv lib c { n with session := s } :=
  ⟨hs, hn.full, hn.fetched, hn.counts, hn.inserts, hn.checks, hn.unused, hn.handed, hn.exact⟩

/-- A client that completes has been told of as many segments as it has. -/
lemma PutInv.onResponse (hn : PutInv lib c n) (hnumber : c.mCurrentSegmentNo.toNat = c.mData.length)
    (hm : command ∈ n.session.commands) (hanswer : (command, response) ∈ n.answers) : SessionInv lib c n.node
      ({ n.session with commands := n.session.commands.erase command }.onResponse response command) := by
  cases command with
  | insert => exact (hn.session.erase _).onResponse_insert (hn.inserts response hanswer)
  | check p =>
    refine (hn.session.erase _).onResponse_check (hn.session.bound (Or.inr ⟨p, hm⟩)) ?_
    intro hcode hcount
    obtain ⟨object, hobject, hcounted⟩ := hn.checks p response hanswer hcode
    rw [hn.session.own p hm, Option.some_inj] at hobject
    exact (hcounted hobject.symm).all hnumber hcount

lemma PutInv.client_step (hn : PutInv lib c n) (hnumber : c.mCurrentSegmentNo.toNat = c.mData.length)
    (h : n.clientStep lib e = some t) : PutInv lib c t := by
  cases e with
  | registered =>
    cases h
    exact hn.of_session hn.session.start_insert
  | due =>
    simp only [PutNet.clientStep, Option.ite_none_right_eq_some, Option.some_inj] at h
    obtain ⟨hscheduled, rfl⟩ := h
    have hbound := hn.session.bound (Or.inl hscheduled)
    refine hn.of_session (SessionInv.start_check ?_ hbound)
    exact ⟨hn.session.client, hn.session.own, fun _ => hbound, hn.session.completed⟩
  | answered command response =>
    simp only [PutNet.clientStep, Option.ite_none_right_eq_some, Option.some_inj] at h
    obtain ⟨⟨hm, hanswer⟩, rfl⟩ := h
    exact hn.of_session (hn.onResponse hnumber hm hanswer)
  | failed command =>
    simp only [PutNet.clientStep, Option.ite_none_right_eq_some, Option.some_inj] at h
    obtain ⟨hm, rfl⟩ := h
    exact hn.of_session (hn.session.onFailure hm)
  | stop =>
    cases h
    exact hn.of_session ⟨hn.session.client, hn.session.own, hn.session.bound, fun hcompleted => by cases hcompleted⟩
  | fetch processId segmentNo =>
    simp only [PutNet.clientStep, Option.ite_none_right_eq_some, Option.map_eq_some_iff] at h
    obtain ⟨-, reply, hreply, rfl⟩ := h
    refine ⟨hn.session, hn.full, ?_, hn.counts, hn.inserts, hn.checks, hn.unused, hn.handed, hn.exact⟩
    intro p data hm
    obtain hm | hm := List.mem_append.mp hm
    · exact hn.fetched p data hm
    · obtain ⟨packet, hpacket, heq⟩ := List.mem_map.mp hm
      cases heq
      obtain ⟨d, hd, heq⟩ := mem_of_onPutFileInterest hreply hpacket
      rw [hn.session.client] at hd
      exact ⟨d, hd, heq⟩
  | node we => cases h

lemma PutInv.step (hn : PutInv lib c n) (hnumber : c.mCurrentSegmentNo.toNat = c.mData.length)
    (hapart : PathsApart lib sha1 c.mData) (hc : FetchersHandOver lib n e) (h : n.step lib e = some t) :
    PutInv lib c t := by
  obtain ⟨we, rfl⟩ | hclient := PutNet.step_cases h
  · exact hn.node_step hapart hc h
  · exact hn.client_step hnumber hclient

end ClientSteps

/-! ### A file that was put -/

/-- A client that has cut its file and has not yet asked for anything, and a node that has seen
nothing yet. -/
def putStart (c : PutClient L) (nodePrefix : Option (List String)) (keySpace : KeySpaceHandle)
    (settings : WriteHandle L) (store : DataStore L sha1) : PutNet L sha1 where
  session := { client := c, mNodePrefix := nodePrefix }
  node := writeStart keySpace settings store

variable {nodePrefix : Option (List String)} {keySpace : KeySpaceHandle} {settings : WriteHandle L}
  {es : List (PutEvent L)}

lemma putInv_start (hfull : NoFullNames lib c.mData store) :
    PutInv lib c (putStart c nodePrefix keySpace settings store) := by
  refine ⟨⟨rfl, ?_, ?_, ?_⟩, hfull, ?_, ?_, ?_, ?_, ?_, ?_, ?_⟩
  · intro p hm
    cases hm
  · rintro (hscheduled | ⟨p, hm⟩)
    · cases hscheduled
    · cases hm
  · intro hcompleted
    cases hcompleted
  · intro p data hm
    cases hm
  · intro p process hp
    cases hp
  · intro response hm
    cases hm
  · intro p response hm
    cases hm
  · intro p _
    rfl
  · intro p hobject
    cases hobject
  · intro _ p process hp
    cases hp

theorem putInv_of_run (hnumber : c.mCurrentSegmentNo.toNat = c.mData.length) (hapart : PathsApart lib sha1 c.mData)
    (hfull : NoFullNames lib c.mData store)
    (hmeets : Meets (PutNet.step lib) (FetchersHandOver lib) (putStart c nodePrefix keySpace settings store) es)
    (hrun : run (PutNet.step lib) (putStart c nodePrefix keySpace settings store) es = some t) : PutInv lib c t :=
  run_invariant (I := PutInv lib c) (fun _ _ _ hn hc h => hn.step hnumber hapart hc h) (putInv_start hfull) hmeets hrun

end Stored

end Difs
