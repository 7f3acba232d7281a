import Difs.DataStore
import Difs.KeySpace.Handle
import Difs.Manifest

/-!
# The write handle

Insert commands, their processes and the segments that arrive for them. Random process ids
and the readings of the clock are arguments of the handlers; what a handler asks the network,
the scheduler and the fetcher for is in its outcome.
-/

namespace Difs

/-- A field that is absent keeps the value its storage happens to have. -/
structure RepoCommandParameter (L : NameLibrary) where
  name : L.Name
  nodePrefix : Option (List String) := none
  hasStartBlockId : Bool := false
  startBlockId : UInt64 := 0
  hasEndBlockId : Bool := false
  endBlockId : UInt64 := 0
  processId : UInt64 := 0
  hasInterestLifetime : Bool := false
  interestLifetime : ℕ := 0
deriving DecidableEq

/-- The numbers of a response in the process map are zero until they are set. -/
structure RepoCommandResponse where
  code : ℕ := 0
  text : String := ""
  processId : Option UInt64 := none
  startBlockId : Option UInt64 := none
  endBlockId : Option UInt64 := none
  insertNum : Option UInt64 := none
deriving DecidableEq, Repr

namespace RepoCommandResponse

def getStartBlockId (r : RepoCommandResponse) : UInt64 := r.startBlockId.getD 0

def getEndBlockId (r : RepoCommandResponse) : UInt64 := r.endBlockId.getD 0

def getInsertNum (r : RepoCommandResponse) : UInt64 := r.insertNum.getD 0

def countInsert (r : RepoCommandResponse) (inserted : Bool) : RepoCommandResponse :=
  if inserted then { r with insertNum := some (r.getInsertNum + 1) } else r

end RepoCommandResponse

structure ProcessInfo (L : NameLibrary) where
  response : RepoCommandResponse := {}
  noEndTime : ℕ := 0
  repo : String := ""
  name : L.Name := []
  startBlockId : ℤ := 0
  endBlockId : ℤ := 0
  manifest : Option Manifest := none
  manifestSent : Bool := false

/-- The Interests of an insert, with what their callbacks are bound to. -/
inductive WriteInterest (L : NameLibrary) where
  | find (repo hash : String) (processId : UInt64) (lifetime : ℕ) (origInterest : ℕ)
      (parameter : RepoCommandParameter L)
  | object (name : L.Name) (nodePrefix : Option (List String)) (lifetime : ℕ) (processId : UInt64)
  | create (manifestRepo hash clusterPrefix : String) (lifetime : ℕ) (processId : UInt64)
deriving DecidableEq

structure SegmentFetch (L : NameLibrary) where
  name : L.Name
  nodePrefix : Option (List String)
  initCwnd : UInt64
  interestLifetime : ℕ
  processId : UInt64

structure WriteHandle (L : NameLibrary) where
  mProcesses : UInt64 → Option (ProcessInfo L) := fun _ => none
  mCredit : UInt64 := 12
  mNoEndTimeout : ℕ := 10000
  mInterestLifetime : ℕ := 4000
  mClusterNodePrefix : String
  mClusterPrefix : String
  mRepoPrefix : String

structure WriteOutcome (L : NameLibrary) where
  handle : WriteHandle L
  sent : List (WriteInterest L) := []
  done : Option RepoCommandResponse := none
  fetchers : List (SegmentFetch L) := []
  deferred : List UInt64 := []
  stopped : Bool := false
  reply : Option ManifestJson := none
  threw : Bool := false

/-- The conversion of a `uint64_t` to an `int`. -/
def toInt (n : UInt64) : ℤ := (n.toNat : ℤ).bmod (2 ^ 32)

namespace WriteHandle

variable {L : NameLibrary} (sha1 : String → String)

/-- `m_processes[processId]`, which makes a process where there is none. -/
def process (h : WriteHandle L) (processId : UInt64) : ProcessInfo L := (h.mProcesses processId).getD {}

def setProcess (h : WriteHandle L) (processId : UInt64) (process : ProcessInfo L) : WriteHandle L :=
  { h with mProcesses := Function.update h.mProcesses processId (some process) }

def deleteProcess (h : WriteHandle L) (processId : UInt64) : WriteHandle L :=
  { h with mProcesses := Function.update h.mProcesses processId none }

def negativeReply (text : String) (statusCode : ℕ) : RepoCommandResponse := { code := statusCode, text := text }

/-! ### Insert commands -/

def checkedText (difsKey : L.Component) : String := "/" ++ L.componentUri difsKey

def handleInsertCommand (h : WriteHandle L) (keySpace : KeySpaceHandle) (interest : ℕ)
    (repoParameter : RepoCommandParameter L) : WriteOutcome L :=
  match repoParameter.name.getLast? with
  | none => { handle := h, threw := true }
  | some difsKey =>
    let hash := sha1 (checkedText difsKey)
    match keySpace.getManifestStorage hash with
    | none => { handle := h, threw := true }
    | some repo =>
      { handle := h
        sent := [.find repo hash repoParameter.processId h.mInterestLifetime interest repoParameter] }

def segInit (h : WriteHandle L) (processId : UInt64) (parameter : RepoCommandParameter L) (now : ℕ) :
    WriteOutcome L :=
  let process := h.process processId
  let initialCredit := if parameter.hasEndBlockId then
    min h.mCredit (parameter.endBlockId - parameter.startBlockId + 1) else h.mCredit
  let process := if parameter.hasEndBlockId then { process with endBlockId := toInt parameter.endBlockId }
    else { process with noEndTime := now + h.mNoEndTimeout }
  { handle := h.setProcess processId process
    fetchers := [⟨L.appendSegment parameter.name parameter.startBlockId, parameter.nodePrefix, initialCredit,
      h.mInterestLifetime, processId⟩] }

def processSingleInsertCommand (h : WriteHandle L) (parameter : RepoCommandParameter L) (processId : UInt64) :
    WriteOutcome L :=
  let process := h.process processId
  let response := { process.response with code := 100, processId := some processId, insertNum := some 0 }
  { handle := h.setProcess processId { process with response := { response with code := 300 } }
    sent := [.object parameter.name parameter.nodePrefix h.mInterestLifetime processId]
    done := some response }

def processSegmentedInsertCommand (h : WriteHandle L) (parameter : RepoCommandParameter L) (processId : UInt64)
    (now : ℕ) : WriteOutcome L :=
  let process := h.process processId
  if parameter.hasEndBlockId then
    let startBlockId := if parameter.hasStartBlockId then parameter.startBlockId else 0
    let endBlockId := parameter.endBlockId
    if startBlockId > endBlockId then { handle := h, done := some (negativeReply "Malformed Command" 403) }
    else
      let response := { process.response with
        code := 100, processId := some processId, insertNum := some 0
        startBlockId := some startBlockId, endBlockId := some endBlockId }
      { (h.setProcess processId { process with response := { response with code := 300 } }).segInit
          processId parameter now with done := some response }
  else
    let response := { process.response with
      code := 100, processId := some processId, insertNum := some 0
      startBlockId := some parameter.startBlockId }
    { (h.setProcess processId { process with response := { response with code := 300 } }).segInit
        processId parameter now with done := some response }

/-- `found` says that the reply to the find has content. -/
def onFindResponse (h : WriteHandle L) (found : Bool) (repoParameter : RepoCommandParameter L) (processId : UInt64)
    (now : ℕ) : WriteOutcome L :=
  if found then { handle := h, done := some (negativeReply "Manifest already exists" 403) }
  else
    let o := if repoParameter.hasStartBlockId || repoParameter.hasEndBlockId then
      h.processSegmentedInsertCommand repoParameter processId now
      else h.processSingleInsertCommand repoParameter processId
    if repoParameter.hasInterestLifetime then
      { o with handle := { o.handle with mInterestLifetime := repoParameter.interestLifetime } }
    else o

/-! ### The manifest -/

/-- What follows the last slash, with the position kept in an `unsigned int`. -/
def afterLastSlash (name : String) : String := substr name ((rfind name '/' % 2 ^ 32 + 1) % 2 ^ 32)

def newManifest (process : ProcessInfo L) : Manifest :=
  let manifest : Manifest :=
    { mName := L.uri process.name, mStartBlockId := process.startBlockId, mEndBlockId := process.endBlockId }
  manifest.appendRepo process.repo process.startBlockId process.endBlockId

def writeManifest (h : WriteHandle L) (keySpace : KeySpaceHandle) (processId : UInt64) : WriteOutcome L :=
  let process := h.process processId
  let manifest := newManifest process
  let hash := manifest.getHash sha1
  let h := h.setProcess processId { process with manifest := some manifest }
  match keySpace.getManifestStorage hash with
  | none => { handle := h, threw := true }
  | some manifestRepo =>
    { handle := h, sent := [.create manifestRepo hash h.mClusterNodePrefix h.mInterestLifetime processId] }

/-- The process of an object that its client has announced. -/
def announced (process : ProcessInfo L) (repo : String) (manifest : Manifest) : ProcessInfo L :=
  { process with
    startBlockId := manifest.mStartBlockId
    endBlockId := manifest.mEndBlockId
    name := L.ofUri (afterLastSlash manifest.mName)
    repo := repo }

/-- The reply of the client to the Interest for the object; `none` is content that is no such
JSON. -/
def onDataValidated (h : WriteHandle L) (keySpace : KeySpaceHandle) (nodePrefix : Option (List String))
    (json : Option InfoJson) (processId : UInt64) (now : ℕ) : WriteOutcome L :=
  match h.mProcesses processId with
  | none => { handle := h }
  | some process =>
    match json with
    | none => { handle := h, threw := true }
    | some json =>
      let manifest := Manifest.fromInfoJson json
      let process := announced process h.mRepoPrefix manifest
      let o := if process.manifestSent then { handle := h.setProcess processId process }
        else (h.setProcess processId { process with manifestSent := true }).writeManifest sha1 keySpace processId
      if o.threw then o
      else
        let parameter : RepoCommandParameter L :=
          { name := L.ofUri manifest.mName, nodePrefix := nodePrefix, hasStartBlockId := true }
        { o.handle.segInit processId parameter now with sent := o.sent }

/-- `m_processes[processId].manifest` is dereferenced whether it is set or not. -/
def handleInfoCommand (h : WriteHandle L) (processId : UInt64) : WriteOutcome L :=
  match h.mProcesses processId with
  | none => { handle := h }
  | some process =>
    match process.manifest with
    | none => { handle := h, threw := true }
    | some manifest => { handle := h, reply := some (manifest.toJson sha1) }

def onTimeout (h : WriteHandle L) (processId : UInt64) : WriteOutcome L := { handle := h.deleteProcess processId }

/-! ### Segments -/

variable {sha1}

def onSegmentData (h : WriteHandle L) (store : DataStore L sha1) (data : Data L) (processId : UInt64) (now : ℕ) :
    WriteOutcome L × DataStore L sha1 :=
  match h.mProcesses processId with
  | none => ({ handle := h, stopped := true }, store)
  | some process =>
    let (store, inserted) := store.insertData data
    let response := process.response.countInsert inserted
    if response.endBlockId.isNone then
      if now > process.noEndTime then
        ({ handle := h.setProcess processId { process with response := { response with code := 405 } }
           deferred := [processId], stopped := true }, store)
      else ({ handle := h.setProcess processId { process with response := response } }, store)
    else
      let process := { process with response := response, endBlockId := toInt response.getEndBlockId }
      let nSegments := response.getEndBlockId - response.getStartBlockId + 1
      if response.getInsertNum ≥ nSegments then
        ({ handle := h.setProcess processId { process with response := { response with code := 200 } }
           deferred := [processId], stopped := true }, store)
      else ({ handle := h.setProcess processId process }, store)

def onSegmentTimeout (h : WriteHandle L) (processId : UInt64) : WriteOutcome L :=
  { handle := h, stopped := (h.mProcesses processId).isNone }

def extendNoEndTime (h : WriteHandle L) (process : ProcessInfo L) (now : ℕ) : ProcessInfo L :=
  if now > process.noEndTime then { process with response := { process.response with code := 405 } }
  else { process with noEndTime := now + h.mNoEndTimeout }

def handleCheckCommand (h : WriteHandle L) (processId : UInt64) (now : ℕ) : WriteOutcome L :=
  match h.mProcesses processId with
  | none => { handle := h, done := some (negativeReply "No such this process is in progress" 404) }
  | some process =>
    if process.response.endBlockId.isNone then
      let process := h.extendNoEndTime process now
      { handle := h.setProcess processId process, done := some process.response }
    else { handle := h, done := some process.response }

end WriteHandle

end Difs
