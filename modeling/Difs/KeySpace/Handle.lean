import Difs.Lib.HexText

/-!
# The key-space handle

The handlers of `KeySpaceHandle`, as functions from the object to the object they leave and
the Interests they express. A key-space file is the list of its entries: `write_json` and
`read_json` are inverse on such files. An Interest carries the prefix it is sent to, with
names of nodes standing for the `Name` they parse to.
-/

namespace Difs

open HexText

structure KeySpaceNode where
  node : String
  startText : String
  endText : String
deriving DecidableEq, Repr

abbrev KeySpaceFile := List KeySpaceNode

inductive Interest where
  | ver (nodeName version : String)
  | fetch (managerPrefix versionNum : String)
  | coordination (toName fromName : String)
  | manifestlist (fromName : String)
  | find (fromName hash : String)
  | complete (managerPrefix : String)
  | onlyDeleteManifest (fromName hash : String)
deriving DecidableEq, Repr

/-- The members of `KeySpaceHandle`. An empty text is `none`. The range has no initial value:
`mStart` and `mEnd` are whatever they are until `rangeAssigned`. -/
structure KeySpaceHandle where
  mRepoPrefix : String
  mManagerPrefix : String
  mVersionNum : UInt64 := 0
  mVersion : String := ""
  mKeySpaceFile : Option KeySpaceFile := none
  mFrom : String := ""
  mTo : String := ""
  mStart : ℤ
  mEnd : ℤ
  rangeAssigned : Bool := false
  mManifestList : Option (List String) := none
deriving DecidableEq, Repr

/-- What a handler leaves behind; `threw` when an exception escapes from it. -/
structure Outcome where
  handle : KeySpaceHandle
  sent : List Interest := []
  threw : Bool := false
deriving DecidableEq, Repr

/-- The values a loop `for (; start <= end; start++)` visits. -/
def rangeValues (start stop : ℤ) : List ℤ :=
  (List.range (stop + 1 - start).toNat).map (fun i : ℕ => start + (i : ℤ))

/-- `!strncmp(text, pre, pre.length())`. -/
def startsWith (text pre : String) : Bool :=
  pre.toList.isPrefixOf text.toList

/-- `str(boost::format("%02x") % text)` for a string argument. -/
def formatPadded (text : String) : String :=
  String.ofList (text.toList.leftpad 2 '0')

/-! ### Loops over the entries of a file -/

/-- The second loop of `handleDeleteCommand`. `stream` is never cleared, so a second entry
of `toName` gets the text of the first one in front of its own. -/
def takeOver (toName : String) (fromStart fromEnd : ℤ) : String → KeySpaceFile → Option KeySpaceFile
  | _, [] => some []
  | stream, it :: rest =>
    if it.node = toName then
      match stoi16 it.startText with
      | none => none
      | some toStart =>
        if fromEnd < toStart then
          let stream := stream ++ ("0x" ++ hexOfInt fromStart)
          (takeOver toName fromStart fromEnd stream rest).map ({ it with startText := stream } :: ·)
        else
          let stream := stream ++ ("0x" ++ hexOfInt fromEnd)
          (takeOver toName fromStart fromEnd stream rest).map ({ it with endText := stream } :: ·)
    else (takeOver toName fromStart fromEnd stream rest).map (it :: ·)

/-- The bounds of the leaving entry, or what `fromStart` and `fromEnd` hold when no branch
assigned them. -/
def leavingRange (keySpaces : KeySpaceFile) (fromName : String) (unassigned : ℤ × ℤ) : Option (ℤ × ℤ) :=
  match keySpaces.find? (fun node => node.node = fromName) with
  | none => some unassigned
  | some node =>
    match stoi16 node.startText, stoi16 node.endText with
    | some fromStart, some fromEnd => some (fromStart, fromEnd)
    | _, _ => none

/-- The node whose range has a value that the hash starts with; the empty name when there is
none, and `none` when a bound does not parse. -/
def findStorage (hash : String) : KeySpaceFile → Option String
  | [] => some ""
  | node :: rest =>
    match stoi16 node.startText, stoi16 node.endText with
    | some start, some stop =>
      if (rangeValues start stop).any (fun v => startsWith hash (formatPadded (hexOfInt v))) then
        some node.node
      else findStorage hash rest
    | _, _ => none

namespace KeySpaceHandle

/-- `m_version = "v" + std::to_string(m_versionNum++)`. -/
def nextVersion (h : KeySpaceHandle) : KeySpaceHandle :=
  { h with mVersion := "v" ++ toString h.mVersionNum.toNat, mVersionNum := h.mVersionNum + 1 }

def initKeySpaceFile (h : KeySpaceHandle) : KeySpaceHandle :=
  { h with mKeySpaceFile := some [⟨h.mRepoPrefix, "0x00", "0xff"⟩] }.nextVersion

/-- The constructor; `unset` is what the range holds before an assignment. -/
def create (repoPrefix managerPrefix clusterType fromName : String) (unset : ℤ × ℤ) : KeySpaceHandle :=
  let h : KeySpaceHandle :=
    { mRepoPrefix := repoPrefix, mManagerPrefix := managerPrefix, mFrom := fromName, mStart := unset.1
      mEnd := unset.2 }
  if clusterType = "manager" then h.initKeySpaceFile else h

/-! ### Versions -/

def onVersionCommand (h : KeySpaceHandle) : Outcome :=
  match h.mKeySpaceFile with
  | none => { handle := h, threw := true }
  | some keySpaces => { handle := h, sent := keySpaces.tail.map (fun it => .ver it.node h.mVersion) }

def onVersionCommandTimeout (h : KeySpaceHandle) : Outcome := h.onVersionCommand

def onFetchCommand (h : KeySpaceHandle) (versionNum : String) : Outcome :=
  { handle := h, sent := [.fetch h.mManagerPrefix versionNum] }

def handleVersionCommand (h : KeySpaceHandle) (version : String) : Outcome :=
  if version ≠ h.mVersion then h.onFetchCommand version else { handle := h }

def onCoordinationCommand (h : KeySpaceHandle) : Outcome :=
  { handle := h, sent := [.coordination h.mTo h.mFrom] }

def onCoordinationCommandTimeout (h : KeySpaceHandle) : Outcome := h.onCoordinationCommand

def fetchContent (h : KeySpaceHandle) (version : String) : Option KeySpaceFile :=
  if version = h.mVersion then h.mKeySpaceFile else none

/-- Every fetch, answered with a file or not, also sends a coordination command. -/
def handleFetchCommand (h : KeySpaceHandle) (version : String) : Option KeySpaceFile × Outcome :=
  (h.fetchContent version, h.onCoordinationCommand)

def onFetchCommandTimeout (h : KeySpaceHandle) (versionNum : String) : Outcome :=
  h.onFetchCommand versionNum

def assignRange (h : KeySpaceHandle) (node : KeySpaceNode) : Outcome :=
  match stoi16 node.startText with
  | none => { handle := h, threw := true }
  | some start =>
    match stoi16 node.endText with
    | none => { handle := { h with mStart := start }, threw := true }
    | some stop => { handle := { h with mStart := start, mEnd := stop, rangeAssigned := true } }

def onFetchCommandResponse (h : KeySpaceHandle) (version : String) (content : Option KeySpaceFile) :
    Outcome :=
  match content with
  | none => { handle := h }
  | some keySpaces =>
    let h := { h with mVersion := version, mKeySpaceFile := some keySpaces }
    match keySpaces.find? (fun node => node.node = h.mRepoPrefix) with
    | none => { handle := h }
    | some node => h.assignRange node

/-! ### Membership -/

/-- The entry of `fromName` gives its upper half to a new entry at the end. -/
def handleAddCommand (h : KeySpaceHandle) (fromName toName : String) : Outcome :=
  let h := { h with mFrom := fromName, mTo := toName }
  match h.mKeySpaceFile with
  | none => { handle := h, threw := true }
  | some keySpaces =>
    match keySpaces.find? (fun it => it.node = fromName) with
    | none => { handle := h }
    | some it =>
      match stoi16 it.startText, stoi16 it.endText with
      | some start, some stop =>
        let hashSize := (stop - start).tdiv 2
        let fromStart := stop - hashSize
        let fromEnd := stop
        let keySpaces := keySpaces.replaceF (fun it =>
          if it.node = fromName then some { it with endText := "0x" ++ hexOfInt (fromStart - 1) } else none)
        let newNode := ⟨toName, "0x" ++ hexOfInt fromStart, "0x" ++ hexOfInt fromEnd⟩
        { h with mKeySpaceFile := some (keySpaces ++ [newNode]) }.nextVersion.onVersionCommand
      | _, _ => { handle := h, threw := true }

def handleDeleteCommand (h : KeySpaceHandle) (fromName toName : String) (unassigned : ℤ × ℤ) : Outcome :=
  let h := { h with mFrom := fromName, mTo := toName }
  match h.mKeySpaceFile with
  | none => { handle := h, threw := true }
  | some keySpaces =>
    match leavingRange keySpaces fromName unassigned with
    | none => { handle := h, threw := true }
    | some (fromStart, fromEnd) =>
      match takeOver toName fromStart fromEnd "" (keySpaces.eraseP (fun node => node.node = fromName)) with
      | none => { handle := h, threw := true }
      | some keySpaces => { h with mKeySpaceFile := some keySpaces }.nextVersion.onVersionCommand

/-! ### Routing -/

def getManifestStorage (h : KeySpaceHandle) (hash : String) : Option String :=
  h.mKeySpaceFile.bind (findStorage hash)

/-! ### Migration -/

def onManifestListCommand (h : KeySpaceHandle) : Outcome :=
  { handle := h, sent := [.manifestlist h.mFrom] }

def onManifestListCommandTimeout (h : KeySpaceHandle) : Outcome := h.onManifestListCommand

def handleCoordinationCommand (h : KeySpaceHandle) (fromName : Option String) : Outcome :=
  match fromName with
  | some fromName => { h with mFrom := fromName }.onManifestListCommand
  | none => h.onManifestListCommand

/-- The keys the two migration loops act on: a key once for every value of the local range
whose unpadded text it starts with. -/
def selectedKeys (h : KeySpaceHandle) (manifests : List String) : List String :=
  manifests.flatMap (fun manifestName =>
    ((rangeValues h.mStart h.mEnd).filter (fun v => startsWith manifestName (hexOfInt v))).map
      (fun _ => manifestName))

def onManifestCommand (h : KeySpaceHandle) (manifestName : String) : Interest :=
  .find h.mFrom manifestName

def onCompleteCommand (h : KeySpaceHandle) : Interest :=
  .complete h.mManagerPrefix

def onManifestListCommandResponse (h : KeySpaceHandle) (content : Option (List String)) : Outcome :=
  match content with
  | none => { handle := h }
  | some manifests =>
    let h := { h with mManifestList := some manifests }
    { handle := h, sent := (h.selectedKeys manifests).map h.onManifestCommand ++ [h.onCompleteCommand] }

def onDeleteManifestCommand (h : KeySpaceHandle) (manifestName : String) : Interest :=
  .onlyDeleteManifest h.mFrom manifestName

def onCompleteCommandResponse (h : KeySpaceHandle) : Outcome :=
  match h.mManifestList with
  | none => { handle := h, threw := true }
  | some manifests => { handle := h, sent := (h.selectedKeys manifests).map h.onDeleteManifestCommand }

end KeySpaceHandle

end Difs
