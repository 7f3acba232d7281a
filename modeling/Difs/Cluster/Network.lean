import Difs.KeySpace.Handle
import Difs.Lib.Exchange
import Difs.Manifest

/-!
# The cluster

The nodes of a cluster as parties of an exchange of Interests and Data. A node is its
key-space handle, its manifest store, and a log of what its handlers did that no handler
reads. An exception that escapes from a handler ends the process.
-/

namespace Difs

open Exchange

inductive Content where
  | empty
  | status (code : ℕ)
  | keySpaces (file : KeySpaceFile)
  | manifestList (keys : List String)
  | manifest (json : ManifestJson)
deriving DecidableEq, Repr

inductive Record where
  | published (version : String) (file : KeySpaceFile)
  | joined (fromName toName : String)
  | fetched (fromName toName : String)
  | installed (version : String)
  | coordinated (fromName : String)
  | found (hash : String)
deriving DecidableEq, Repr

structure Node (sha1 : String → String) where
  handle : KeySpaceHandle
  manifests : ManifestStore sha1
  live : Bool := true
  log : List Record := []

inductive Command where
  | addNode (fromName toName : String)
  | delNode (fromName toName : String) (unassigned : ℤ × ℤ)
deriving DecidableEq, Repr

namespace Node

variable {sha1 : String → String}

def after (s : Node sha1) (o : Outcome) (records : List Record) : Node sha1 :=
  { s with handle := o.handle, live := !o.threw, log := s.log ++ records }

/-- A membership command that was applied has published a version. -/
def publication (h : KeySpaceHandle) (o : Outcome) : List Record :=
  match o.handle.mKeySpaceFile with
  | some file => if o.handle.mVersionNum = h.mVersionNum then [] else [.published o.handle.mVersion file]
  | none => []

def onCommand (s : Node sha1) : Command → Reaction (Node sha1) Interest Content
  | .addNode fromName toName =>
    let o := s.handle.handleAddCommand fromName toName
    let records := publication s.handle o
    { node := s.after o (if records = [] then [] else .joined fromName toName :: records), sent := o.sent }
  | .delNode fromName toName unassigned =>
    let o := s.handle.handleDeleteCommand fromName toName unassigned
    { node := s.after o (publication s.handle o), sent := o.sent }

/-- `ManifestHandle::handleFindCommand`. -/
def handleFindCommand (s : Node sha1) (hash : String) : Reaction (Node sha1) Interest Content :=
  match s.manifests.readManifest hash with
  | .error _ => { node := { s with live := false } }
  | .ok none => { node := s, reply := some .empty }
  | .ok (some m) => { node := s, reply := some (.manifest (m.toJson sha1)) }

/-- `DeleteHandle::handleOnlyDeleteManifestCommand`. -/
def handleOnlyDeleteManifestCommand (s : Node sha1) (hash : String) : Reaction (Node sha1) Interest Content :=
  match s.manifests.readManifest hash with
  | .error _ => { node := { s with live := false } }
  | .ok none => { node := s, reply := some (.status 405) }
  | .ok (some _) => { node := { s with manifests := s.manifests.eraseManifest hash }, reply := some .empty }

/-- `KeySpaceHandle::onManifestCommandResponse`: an empty reply is no JSON. -/
def onManifestCommandResponse (s : Node sha1) (hash : String) (content : Content) :
    Reaction (Node sha1) Interest Content :=
  match content with
  | .manifest json =>
    match hm : Manifest.fromJson json with
    | none => { node := { s with live := false } }
    | some m => { node := { s with manifests := s.manifests.insertManifest m (Manifest.mHash_of_fromJson hm)
                                   log := s.log ++ [.found hash] } }
  | _ => { node := { s with live := false } }

def onInterest (s : Node sha1) : Interest → Reaction (Node sha1) Interest Content
  | .ver _ version =>
    let o := s.handle.handleVersionCommand version
    { node := s.after o [], sent := o.sent, reply := some (.status 200) }
  | .fetch _ version =>
    let (content, o) := s.handle.handleFetchCommand version
    { node := s.after o [.fetched s.handle.mFrom s.handle.mTo], sent := o.sent
      reply := some ((content.map Content.keySpaces).getD .empty) }
  | .coordination _ fromName =>
    let o := s.handle.handleCoordinationCommand (some fromName)
    { node := s.after o [.coordinated fromName], sent := o.sent, reply := some (.status 200) }
  | .manifestlist _ => { node := s, reply := some (.manifestList s.manifests.readManifests) }
  | .find _ hash => s.handleFindCommand hash
  | .complete _ => { node := s, reply := some (.status 200) }
  | .onlyDeleteManifest _ hash => s.handleOnlyDeleteManifestCommand hash

/-- The responses to the other Interests are only logged. -/
def onData (s : Node sha1) : Interest → Content → Reaction (Node sha1) Interest Content
  | .fetch _ version, .keySpaces file =>
    let o := s.handle.onFetchCommandResponse version (some file)
    { node := s.after o [.installed version], sent := o.sent }
  | .manifestlist _, .manifestList keys =>
    let o := s.handle.onManifestListCommandResponse (some keys)
    { node := s.after o [], sent := o.sent }
  | .find _ hash, content => s.onManifestCommandResponse hash content
  | .complete _, _ =>
    let o := s.handle.onCompleteCommandResponse
    { node := s.after o [], sent := o.sent }
  | _, _ => { node := s }

def onTimeout (s : Node sha1) : Interest → Reaction (Node sha1) Interest Content
  | .ver _ _ =>
    let o := s.handle.onVersionCommandTimeout
    { node := s.after o [], sent := o.sent }
  | .fetch _ version =>
    let o := s.handle.onFetchCommandTimeout version
    { node := s.after o [], sent := o.sent }
  | .coordination _ _ =>
    let o := s.handle.onCoordinationCommandTimeout
    { node := s.after o [], sent := o.sent }
  | .manifestlist _ =>
    let o := s.handle.onManifestListCommandTimeout
    { node := s.after o [], sent := o.sent }
  | .find _ _ => { node := s }
  | .complete _ => { node := s }
  | .onlyDeleteManifest _ _ => { node := s }

end Node

def Interest.destination : Interest → String
  | .ver nodeName _ => nodeName
  | .fetch managerPrefix _ => managerPrefix
  | .coordination toName _ => toName
  | .manifestlist fromName => fromName
  | .find fromName _ => fromName
  | .complete managerPrefix => managerPrefix
  | .onlyDeleteManifest fromName _ => fromName

def cluster (sha1 : String → String) : Protocol String (Node sha1) Interest Content Command where
  dest := Interest.destination
  live := Node.live
  onInput := Node.onCommand
  onRequest := Node.onInterest
  onResponse := Node.onData
  onTimeout := Node.onTimeout

abbrev Cluster (sha1 : String → String) := Net String (Node sha1) Interest Content

abbrev ClusterEvent := Event String Interest Content Command

end Difs
