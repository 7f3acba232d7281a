import Difs.Insert.Keys
import Difs.Lib.Exchange

/-!
# Inserts in a cluster

The write and manifest handles of the nodes and the clients of the objects, as parties of an
exchange. A node is addressed by the URI of its repo, a client by the URI of its object. A
node numbers the insert commands in the order in which it receives them; what it has received
and answered is read by no handler.
-/

namespace Difs

open Exchange WriteHandle

structure Answer (L : NameLibrary) where
  interest : ℕ
  parameter : RepoCommandParameter L
  response : RepoCommandResponse
deriving DecidableEq

/-- `creates` has the InsertNum of the processes of the manifest handle. Ids and times are
drawn one by one. -/
structure InsertNode (L : NameLibrary) (sha1 : String → String) where
  keySpace : KeySpaceHandle
  write : WriteHandle L
  creates : UInt64 → Option UInt64 := fun _ => none
  manifests : ManifestStore sha1
  objects : L.Name → ℤ := fun _ => 0
  random : ℕ → UInt64
  clock : ℕ → ℕ := fun _ => 0
  draws : ℕ := 0
  live : Bool := true
  received : List (RepoCommandParameter L) := []
  answers : List (Answer L) := []

inductive InsertInterest (L : NameLibrary) where
  | write (interest : WriteInterest L)
  | writeInfo (repo hash : String) (processId : UInt64)
deriving DecidableEq

inductive InsertContent where
  | empty
  | status (code : ℕ)
  | manifest (json : ManifestJson)
  | info (json : InfoJson)
deriving DecidableEq, Repr

/-- `expire` is the deferred deletion of a process of the manifest handle. -/
inductive InsertCommand (L : NameLibrary) where
  | insert (parameter : RepoCommandParameter L)
  | expire (processId : UInt64)
deriving DecidableEq

namespace InsertNode

variable {L : NameLibrary} {sha1 : String → String}

abbrev Result (L : NameLibrary) (sha1 : String → String) :=
  Reaction (InsertNode L sha1) (InsertInterest L) InsertContent

def afterWrite (s : InsertNode L sha1) (o : WriteOutcome L) : InsertNode L sha1 :=
  { s with write := o.handle, live := !o.threw, draws := s.draws + 1 }

def onCommand (s : InsertNode L sha1) : InsertCommand L → Result L sha1
  | .insert parameter =>
    let o := s.write.handleInsertCommand sha1 s.keySpace s.received.length parameter
    { node := { s.afterWrite o with received := s.received ++ [parameter] }, sent := o.sent.map .write }
  | .expire processId => { node := { s with creates := Function.update s.creates processId none } }

/-- `ManifestHandle::handleFindCommand`. -/
def handleFindCommand (s : InsertNode L sha1) (hash : String) : Result L sha1 :=
  match s.manifests.readManifest hash with
  | .error _ => { node := { s with live := false } }
  | .ok none => { node := s, reply := some .empty }
  | .ok (some m) => { node := s, reply := some (.manifest (m.toJson sha1)) }

/-- `ManifestHandle::handleCreateCommand`. -/
def handleCreateCommand (s : InsertNode L sha1) (hash clusterPrefix : String) (processId : UInt64) : Result L sha1 :=
  { node := { s with creates := Function.update s.creates processId (some ((s.creates processId).getD 0)) }
    sent := [.writeInfo (clusterPrefix ++ "/" ++ s.write.mClusterPrefix) hash processId]
    reply := some (.status 200) }

/-- `ManifestHandle::onDataValidated`. -/
def onInfoValidated (s : InsertNode L sha1) (content : InsertContent) (processId : UInt64) : Result L sha1 :=
  match s.creates processId with
  | none => { node := s }
  | some insertNum =>
    if insertNum = 0 then
      match content with
      | .manifest json =>
        match hm : Manifest.fromJson json with
        | none => { node := { s with live := false } }
        | some m =>
          { node := { s with manifests := s.manifests.insertManifest m (Manifest.mHash_of_fromJson hm)
                             creates := Function.update s.creates processId (some 1) } }
      | _ => { node := { s with live := false } }
    else { node := s }

def onRequest (s : InsertNode L sha1) : InsertInterest L → Result L sha1
  | .write (.find _ hash _ _ _ _) => s.handleFindCommand hash
  | .write (.object name _ _ _) => { node := s, reply := some (.info (putFileSendManifest sha1 name (s.objects name))) }
  | .write (.create _ hash clusterPrefix _ processId) => s.handleCreateCommand hash clusterPrefix processId
  | .writeInfo _ _ processId =>
    let o := s.write.handleInfoCommand sha1 processId
    { node := s.afterWrite o, reply := o.reply.map .manifest }

/-- `onFindResponse` draws the id of the process that it starts. -/
def onFindResponse (s : InsertNode L sha1) (content : InsertContent) (interest : ℕ)
    (parameter : RepoCommandParameter L) : Result L sha1 :=
  let o := s.write.onFindResponse (content ≠ .empty) parameter (s.random s.draws) (s.clock s.draws)
  { node := { s.afterWrite o with
      answers := s.answers ++ o.done.toList.map (fun response => ⟨interest, parameter, response⟩) }
    sent := o.sent.map .write }

def onResponse (s : InsertNode L sha1) : InsertInterest L → InsertContent → Result L sha1
  | .write (.find _ _ _ _ interest parameter), content => s.onFindResponse content interest parameter
  | .write (.object _ nodePrefix _ processId), content =>
    let json := match content with
      | .info json => some json
      | _ => none
    let o := s.write.onDataValidated sha1 s.keySpace nodePrefix json processId (s.clock s.draws)
    { node := s.afterWrite o, sent := o.sent.map .write }
  | .write (.create _ _ _ _ _), _ => { node := s }
  | .writeInfo _ _ processId, content => s.onInfoValidated content processId

/-- A find that is not answered leaves its command unanswered. -/
def onTimeout (s : InsertNode L sha1) : InsertInterest L → Result L sha1
  | .write (.find _ _ _ _ _ _) => { node := s }
  | .write (.object _ _ _ processId) => { node := s.afterWrite (s.write.onTimeout processId) }
  | .write (.create _ _ _ _ _) => { node := s }
  | .writeInfo _ _ processId => { node := { s with creates := Function.update s.creates processId none } }

end InsertNode

def InsertInterest.destination {L : NameLibrary} : InsertInterest L → String
  | .write (.find repo _ _ _ _ _) => repo
  | .write (.object name _ _ _) => L.uri name
  | .write (.create manifestRepo _ _ _ _) => manifestRepo
  | .writeInfo repo _ _ => repo

def insertNetwork (L : NameLibrary) (sha1 : String → String) :
    Protocol String (InsertNode L sha1) (InsertInterest L) InsertContent (InsertCommand L) where
  dest := InsertInterest.destination
  live := InsertNode.live
  onInput := InsertNode.onCommand
  onRequest := InsertNode.onRequest
  onResponse := InsertNode.onResponse
  onTimeout := InsertNode.onTimeout

abbrev InsertNet (L : NameLibrary) (sha1 : String → String) :=
  Net String (InsertNode L sha1) (InsertInterest L) InsertContent

abbrev InsertEvent (L : NameLibrary) := Event String (InsertInterest L) InsertContent (InsertCommand L)

end Difs
