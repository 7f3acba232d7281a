import Difs.Insert.Keys
import Difs.Lib.Threads

/-!
# The delete handle

A delete asks the node of the manifest to delete it, with a delete-manifest. That node asks the
storages of the manifest one by one to delete their blocks, with the storages left to ask in a
process, and deletes the manifest in the end. Both kinds of command share the process map: a
delete uses the process id of its client, a delete-manifest a random one.
-/

namespace Difs

open Threads

/-- An Interest received, with its number among the commands of the handle. -/
structure ReceivedInterest (L : NameLibrary) where
  number : ℕ
  name : L.Name
deriving DecidableEq

structure DeleteParameter (L : NameLibrary) where
  name : L.Name
  processId : Option UInt64
deriving DecidableEq

/-- The commands, with what the handlers read: the parameter, the key space, the manifests stored
at that time, and the random ids drawn. The dispatcher passes on a delete with name and id only. -/
inductive DeleteCommand (L : NameLibrary) (sha1 : String → String) where
  | delete (interest name : L.Name) (processId : UInt64) (keySpace : KeySpaceHandle)
  | deleteManifest (interest : L.Name) (parameter : DeleteParameter L) (manifests : ManifestStore sha1)
      (random newProcessId : UInt64)

/-- The Interests of a deletion, with what their callbacks are bound to. -/
inductive DeleteInterest (L : NameLibrary) where
  | deleteManifest (repo hash : String) (processId : UInt64) (lifetime : ℕ) (repoParameter : DeleteParameter L)
  | deleteData (repo : String) (name : L.Name) (startBlockId endBlockId newProcessId : UInt64) (lifetime : ℕ)
      (repoParameter : DeleteParameter L) (processId : UInt64)
deriving DecidableEq

def DeleteInterest.processId {L : NameLibrary} : DeleteInterest L → UInt64
  | .deleteManifest _ _ processId _ _ => processId
  | .deleteData _ _ _ _ _ _ _ processId => processId

/-- The code of a response, and the id drawn should the handler send another Interest. -/
structure DeleteAnswer where
  code : ℕ
  newProcessId : UInt64
deriving DecidableEq, Repr

/-- The body of a response is the encoding of its fields. -/
structure DeleteResponse where
  code : ℕ
  text : String
  processId : Option UInt64 := none
  deleteNum : Option ℕ := none
deriving DecidableEq, Repr

/-- The Interest whose name a Data packet gets. A process may hold no Interest yet. -/
inductive AnsweredInterest (L : NameLibrary) where
  | received (interest : Option (ReceivedInterest L))
  | outgoing (interest : DeleteInterest L)
deriving DecidableEq

inductive DeleteOutput (L : NameLibrary) where
  | done (response : DeleteResponse)
  | reply (interest : AnsweredInterest L) (response : DeleteResponse)
  | deleteManifest (hash : String)
deriving DecidableEq

structure DeleteHandle.ProcessInfo (L : NameLibrary) where
  interest : Option (ReceivedInterest L) := none
  repos : List Repo := []
  name : L.Name := []
  hash : String := ""

structure DeleteHandle (L : NameLibrary) where
  mProcesses : UInt64 → Option (DeleteHandle.ProcessInfo L) := fun _ => none
  mInterestLifetime : ℕ := 4000

/-- A handler that throws, or takes the front of an empty list, has no reaction. -/
abbrev DeleteReaction (L : NameLibrary) := Reaction (DeleteHandle L) (DeleteInterest L) (DeleteOutput L)

namespace DeleteHandle

variable {L : NameLibrary} {sha1 : String → String}

/-- `m_processes[processId]`, which makes a process where there is none. -/
def process (h : DeleteHandle L) (processId : UInt64) : ProcessInfo L := (h.mProcesses processId).getD {}

def setProcess (h : DeleteHandle L) (processId : UInt64) (process : ProcessInfo L) : DeleteHandle L :=
  { h with mProcesses := Function.update h.mProcesses processId (some process) }

def eraseProcess (h : DeleteHandle L) (processId : UInt64) : DeleteHandle L :=
  { h with mProcesses := Function.update h.mProcesses processId none }

def positiveReply (parameter : DeleteParameter L) (statusCode nDeletedData : ℕ) : DeleteResponse :=
  match parameter.processId with
  | some processId =>
    { code := statusCode, text := "Deletion Successful", processId := some processId, deleteNum := some nDeletedData }
  | none => { code := 403, text := "Malformed Command" }

def negativeReply (statusCode : ℕ) (text : String) : DeleteResponse := { code := statusCode, text := text }

def handleDeleteCommand (sha1 : String → String) (h : DeleteHandle L) (interest : ReceivedInterest L) (name : L.Name)
    (processId : UInt64) (keySpace : KeySpaceHandle) : Option (DeleteReaction L) :=
  let hash := sha1 (deleteText name)
  let h := h.setProcess processId { h.process processId with interest := some interest }
  (keySpace.getManifestStorage hash).map (fun repo =>
    { node := h, calls := [.deleteManifest repo hash processId h.mInterestLifetime ⟨name, some processId⟩] })

def onDeleteManifestCommandResponse (h : DeleteHandle L) (code : ℕ) (repoParameter : DeleteParameter L)
    (processId : UInt64) : DeleteReaction L where
  node := h.eraseProcess processId
  output := [.done (if code = 200 then positiveReply repoParameter 200 1 else negativeReply 404 "Manifest not found")]

/-- Bound to both Interests, for a nack as well. It replies to the Interest that it sent itself. -/
def onTimeout (h : DeleteHandle L) (interest : DeleteInterest L) (processId : UInt64) : DeleteReaction L where
  node := h.setProcess processId (h.process processId)
  output := [.reply (.outgoing interest) (negativeReply 405 "Deletion Failed")]

def deleteData (h : DeleteHandle L) (repoParameter : DeleteParameter L) (processId newProcessId : UInt64) :
    Option (DeleteReaction L) :=
  let process := h.process processId
  match process.repos with
  | [] => none
  | repo :: repos =>
    some { node := h.setProcess processId { process with repos := repos }
           calls := [.deleteData repo.name process.name (UInt64.ofInt repo.start) (UInt64.ofInt repo.stop)
             newProcessId h.mInterestLifetime repoParameter processId] }

/-- The URI of a hash has a slash in front. -/
def parameterHash (parameter : DeleteParameter L) : String := substr (L.uri parameter.name) 1

def handleDeleteManifestCommand (h : DeleteHandle L) (interest : ReceivedInterest L) (repoParameter : DeleteParameter L)
    (manifests : ManifestStore sha1) (random newProcessId : UInt64) : Option (DeleteReaction L) :=
  let hash := parameterHash repoParameter
  let process := { h.process random with interest := some interest }
  match manifests.readManifest hash with
  | .error _ => none
  | .ok none =>
    some { node := h.setProcess random process
           output := [.reply (.received (some interest)) (negativeReply 405 "Manifest not found")] }
  | .ok (some m) =>
    (h.setProcess random { process with repos := m.mRepos, name := L.ofUri m.mName, hash := hash }).deleteData
      repoParameter random newProcessId

def onDeleteDataCommandResponse (h : DeleteHandle L) (interest : DeleteInterest L) (answer : DeleteAnswer)
    (parameters : DeleteParameter L) (processId : UInt64) : Option (DeleteReaction L) :=
  let process := h.process processId
  let h := h.setProcess processId process
  if answer.code > 400 then
    some { node := h, output := [.reply (.outgoing interest) (negativeReply 405 "Delete data failed")] }
  else if process.repos.length = 0 then
    some { node := h.eraseProcess processId
           output :=
             [.reply (.received process.interest) (positiveReply parameters 200 1), .deleteManifest process.hash] }
  else h.deleteData parameters processId answer.newProcessId

end DeleteHandle

def deleteHandle (L : NameLibrary) (sha1 : String → String) :
    Handlers (DeleteHandle L) (DeleteCommand L sha1) (DeleteInterest L) DeleteAnswer (DeleteOutput L) where
  onCommand h number
    | .delete interest name processId keySpace =>
      h.handleDeleteCommand sha1 ⟨number, interest⟩ name processId keySpace
    | .deleteManifest interest parameter manifests random newProcessId =>
      h.handleDeleteManifestCommand ⟨number, interest⟩ parameter manifests random newProcessId
  onEnd h interest
    | none => some (h.onTimeout interest interest.processId)
    | some answer =>
      match interest with
      | .deleteManifest _ _ processId _ repoParameter =>
        some (h.onDeleteManifestCommandResponse answer.code repoParameter processId)
      | .deleteData _ _ _ _ _ _ repoParameter processId =>
        h.onDeleteDataCommandResponse interest answer repoParameter processId

end Difs
