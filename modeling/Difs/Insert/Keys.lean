import Difs.Insert.WriteHandle

/-!
# Keys

The texts that insert, get and delete hash for an object, and the names of its segments. The
paths agree on names with one component.
-/

namespace Difs

open WriteHandle

variable {L : NameLibrary} (sha1 : String → String)

structure KeyInterest where
  repo : String
  command : String
  hash : String
deriving DecidableEq, Repr

/-- `ReadHandle::onGetInterest` hashes the whole URI. -/
def getText (name : L.Name) : String := L.uri name

def onGetInterest (keySpace : KeySpaceHandle) (name : L.Name) : Option KeyInterest :=
  let hash := sha1 (getText name)
  (keySpace.getManifestStorage hash).map (fun repo => ⟨repo, "find", hash⟩)

/-- `DeleteHandle::handleDeleteCommand` does the same. -/
def deleteText (name : L.Name) : String := L.uri name

def handleDeleteCommand (keySpace : KeySpaceHandle) (name : L.Name) : Option KeyInterest :=
  let hash := sha1 (deleteText name)
  (keySpace.getManifestStorage hash).map (fun repo => ⟨repo, "delete-manifest", hash⟩)

/-- The names from which `DIFS::fetch` reads the segments and which `handleDeleteDataCommand`
deletes. -/
def Manifest.segmentName (L : NameLibrary) (m : Manifest) (segmentNo : UInt64) : L.Name :=
  L.appendSegment (L.ofUri m.mName) segmentNo

def putFileSendManifest (name : L.Name) (endBlockId : ℤ) : InfoJson :=
  Manifest.toInfoJson sha1 { mName := L.uri name, mStartBlockId := 0, mEndBlockId := endBlockId }

/-- The manifest that the process of an insert command holds when the client has announced the
object. -/
def putManifest (h : WriteHandle L) (keySpace : KeySpaceHandle) (parameter : RepoCommandParameter L)
    (endBlockId : ℤ) (processId : UInt64) (now : ℕ) : Option Manifest :=
  let o := h.processSingleInsertCommand parameter processId
  let o := o.handle.onDataValidated sha1 keySpace parameter.nodePrefix
    (some (putFileSendManifest sha1 parameter.name endBlockId)) processId now
  (o.handle.process processId).manifest

/-- The check, the manifest, get and delete hash one text, and the segments are found where
they were put. -/
structure KeysAgree (name : L.Name) (m : Manifest) : Prop where
  checked : ∀ difsKey ∈ name.getLast?, checkedText difsKey = m.mName
  got : getText name = m.mName
  deleted : deleteText name = m.mName
  segments : ∀ segmentNo, m.segmentName L segmentNo = L.appendSegment name segmentNo

namespace WriteHandle

variable {h : WriteHandle L} {processId : UInt64}

@[simp]
lemma process_setProcess (process : ProcessInfo L) : (h.setProcess processId process).process processId = process := by
  simp [WriteHandle.process, setProcess]

@[simp]
lemma mProcesses_setProcess (process : ProcessInfo L) :
    (h.setProcess processId process).mProcesses processId = some process := by
  simp [setProcess]

lemma segInit_manifest (parameter : RepoCommandParameter L) (now : ℕ) :
    ((h.segInit processId parameter now).handle.process processId).manifest = (h.process processId).manifest := by
  unfold segInit
  dsimp only
  rw [process_setProcess]
  split <;> rfl

lemma writeManifest_manifest (keySpace : KeySpaceHandle) :
    ((h.writeManifest sha1 keySpace processId).handle.process processId).manifest =
      some (newManifest (h.process processId)) := by
  unfold writeManifest
  dsimp only
  split <;> rw [process_setProcess]

theorem onDataValidated_manifest {process : ProcessInfo L} (hp : h.mProcesses processId = some process)
    (hsent : process.manifestSent = false) (keySpace : KeySpaceHandle) (nodePrefix : Option (List String))
    (json : InfoJson) (now : ℕ) : ∃ process' : ProcessInfo L, process'.name = L.ofUri (afterLastSlash json.name) ∧
      ((h.onDataValidated sha1 keySpace nodePrefix (some json) processId now).handle.process processId).manifest =
        some (newManifest process') := by
  refine ⟨{ announced process h.mRepoPrefix (.fromInfoJson json) with manifestSent := true }, rfl, ?_⟩
  have hnotsent : (announced process h.mRepoPrefix (.fromInfoJson json)).manifestSent = false := hsent
  unfold onDataValidated
  simp only [hp, hnotsent, Bool.false_eq_true, if_false]
  split
  · rw [writeManifest_manifest, process_setProcess]
  · rw [segInit_manifest, writeManifest_manifest, process_setProcess]

lemma processSingleInsertCommand_process (parameter : RepoCommandParameter L) (hfresh : h.mProcesses processId = none) :
    ∃ process, (h.processSingleInsertCommand parameter processId).handle.mProcesses processId = some process ∧
      process.manifestSent = false := by
  refine ⟨_, mProcesses_setProcess _, ?_⟩
  simp [WriteHandle.process, hfresh]

end WriteHandle

/-- The text after the last slash of a URI with one component. -/
lemma afterLastSlash_uri (c : L.Component) : afterLastSlash (L.uri [c]) = L.componentUri c := by
  have hlast : rfind ("/" ++ L.componentUri c) '/' = 0 := rfind_head (L.slash_not_mem c)
  rw [L.uri_singleton, afterLastSlash, hlast]
  exact substr_append "/" (L.componentUri c)

variable {h : WriteHandle L} {keySpace : KeySpaceHandle} {parameter : RepoCommandParameter L}
  {endBlockId : ℤ} {processId : UInt64} {now : ℕ}

/-- The name of the manifest is the URI of the name that the text after the last slash reads as. -/
lemma putManifest_name (keySpace : KeySpaceHandle) (endBlockId : ℤ) (now : ℕ)
    (hfresh : h.mProcesses processId = none) :
    ∃ m, putManifest sha1 h keySpace parameter endBlockId processId now = some m ∧
      m.mName = L.uri (L.ofUri (afterLastSlash (L.uri parameter.name))) := by
  obtain ⟨process, hp, hsent⟩ := processSingleInsertCommand_process parameter hfresh
  obtain ⟨process', hname, hm⟩ := onDataValidated_manifest sha1 hp hsent keySpace parameter.nodePrefix
    (putFileSendManifest sha1 parameter.name endBlockId) now
  refine ⟨_, hm, ?_⟩
  change L.uri process'.name = _
  rw [hname]
  rfl

variable {sha1}

/-- Insert, get and delete agree on the key and on the segments exactly for the names with one
component. -/
theorem keys_agree_iff (hfresh : h.mProcesses processId = none) (hname : parameter.name ≠ []) :
    (∃ m, putManifest sha1 h keySpace parameter endBlockId processId now = some m ∧ KeysAgree parameter.name m) ↔
      parameter.name.length = 1 := by
  obtain ⟨m, hm, hmname⟩ := putManifest_name sha1 keySpace endBlockId now hfresh
  constructor
  · intro h
    obtain ⟨m', -, hagree⟩ := h
    -- the check hashes the last component alone, get the whole name
    have htext := hagree.checked (parameter.name.getLast hname) (List.getLast?_eq_some_getLast hname)
    rw [← hagree.got, checkedText, ← L.uri_singleton] at htext
    rw [← NameLibrary.uri_injective htext, List.length_singleton]
  · intro h
    obtain ⟨c, hc⟩ := List.length_eq_one_iff.mp h
    have huri : m.mName = L.uri [c] := by rw [hmname, hc, afterLastSlash_uri, L.ofUri_componentUri]
    refine ⟨m, hm, ?_, ?_, ?_, ?_⟩
    · intro difsKey hkey
      rw [hc, List.getLast?_singleton, Option.mem_some_iff] at hkey
      rw [huri, ← hkey, checkedText, L.uri_singleton]
    · rw [getText, hc, huri]
    · rw [deleteText, hc, huri]
    · intro segmentNo
      rw [Manifest.segmentName, huri, L.ofUri_uri, hc]

def archiveDigest (name : String) : String :=
  if name = "/film" then "f1146b13f1fcbc375bd9c9ddf55e362c62e59b02"
  else if name = "/archive/film" then "17a802ad5959ffcab5693ed26721b55767136a0c" else ""

def plainComponent (text : String) (h : text ≠ "" ∧ '/' ∉ text.toList := by decide) : plainNames.Component :=
  ⟨text, h.1, h.2⟩

def film : plainNames.Component := plainComponent "film"

def exampleHandle : WriteHandle plainNames :=
  { mClusterNodePrefix := "/a", mClusterPrefix := "repo", mRepoPrefix := "/a/repo" }

def exampleKeySpace : KeySpaceHandle := KeySpaceHandle.create "/a/repo" "/a/repo" "manager" "" (0, 0)

theorem keys_agree_film : ∃ m,
    putManifest archiveDigest exampleHandle exampleKeySpace { name := [film] }
      2 7 0 = some m ∧ KeysAgree [film] m :=
  (keys_agree_iff rfl (by decide)).mpr rfl

/-- The check and the manifest are about `/film`, get and delete about the whole name. -/
theorem keys_differ_archive_film :
    let name := [plainComponent "archive", film]
    let m := putManifest archiveDigest exampleHandle exampleKeySpace { name := name } 2 7 0
    m.map Manifest.mName = some "/film" ∧ getText name = "/archive/film" ∧ deleteText name = "/archive/film" ∧
      m.map (fun m => plainNames.uri (m.segmentName plainNames 0)) = some "/film/seg=0" ∧
      ¬ ∃ m', m = some m' ∧ KeysAgree name m' := by
  refine ⟨by decide +kernel, by decide, by decide, by decide +kernel, ?_⟩
  intro h
  obtain ⟨m', hm, hagree⟩ := h
  have hname := congrArg (Option.map Manifest.mName) hm
  have hgot := hagree.got
  rw [Option.map_some, ← hgot] at hname
  exact absurd hname (by decide +kernel)

end Difs
