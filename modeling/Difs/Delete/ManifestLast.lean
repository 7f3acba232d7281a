import Difs.Delete.Deletions

/-!
# The manifest goes last

A manifest is deleted on behalf of a delete-manifest that has asked all of its storages, in
their order, and was answered by each with a code of at most 400; never on behalf of one that
was refused or not answered.
-/

namespace Difs

open EventRun Threads DeleteHandle

variable {L : NameLibrary} {sha1 : String → String}

/-- The Interest got no answer, or a code over 400. -/
def Refused (d : Option DeleteAnswer) : Prop := ∀ answer, d = some answer → 400 < answer.code

/-- The thread of a delete-manifest that asked all storages in turn and then deleted that manifest. -/
def DeletedLast (a : ℕ) (hash : String) (records : List (DeleteRecord L)) : DeleteCommand L sha1 → Prop
  | .delete _ _ _ _ => False
  | .deleteManifest interest parameter manifests random _ =>
    ∃ m walk response, manifests.readManifest hash = .ok (some m) ∧
      Walk parameter (L.ofUri m.mName) random m.mRepos walk ∧
      records = walk ++ [.output (.reply (.received (some ⟨a, interest⟩)) response), .output (.deleteManifest hash)]

section ManifestLast

variable {h : DeleteHandle L} {a : ℕ} {c : DeleteCommand L sha1} {calls : List (DeleteInterest L)}
  {records walk : List (DeleteRecord L)} {parameter : DeleteParameter L} {name : L.Name} {random : UInt64}
  {repos : List Repo} {hash : String} {k : DeleteInterest L} {d : Option DeleteAnswer} {o : DeleteOutput L}

lemma Walk.output_not_mem (hw : Walk parameter name random repos walk) : .output o ∉ walk := by
  intro hm
  have ho : o ∈ walk.filterMap LogRecord.output? := List.mem_filterMap.mpr ⟨_, hm, rfl⟩
  rw [hw.outputs] at ho
  cases ho

lemma Walk.answered (hw : Walk parameter name random repos walk) (hm : .ended k d ∈ walk) : ¬ Refused d := by
  induction hw with
  | nil => cases hm
  | @snoc repos records answer hw repo newProcessId lifetime hcode ih =>
    obtain hm | hm := List.mem_append.mp hm
    · exact ih hm
    · intro hrefused
      simp only [List.mem_cons, List.not_mem_nil, or_false, reduceCtorEq, LogRecord.ended.injEq, false_or] at hm
      have hlt := hrefused answer hm.2
      omega

/-- Only a thread that has come to its end by all storages deletes a manifest. -/
lemma DeleteThread.deletedLast (ht : DeleteThread h a c calls records) (hm : .output (.deleteManifest hash) ∈ records) :
    DeletedLast a hash records c := by
  cases c with
  | delete interest name processId keySpace =>
    cases ht with
    | asked _ => simp at hm
    | answered _ _ _ _ => simp at hm
    | unanswered _ _ => simp at hm
  | deleteManifest interest parameter manifests random newProcessId =>
    cases ht with
    | notFound _ _ => simp at hm
    | walking _ _ hw _ _ => simp [hw.output_not_mem] at hm
    | refused _ _ hw _ _ => simp [hw.output_not_mem] at hm
    | unanswered _ _ hw _ => simp [hw.output_not_mem] at hm
    | @deleted m walk response hread hw _ =>
      have hhash : hash = parameterHash parameter := by simpa [hw.output_not_mem] using hm
      rw [hhash]
      exact ⟨m, walk, response, hread, hw, rfl⟩

lemma DeletedLast.not_refused (hl : DeletedLast a hash records c) (hm : .ended k d ∈ records) : ¬ Refused d := by
  cases c with
  | delete interest name processId keySpace => exact hl.elim
  | deleteManifest interest parameter manifests random newProcessId =>
    obtain ⟨m, walk, response, -, hw, rfl⟩ := hl
    apply hw.answered (k := k)
    simpa using hm

/-- In every run, a manifest is deleted only by a command that has asked all of its storages and
was answered by them, and by none that was refused. -/
theorem manifest_deleted_last {lifetime : ℕ}
    {es : List (Event (DeleteCommand L sha1) (DeleteInterest L) DeleteAnswer)}
    {s : System (DeleteHandle L) (DeleteCommand L sha1) (DeleteInterest L) DeleteAnswer (DeleteOutput L)}
    (hrun : run (step (deleteHandle L sha1)) { node := { mInterestLifetime := lifetime } } es = some s)
    (hdistinct : s.commands.Pairwise ApartDeletions) :
    (∀ a hash, .output (.deleteManifest hash) ∈ s.thread a →
        ∃ c, s.commands[a]? = some c ∧ DeletedLast a hash (s.thread a) c) ∧
      ∀ a k d, .ended k d ∈ s.thread a → Refused d → ∀ hash, .output (.deleteManifest hash) ∉ s.thread a := by
  have hthreads := deleteThreads_run hrun (meets_fresh hrun hdistinct)
  have hlast : ∀ a hash, .output (.deleteManifest hash) ∈ s.thread a →
      ∃ c, s.commands[a]? = some c ∧ DeletedLast a hash (s.thread a) c := by
    intro a hash hm
    have hlt := hthreads.log _ (mem_ofNumber.mp hm)
    have hc := List.getElem?_eq_getElem hlt
    exact ⟨_, hc, (hthreads.thread a _ hc).deletedLast hm⟩
  refine ⟨hlast, ?_⟩
  intro a k d hended hrefused hash hm
  obtain ⟨c, -, hl⟩ := hlast a hash hm
  exact hl.not_refused hended hrefused

end ManifestLast

/-- A manifest with two storages. -/
def archiveStore : ManifestStore archiveDigest :=
  ManifestStore.empty.insertManifest
    { mName := "/film", mRepos := [⟨"/a/repo", 0, 3⟩, ⟨"/b/repo", 4, 9⟩], mStartBlockId := 0, mEndBlockId := 9 } rfl

def filmHashName : plainNames.Name := [plainComponent (archiveDigest "/film")]

def manifestInterest : plainNames.Name := [plainComponent "delete-manifest"]

def deleteFilmManifest (random : UInt64) : DeleteCommand plainNames archiveDigest :=
  .deleteManifest manifestInterest ⟨filmHashName, some 5⟩ archiveStore random 11

def deleteFilmData (repo : String) (startBlockId endBlockId random : UInt64) : DeleteInterest plainNames :=
  .deleteData repo [film] startBlockId endBlockId 11 4000 ⟨filmHashName, some 5⟩ random

/-- Two delete-manifests of one object: the storages answer to the first, and one refuses the second. -/
def filmDeletions : List (Event (DeleteCommand plainNames archiveDigest) (DeleteInterest plainNames) DeleteAnswer) :=
  [.command (deleteFilmManifest 7), .command (deleteFilmManifest 8),
    .ends 0 (deleteFilmData "/a/repo" 0 3 7) (some ⟨200, 11⟩),
    .ends 1 (deleteFilmData "/a/repo" 0 3 8) (some ⟨404, 11⟩),
    .ends 0 (deleteFilmData "/b/repo" 4 9 7) (some ⟨200, 11⟩)]

/-- The first deletes the manifest, the second does not. -/
theorem film_manifest_deleted_last :
    ∃ s, run (step (deleteHandle plainNames archiveDigest)) { node := { mInterestLifetime := 4000 } } filmDeletions =
        some s ∧
      DeletedLast 0 (archiveDigest "/film") (s.thread 0) (deleteFilmManifest 7) ∧
      ∀ hash, .output (.deleteManifest hash) ∉ s.thread 1 := by
  have hthreads : (run (step (deleteHandle plainNames archiveDigest)) { node := { mInterestLifetime := 4000 } }
      filmDeletions).map (fun s => decide (.output (.deleteManifest (archiveDigest "/film")) ∈ s.thread 0 ∧
        .ended (deleteFilmData "/a/repo" 0 3 8) (some ⟨404, 11⟩) ∈ s.thread 1)) = some true := by decide +kernel
  obtain ⟨s, hrun, hs⟩ := Option.map_eq_some_iff.mp hthreads
  obtain ⟨hdeleted, hended⟩ := of_decide_eq_true hs
  have hcommands : s.commands = [deleteFilmManifest 7, deleteFilmManifest 8] := commands_run hrun
  have hdistinct : s.commands.Pairwise ApartDeletions := by
    rw [hcommands, List.pairwise_pair]
    unfold deleteFilmManifest ApartDeletions DeleteCommand.processId
    decide
  have hlast := manifest_deleted_last hrun hdistinct
  obtain ⟨c, hc, hl⟩ := hlast.1 0 _ hdeleted
  rw [hcommands] at hc
  cases hc
  refine ⟨s, hrun, hl, ?_⟩
  apply hlast.2 1 _ _ hended
  intro answer hanswer
  cases hanswer
  decide

end Difs
