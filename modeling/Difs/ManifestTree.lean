import Difs.Storage.FsStorage
import Difs.Insert.Keys
import Difs.Lib.PropertyTree

/-!
# Manifests as property trees

The trees that `toJson` writes and that `fromJson` reads, key by key. `read_json` gives back the
tree that `write_json` wrote, so the text between them is left out.
-/

namespace Difs

open PropertyTree

variable (sha1 : String → String)

def IsInt (v : ℤ) : Prop := -2 ^ 31 ≤ v ∧ v < 2 ^ 31

def Repo.toTree (repo : Repo) : PTree :=
  let storage := PTree.empty.put ["storage_name"] repo.name
  let storage := storage.putInt ["segment", "start"] repo.start
  storage.putInt ["segment", "end"] repo.stop

/-- The list of the storages, which is a tree whose keys are empty. -/
def Repo.toTrees (repos : List Repo) : PTree :=
  repos.foldl (fun children repo => children.addChild "" repo.toTree) PTree.empty

namespace Manifest

def toTree (m : Manifest) : PTree :=
  let root := PTree.empty.put ["info", "name"] m.mName
  let root := root.put ["info", "hash"] (m.getHash sha1)
  let root := root.putInt ["info", "startBlockId"] m.mStartBlockId
  let root := root.putInt ["info", "endBlockId"] m.mEndBlockId
  if m.mRepos ≠ [] then root.addChild "storages" (Repo.toTrees m.mRepos) else root.putInt ["segment"] m.mEndBlockId

def appendFrom (m : Manifest) (item : String × PTree) : Option Manifest := do
  let repoName ← item.2.get ["storage_name"]
  let start ← item.2.getInt ["segment", "start"]
  let stop ← item.2.getInt ["segment", "end"]
  return m.appendRepo repoName start stop

/-- `none` is the exception for a path that is not there, or for a number that is none. -/
def fromTree (root : PTree) : Option Manifest := do
  let name ← root.get ["info", "name"]
  let _ ← root.get ["info", "hash"]
  let startBlockId ← root.getInt ["info", "startBlockId"]
  let endBlockId ← root.getInt ["info", "endBlockId"]
  let storages ← root.getChild ["storages"]
  storages.children.foldlM appendFrom { mName := name, mStartBlockId := startBlockId, mEndBlockId := endBlockId }

/-- The manifests that are built by the constructor and `appendRepo`, or read from a tree. -/
inductive Made : Manifest → Prop
  | built (name : String) (startBlockId endBlockId : ℤ) (hstart : IsInt startBlockId) (hend : IsInt endBlockId) :
    Made { mName := name, mStartBlockId := startBlockId, mEndBlockId := endBlockId }
  | appended (m : Manifest) (repo : Repo) (hm : Made m) (hstart : IsInt repo.start) (hstop : IsInt repo.stop) :
    Made (m.appendRepo repo.name repo.start repo.stop)
  | decoded (root : PTree) (m : Manifest) (h : fromTree root = some m) : Made m

/-- Two manifests that say the same. -/
structure Same (m m' : Manifest) : Prop where
  name : m'.mName = m.mName
  hash : m'.getHash sha1 = m.getHash sha1
  startBlockId : m'.mStartBlockId = m.mStartBlockId
  endBlockId : m'.mEndBlockId = m.mEndBlockId
  repos : m'.mRepos = m.mRepos

/-- A manifest without a hash of its own, all of whose numbers are `int`s. -/
structure Plain (m : Manifest) : Prop where
  hash : m.mHash = ""
  startBlockId : IsInt m.mStartBlockId
  endBlockId : IsInt m.mEndBlockId
  repos : ∀ repo ∈ m.mRepos, IsInt repo.start ∧ IsInt repo.stop

variable {sha1} {m m' : Manifest} {repo : Repo} {repos : List Repo}

lemma Plain.appendRepo (repo : Repo) (h : m.Plain) (hstart : IsInt repo.start) (hstop : IsInt repo.stop) :
    (m.appendRepo repo.name repo.start repo.stop).Plain := by
  refine ⟨h.hash, h.startBlockId, h.endBlockId, ?_⟩
  intro other hother
  obtain hother | hother := List.mem_append.mp hother
  · exact h.repos other hother
  · rw [List.mem_singleton.mp hother]
    exact ⟨hstart, hstop⟩

lemma isInt_of_getInt {t : PTree} {path : List String} {v : ℤ} (h : t.getInt path = some v) : IsInt v := by
  obtain ⟨text, -, hread⟩ := Option.bind_eq_some_iff.mp h
  exact range_of_readInt hread

lemma Plain.foldlM_appendFrom {items : List (String × PTree)} (h : m.Plain) (hm : items.foldlM appendFrom m = some m') :
    m'.Plain := by
  induction items generalizing m with
  | nil =>
    cases hm
    exact h
  | cons item items ih =>
    rw [List.foldlM_cons] at hm
    obtain ⟨next, hnext, hrest⟩ := Option.bind_eq_some_iff.mp hm
    simp only [appendFrom, Option.bind_eq_bind, Option.bind_eq_some_iff, Option.pure_def, Option.some.injEq] at hnext
    obtain ⟨repoName, -, start, hstart, stop, hstop, rfl⟩ := hnext
    have hnext : (m.appendRepo repoName start stop).Plain :=
      Plain.appendRepo ⟨repoName, start, stop⟩ h (isInt_of_getInt hstart) (isInt_of_getInt hstop)
    exact ih hnext hrest

lemma Plain.of_fromTree {root : PTree} (h : fromTree root = some m) : m.Plain := by
  simp only [fromTree, Option.bind_eq_bind, Option.bind_eq_some_iff] at h
  obtain ⟨name, -, hash, -, startBlockId, hstart, endBlockId, hend, storages, -, hm⟩ := h
  have hplain : Plain { mName := name, mStartBlockId := startBlockId, mEndBlockId := endBlockId } :=
    ⟨rfl, isInt_of_getInt hstart, isInt_of_getInt hend, by simp⟩
  exact hplain.foldlM_appendFrom hm

lemma Made.plain (h : m.Made) : m.Plain := by
  induction h with
  | built name startBlockId endBlockId hstart hend => exact ⟨rfl, hstart, hend, by simp⟩
  | appended m repo _ hstart hstop ih => exact ih.appendRepo repo hstart hstop
  | decoded root m h => exact Plain.of_fromTree h

/-! ### Reading what was written -/

lemma getInt_of_get {t : PTree} {path : List String} {v : ℤ} (hv : IsInt v) (h : t.get path = some (writeInt v)) :
    t.getInt path = some v := by
  unfold PTree.getInt
  rw [h]
  exact readInt_writeInt hv.1 hv.2

lemma appendFrom_toTree (hstart : IsInt repo.start) (hstop : IsInt repo.stop) :
    m.appendFrom ("", repo.toTree) = some (m.appendRepo repo.name repo.start repo.stop) := by
  have hname : repo.toTree.get ["storage_name"] = some repo.name := by
    simp [PTree.get, Repo.toTree, PTree.putInt]
  have hstart' : repo.toTree.getInt ["segment", "start"] = some repo.start :=
    getInt_of_get hstart (by simp [PTree.get, Repo.toTree, PTree.putInt])
  have hstop' : repo.toTree.getInt ["segment", "end"] = some repo.stop :=
    getInt_of_get hstop (by simp [PTree.get, Repo.toTree, PTree.putInt])
  unfold appendFrom
  rw [hname, hstart', hstop']
  rfl

lemma children_toTrees (repos : List Repo) :
    (Repo.toTrees repos).children = repos.map (fun repo => ("", repo.toTree)) := by
  induction repos using List.reverseRecOn with
  | nil => rfl
  | append_singleton repos repo ih =>
    have hsnoc : Repo.toTrees (repos ++ [repo]) = (Repo.toTrees repos).addChild "" repo.toTree := List.foldl_concat ..
    rw [hsnoc, List.map_append, ← ih]
    rfl

lemma foldlM_appendFrom (h : ∀ repo ∈ repos, IsInt repo.start ∧ IsInt repo.stop) :
    (repos.map (fun repo => ("", repo.toTree))).foldlM appendFrom m = some { m with mRepos := m.mRepos ++ repos } := by
  induction repos generalizing m with
  | nil =>
    rw [List.append_nil]
    rfl
  | cons repo repos ih =>
    obtain ⟨⟨hstart, hstop⟩, hrepos⟩ := List.forall_mem_cons.mp h
    rw [List.map_cons, List.foldlM_cons, appendFrom_toTree hstart hstop, Option.bind_eq_bind, Option.bind_some,
      ih hrepos]
    simp only [appendRepo, List.append_assoc, List.singleton_append]

/-- What `fromJson` says of the values is what it does to the tree. -/
theorem fromTree_toTree (h : m.Plain) : fromTree (m.toTree sha1) = fromJson (m.toJson sha1) := by
  have hname : (m.toTree sha1).get ["info", "name"] = some m.mName := by
    unfold toTree
    split_ifs <;> simp [PTree.get, PTree.putInt]
  have hhash : (m.toTree sha1).get ["info", "hash"] = some (m.getHash sha1) := by
    unfold toTree
    split_ifs <;> simp [PTree.get, PTree.putInt]
  have hstart : (m.toTree sha1).getInt ["info", "startBlockId"] = some m.mStartBlockId := by
    apply getInt_of_get h.startBlockId
    unfold toTree
    split_ifs <;> simp [PTree.get, PTree.putInt]
  have hend : (m.toTree sha1).getInt ["info", "endBlockId"] = some m.mEndBlockId := by
    apply getInt_of_get h.endBlockId
    unfold toTree
    split_ifs <;> simp [PTree.get, PTree.putInt]
  have hstorages : (m.toTree sha1).getChild ["storages"] =
      if m.mRepos = [] then none else some (Repo.toTrees m.mRepos) := by
    unfold toTree
    split_ifs <;> simp_all [PTree.putInt]
  unfold fromTree fromJson toJson
  rw [hname, hhash, hstart, hend, hstorages]
  by_cases hrepos : m.mRepos = []
  · simp [hrepos]
  · simp only [hrepos, if_false, Option.bind_eq_bind, Option.bind_some, children_toTrees, foldlM_appendFrom h.repos,
      List.nil_append, Option.map_some]

lemma fromTree_toTree_of_repos (h : m.Plain) (hrepos : m.mRepos ≠ []) : fromTree (m.toTree sha1) = some m := by
  rw [fromTree_toTree h]
  unfold fromJson toJson
  rw [if_neg hrepos, Option.map_some, ← h.hash]

lemma fromTree_toTree_of_not_repos (h : m.Plain) (hrepos : m.mRepos = []) : fromTree (m.toTree sha1) = none := by
  rw [fromTree_toTree h]
  unfold fromJson toJson
  rw [if_pos hrepos, Option.map_none]

/-- A manifest is read back, as a text and from the store, exactly when it names a storage. -/
theorem manifest_round_trip_iff {L : NameLibrary} (s : FsStorage L sha1) (hm : m.Made) :
    ((∃ m', fromTree (m.toTree sha1) = some m' ∧ Same sha1 m m') ↔ m.mRepos ≠ []) ∧
    ((∃ m', (s.insertManifest m).1.readManifest (s.insertManifest m).2 = .ok (some m') ∧ Same sha1 m m') ↔
      m.mRepos ≠ []) := by
  have hplain := hm.plain
  have hread : (s.insertManifest m).1.readManifest (s.insertManifest m).2 =
      ofFile (some (m.toJson sha1)) := by
    unfold FsStorage.readManifest FsStorage.insertManifest
    rw [AList.lookup_insert]
  have hsame : Same sha1 m m := ⟨rfl, rfl, rfl, rfl, rfl⟩
  rw [hread, ofFile, ← fromTree_toTree hplain]
  by_cases hrepos : m.mRepos = []
  · rw [fromTree_toTree_of_not_repos hplain hrepos]
    simp [hrepos]
  · rw [fromTree_toTree_of_repos hplain hrepos]
    exact ⟨iff_of_true ⟨m, rfl, hsame⟩ hrepos, iff_of_true ⟨m, rfl, hsame⟩ hrepos⟩

def filmManifest : Manifest := { mName := "/film", mStartBlockId := 0, mEndBlockId := 3 }

theorem stored_film_read_back :
    (∃ m', fromTree ((filmManifest.appendRepo "/a/repo" 0 3).toTree archiveDigest) = some m' ∧
      Same archiveDigest (filmManifest.appendRepo "/a/repo" 0 3) m') ∧
    ∃ m', (({} : FsStorage plainNames archiveDigest).insertManifest
        (filmManifest.appendRepo "/a/repo" 0 3)).1.readManifest (archiveDigest "/film") = .ok (some m') ∧
      Same archiveDigest (filmManifest.appendRepo "/a/repo" 0 3) m' := by
  have hfilm : Made filmManifest := .built "/film" 0 3 (by norm_num [IsInt]) (by norm_num [IsInt])
  have hmade : Made (filmManifest.appendRepo "/a/repo" 0 3) :=
    .appended filmManifest ⟨"/a/repo", 0, 3⟩ hfilm (by norm_num [IsInt]) (by norm_num [IsInt])
  have hrepos : (filmManifest.appendRepo "/a/repo" 0 3).mRepos ≠ [] := List.cons_ne_nil _ _
  have hround := manifest_round_trip_iff ({} : FsStorage plainNames archiveDigest) hmade
  exact ⟨hround.1.mpr hrepos, hround.2.mpr hrepos⟩

/-- The manifest of the film is written before any storage is known. -/
theorem unstored_film_not_read_back :
    ¬ ∀ m : Manifest, Made m → ∃ m', fromTree (m.toTree archiveDigest) = some m' ∧ Same archiveDigest m m' := by
  intro h
  obtain ⟨m', hm', -⟩ := h filmManifest (.built "/film" 0 3 (by norm_num [IsInt]) (by norm_num [IsInt]))
  have hnone : (fromTree (filmManifest.toTree archiveDigest)).isNone := by decide +kernel
  rw [hm'] at hnone
  cases hnone

end Manifest

end Difs
