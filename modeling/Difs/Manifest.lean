import Difs.Lib.SortedMap

/-!
# Manifests and their store

A manifest names an object and the nodes that store its segments. `toJson` and `fromJson` go
through the tree that `read_json` gives back for what `write_json` wrote. SHA-1 is a
parameter: the text of the digest of a name.
-/

namespace Difs

structure Repo where
  name : String
  start : ℤ
  stop : ℤ
deriving DecidableEq, Repr

structure Manifest where
  mName : String
  mHash : String := ""
  mRepos : List Repo := []
  mStartBlockId : ℤ
  mEndBlockId : ℤ
deriving DecidableEq, Repr

/-- The JSON of a manifest. `storages` and `segment` may be absent. -/
structure ManifestJson where
  name : String
  hash : String
  startBlockId : ℤ
  endBlockId : ℤ
  storages : Option (List Repo)
  segment : Option ℤ
deriving DecidableEq, Repr

structure InfoJson where
  name : String
  hash : String
  segment : ℤ
deriving DecidableEq, Repr

variable (sha1 : String → String)

namespace Manifest

def getHash (m : Manifest) : String := if m.mHash = "" then sha1 m.mName else m.mHash

def appendRepo (m : Manifest) (repoName : String) (start stop : ℤ) : Manifest :=
  { m with mRepos := m.mRepos ++ [⟨repoName, start, stop⟩] }

/-- Without storages the tree has a `segment` in their place. -/
def toJson (m : Manifest) : ManifestJson where
  name := m.mName
  hash := m.getHash sha1
  startBlockId := m.mStartBlockId
  endBlockId := m.mEndBlockId
  storages := if m.mRepos = [] then none else some m.mRepos
  segment := if m.mRepos = [] then some m.mEndBlockId else none

def toInfoJson (m : Manifest) : InfoJson where
  name := m.mName
  hash := m.getHash sha1
  segment := m.mEndBlockId

/-- The hash is taken over as it stands; a mismatch is only logged. -/
def fromInfoJson (json : InfoJson) : Manifest :=
  { mName := json.name, mHash := json.hash, mStartBlockId := 0, mEndBlockId := json.segment }

/-- `none` is the exception of `get_child("storages")`. The hash is not taken over. -/
def fromJson (json : ManifestJson) : Option Manifest :=
  json.storages.map (fun repos =>
    { mName := json.name, mRepos := repos, mStartBlockId := json.startBlockId, mEndBlockId := json.endBlockId })

variable {sha1} {m : Manifest} {json : ManifestJson}

lemma fromJson_eq_some (h : fromJson json = some m) : m.mName = json.name ∧ m.mHash = "" := by
  obtain ⟨repos, -, rfl⟩ := Option.map_eq_some_iff.mp h
  exact ⟨rfl, rfl⟩

lemma mHash_of_fromJson (h : fromJson json = some m) : m.mHash = "" := (fromJson_eq_some h).2

lemma getHash_of_fromJson (h : fromJson json = some m) : m.getHash sha1 = sha1 json.name := by
  obtain ⟨hn, hh⟩ := fromJson_eq_some h
  rw [getHash, if_pos hh, hn]

end Manifest

/-- The manifest directory: every file is named by the hash of the name in it. -/
structure ManifestStore where
  files : List (String × ManifestJson)
  keyed : ∀ file ∈ files, sha1 file.2.name = file.1

namespace ManifestStore

variable {sha1}

def empty : ManifestStore sha1 := ⟨[], by simp⟩

def hasManifest (s : ManifestStore sha1) (key : String) : Bool := (s.files.lookup key).isSome

/-- The file is read with `fromJson`; `error` is its exception. -/
def readManifest (s : ManifestStore sha1) (key : String) : Except String (Option Manifest) :=
  match s.files.lookup key with
  | none => .ok none
  | some json =>
    match Manifest.fromJson json with
    | none => .error "No such node (storages)"
    | some m => .ok (some m)

/-- Only manifests without a hash of their own come here: all are made by `fromJson`. -/
def insertManifest (s : ManifestStore sha1) (m : Manifest) (hm : m.mHash = "") : ManifestStore sha1 where
  files := (m.getHash sha1, m.toJson sha1) :: s.files.filter (fun file => file.1 ≠ m.getHash sha1)
  keyed := by
    intro file hf
    obtain rfl | hf := List.mem_cons.mp hf
    · exact (if_pos hm).symm
    · exact s.keyed file (List.mem_of_mem_filter hf)

def eraseManifest (s : ManifestStore sha1) (key : String) : ManifestStore sha1 where
  files := s.files.filter (fun file => file.1 ≠ key)
  keyed := fun file hf => s.keyed file (List.mem_of_mem_filter hf)

def readManifests (s : ManifestStore sha1) : List String := s.files.map Prod.fst

variable {s : ManifestStore sha1} {m : Manifest} {key k : String}

lemma hasManifest_iff : s.hasManifest key ↔ ∃ json, (key, json) ∈ s.files := by
  unfold hasManifest
  rw [List.lookup_isSome_iff]
  constructor
  · intro h
    obtain ⟨file, hf, hk⟩ := h
    rw [beq_iff_eq] at hk
    exact ⟨file.2, hk ▸ hf⟩
  · intro h
    obtain ⟨json, hf⟩ := h
    exact ⟨(key, json), hf, beq_self_eq_true key⟩

lemma hasManifest_insertManifest {hm : m.mHash = ""} :
    (s.insertManifest m hm).hasManifest key ↔ key = m.getHash sha1 ∨ s.hasManifest key := by
  rw [hasManifest_iff, hasManifest_iff]
  unfold insertManifest
  constructor
  · intro h
    obtain ⟨json, hf⟩ := h
    obtain heq | hf := List.mem_cons.mp hf
    · exact Or.inl (Prod.ext_iff.mp heq).1
    · exact Or.inr ⟨json, List.mem_of_mem_filter hf⟩
  · intro h
    by_cases hk : key = m.getHash sha1
    · exact ⟨m.toJson sha1, List.mem_cons.mpr (Or.inl (by rw [hk]))⟩
    · obtain ⟨json, hf⟩ := h.resolve_left hk
      exact ⟨json, List.mem_cons_of_mem _ (List.mem_filter.mpr ⟨hf, decide_eq_true hk⟩)⟩

lemma hasManifest_eraseManifest : (s.eraseManifest k).hasManifest key ↔ key ≠ k ∧ s.hasManifest key := by
  rw [hasManifest_iff, hasManifest_iff]
  unfold eraseManifest
  constructor
  · intro h
    obtain ⟨json, hf⟩ := h
    obtain ⟨hf, hk⟩ := List.mem_filter.mp hf
    exact ⟨of_decide_eq_true hk, json, hf⟩
  · intro h
    obtain ⟨hk, json, hf⟩ := h
    exact ⟨json, List.mem_filter.mpr ⟨hf, decide_eq_true hk⟩⟩

lemma readManifest_ok (h : s.readManifest key = .ok (some m)) :
    s.hasManifest key ∧ sha1 m.mName = key ∧ m.mHash = "" := by
  unfold readManifest at h
  cases hl : s.files.lookup key with
  | none => simp [hl] at h
  | some json =>
    obtain ⟨pre, post, hfiles, -⟩ := List.lookup_eq_some_iff.mp hl
    have hmem : (key, json) ∈ s.files := by simp [hfiles]
    cases hj : Manifest.fromJson json with
    | none => simp [hl, hj] at h
    | some m' =>
      simp only [hl, hj, Except.ok.injEq, Option.some_inj] at h
      subst h
      obtain ⟨hn, hh⟩ := Manifest.fromJson_eq_some hj
      exact ⟨hasManifest_iff.mpr ⟨json, hmem⟩, hn ▸ s.keyed _ hmem, hh⟩

lemma lookup_insertManifest (s : ManifestStore sha1) (hm : m.mHash = "") :
    (fun key => (s.insertManifest m hm).files.lookup key) =
      Function.update (fun key => s.files.lookup key) (m.getHash sha1) (some (m.toJson sha1)) := by
  funext key
  unfold insertManifest
  rw [List.lookup_cons]
  by_cases hk : key = m.getHash sha1
  · rw [hk, Function.update_self, beq_self_eq_true]
  · rw [Function.update_of_ne hk, beq_false_of_ne hk]
    exact SortedMap.lookup_filter_ne hk

lemma lookup_eraseManifest :
    (s.eraseManifest k).files.lookup key = if key = k then none else s.files.lookup key := by
  unfold eraseManifest
  split_ifs with hk
  · rw [hk, List.lookup_eq_none_iff]
    intro file hf
    have hne := of_decide_eq_true (List.mem_filter.mp hf).2
    simpa using hne.symm
  · exact SortedMap.lookup_filter_ne hk

lemma readManifest_eq_ok_some : s.readManifest key = .ok (some m) ↔
    ∃ json, s.files.lookup key = some json ∧ Manifest.fromJson json = some m := by
  unfold readManifest
  cases hl : s.files.lookup key with
  | none => simp
  | some json => cases hj : Manifest.fromJson json <;> simp [hj]

end ManifestStore

end Difs
