import Difs.DataStore
import Difs.Manifest

/-!
# The file store

`FsStorage` as a tree of directories. A packet lies in the directory that the first two digits
of its key name; a directory stays when its last file goes. Directories of files are maps, and
a file is what was written to it.
-/

namespace Difs

/-- The files of a directory by their names, or the documents of a collection by their keys. -/
abbrev Files (α : Type) := AList (fun _ : String => α)

/-- A stored manifest is read with `fromJson`; `error` is its exception. -/
def Manifest.ofFile : Option ManifestJson → Except String (Option Manifest)
  | none => .ok none
  | some json =>
    match fromJson json with
    | none => .error "No such node (storages)"
    | some manifest => .ok (some manifest)

structure FsStorage (L : NameLibrary) (sha1 : String → String) where
  data : Files (Files (Data L)) := ∅
  manifest : Files ManifestJson := ∅

namespace FsStorage

variable {L : NameLibrary} {sha1 : String → String}

/-- The directory and the file name of a key. -/
def keyPath (key : String) : String × String :=
  (String.ofList (key.toList.take 2), String.ofList (key.toList.drop 2))

def getPath (sha1 : String → String) (name : L.Name) : String × String := keyPath (sha1 (L.uri name))

def directory (s : FsStorage L sha1) (dir : String) : Files (Data L) := (s.data.lookup dir).getD ∅

def file (s : FsStorage L sha1) (path : String × String) : Option (Data L) := (s.directory path.1).lookup path.2

/-- The directory is made where it is missing. -/
def writeData (s : FsStorage L sha1) (data : Data L) : FsStorage L sha1 × UInt64 :=
  let path := getPath sha1 data.name
  ({ s with data := s.data.insert path.1 ((s.directory path.1).insert path.2 data) }, hash (L.uri data.name))

def insert (s : FsStorage L sha1) (data : Data L) : FsStorage L sha1 × UInt64 := s.writeData data

def insertManifest (s : FsStorage L sha1) (manifest : Manifest) : FsStorage L sha1 × String :=
  ({ s with manifest := s.manifest.insert (manifest.getHash sha1) (manifest.toJson sha1) }, manifest.getHash sha1)

def erase (s : FsStorage L sha1) (name : L.Name) : FsStorage L sha1 × Bool :=
  let path := getPath sha1 name
  if (s.file path).isNone then (s, false)
  else ({ s with data := s.data.insert path.1 ((s.directory path.1).erase path.2) }, true)

def eraseManifest (s : FsStorage L sha1) (key : String) : FsStorage L sha1 × Bool :=
  if (s.manifest.lookup key).isNone then (s, false)
  else ({ s with manifest := s.manifest.erase key }, true)

/-- The name is read back from its URI on the way to the path. -/
def read (s : FsStorage L sha1) (name : L.Name) : Option (Data L) := s.file (getPath sha1 (L.ofUri (L.uri name)))

def readManifest (s : FsStorage L sha1) (key : String) : Except String (Option Manifest) :=
  Manifest.ofFile (s.manifest.lookup key)

def has (s : FsStorage L sha1) (name : L.Name) : Bool := (s.file (getPath sha1 name)).isSome

def hasManifest (s : FsStorage L sha1) (key : String) : Bool := (s.manifest.lookup key).isSome

/-- The files of all directories. -/
def walk (s : FsStorage L sha1) : List ((String × String) × Data L) :=
  s.data.entries.flatMap (fun dir => dir.2.entries.map (fun file => ((dir.1, file.1), file.2)))

def readDatas (s : FsStorage L sha1) : List String := s.walk.map (fun file => L.uri file.2.name)

def readManifests (s : FsStorage L sha1) : List String := s.manifest.keys

/-- The entries of the data directory are counted, which are directories. -/
def size (s : FsStorage L sha1) : ℕ := s.data.keys.length

variable {s : FsStorage L sha1} {data : Data L} {name : L.Name} {path : String × String}

lemma keyPath_injective : Function.Injective keyPath := by
  intro key key' h
  obtain ⟨htake, hdrop⟩ := Prod.ext_iff.mp h
  apply String.ext
  rw [← List.take_append_drop 2 key.toList, ← List.take_append_drop 2 key'.toList, String.ofList_injective htake,
    String.ofList_injective hdrop]

lemma read_eq (s : FsStorage L sha1) (name : L.Name) : s.read name = s.file (getPath sha1 name) := by
  unfold read
  rw [L.ofUri_uri]

lemma has_eq (s : FsStorage L sha1) (name : L.Name) : s.has name = (s.read name).isSome := by
  rw [read_eq]
  rfl

lemma directory_insert (s : FsStorage L sha1) (dir dir' : String) (files : Files (Data L)) :
    ({ s with data := s.data.insert dir files } : FsStorage L sha1).directory dir' =
      if dir' = dir then files else s.directory dir' := by
  unfold directory
  split_ifs with h
  · rw [h, AList.lookup_insert, Option.getD_some]
  · rw [AList.lookup_insert_ne h]

/-- Writing changes one file. -/
theorem file_insert :
    (s.insert data).1.file path = if path = getPath sha1 data.name then some data else s.file path := by
  unfold insert writeData file
  dsimp only
  rw [directory_insert]
  by_cases hdir : path.1 = (getPath sha1 data.name).1
  · rw [if_pos hdir]
    by_cases hfile : path.2 = (getPath sha1 data.name).2
    · rw [if_pos (Prod.ext hdir hfile), hfile, AList.lookup_insert]
    · rw [if_neg (fun h => hfile (congrArg Prod.snd h)), AList.lookup_insert_ne hfile, hdir]
  · rw [if_neg hdir, if_neg (fun h => hdir (congrArg Prod.fst h))]

theorem file_erase : (s.erase name).1.file path = if path = getPath sha1 name then none else s.file path := by
  unfold erase
  dsimp only
  split_ifs with hnone hpath hpath
  · rw [hpath, Option.isNone_iff_eq_none.mp hnone]
  · rfl
  · unfold file
    dsimp only
    rw [directory_insert, if_pos (congrArg Prod.fst hpath), hpath, AList.lookup_erase]
  · unfold file
    dsimp only
    rw [directory_insert]
    by_cases hdir : path.1 = (getPath sha1 name).1
    · have hfile : path.2 ≠ (getPath sha1 name).2 := fun h => hpath (Prod.ext hdir h)
      rw [if_pos hdir, AList.lookup_erase_ne hfile, hdir]
    · rw [if_neg hdir]

lemma erase_snd : (s.erase name).2 = s.has name := by
  unfold erase has
  dsimp only
  split_ifs with h
  · rw [Option.isNone_iff_eq_none] at h
    rw [h]
    rfl
  · rw [Option.isNone_iff_eq_none] at h
    exact (Option.ne_none_iff_isSome.mp h).symm

/-! ### Directories -/

/-- Erasing leaves the directories as they are. -/
lemma mem_keys_insert {dir : String} :
    dir ∈ (s.insert data).1.data.keys ↔ dir = (getPath sha1 data.name).1 ∨ dir ∈ s.data.keys := by
  unfold insert writeData
  dsimp only
  rw [← AList.mem_keys, AList.mem_insert, AList.mem_keys]

lemma mem_keys_erase {dir : String} : dir ∈ (s.erase name).1.data.keys ↔ dir ∈ s.data.keys := by
  unfold erase
  dsimp only
  split_ifs with h
  · exact Iff.rfl
  · rw [← AList.mem_keys, AList.mem_insert, AList.mem_keys, or_iff_right_iff_imp]
    rintro rfl
    by_contra hnone
    apply h
    rw [← AList.mem_keys, ← AList.lookup_eq_none] at hnone
    unfold file directory
    rw [hnone]
    rfl

lemma mem_walk {file : (String × String) × Data L} : file ∈ s.walk ↔ s.file file.1 = some file.2 := by
  unfold walk FsStorage.file directory
  simp only [List.mem_flatMap, List.mem_map]
  constructor
  · rintro ⟨dir, hdir, f, hf, rfl⟩
    rw [AList.mem_lookup_iff.mpr hdir, Option.getD_some]
    exact AList.mem_lookup_iff.mpr hf
  · intro h
    cases hdir : s.data.lookup file.1.1 with
    | none => simp [hdir] at h
    | some files =>
      rw [hdir, Option.getD_some] at h
      exact ⟨⟨_, files⟩, AList.mem_lookup_iff.mp hdir, ⟨_, file.2⟩, AList.mem_lookup_iff.mp h, rfl⟩

lemma nodup_walk (s : FsStorage L sha1) : s.walk.Nodup := by
  unfold walk
  rw [List.nodup_flatMap]
  constructor
  · intro dir _
    apply List.Nodup.map
    · intro f f' h
      obtain ⟨hpath, hdata⟩ := Prod.ext_iff.mp h
      exact Sigma.ext (congrArg Prod.snd hpath) (heq_of_eq hdata)
    · exact dir.2.nodupKeys.nodup
  · apply List.Pairwise.imp _ s.data.nodupKeys.pairwise_ne
    intro dir dir' hne
    rw [Function.onFun, List.disjoint_left]
    intro file hfile hfile'
    obtain ⟨f, -, rfl⟩ := List.mem_map.mp hfile
    obtain ⟨f', -, heq⟩ := List.mem_map.mp hfile'
    exact hne (congrArg (fun p => p.1.1) heq).symm

/-- After an insertion a walk meets the new packet and the other files. -/
theorem walk_insert : (s.insert data).1.walk.Perm
    ((getPath sha1 data.name, data) :: s.walk.filter (fun file => file.1 ≠ getPath sha1 data.name)) := by
  have hnew : (getPath sha1 data.name, data) ∉ s.walk.filter (fun file => file.1 ≠ getPath sha1 data.name) := by
    simp
  rw [List.perm_ext_iff_of_nodup (nodup_walk _) (List.nodup_cons.mpr ⟨hnew, s.nodup_walk.filter _⟩)]
  intro file
  rw [mem_walk, file_insert, List.mem_cons, List.mem_filter, mem_walk, decide_eq_true_iff]
  by_cases hpath : file.1 = getPath sha1 data.name
  · rw [if_pos hpath]
    constructor
    · intro h
      exact Or.inl (Prod.ext hpath (Option.some.inj h).symm)
    · intro h
      obtain rfl | h := h
      · rfl
      · exact absurd hpath h.2
  · rw [if_neg hpath]
    constructor
    · intro h
      exact Or.inr ⟨h, hpath⟩
    · intro h
      obtain rfl | h := h
      · exact absurd rfl hpath
      · exact h.1

theorem walk_erase : (s.erase name).1.walk.Perm (s.walk.filter (fun file => file.1 ≠ getPath sha1 name)) := by
  rw [List.perm_ext_iff_of_nodup (nodup_walk _) (s.nodup_walk.filter _)]
  intro file
  rw [mem_walk, file_erase, List.mem_filter, mem_walk, decide_eq_true_iff]
  by_cases hpath : file.1 = getPath sha1 name
  · rw [if_pos hpath]
    simp [hpath]
  · rw [if_neg hpath]
    exact (and_iff_left hpath).symm

/-- A walk meets what is under a path once, besides the other files. -/
lemma walk_perm_of_file {d : Data L} (h : s.file path = some d) :
    s.walk.Perm ((path, d) :: s.walk.filter (fun file => file.1 ≠ path)) := by
  have hnew : (path, d) ∉ s.walk.filter (fun file => file.1 ≠ path) := by simp
  rw [List.perm_ext_iff_of_nodup s.nodup_walk (List.nodup_cons.mpr ⟨hnew, s.nodup_walk.filter _⟩)]
  intro file
  rw [List.mem_cons, List.mem_filter, mem_walk, decide_eq_true_iff]
  by_cases hpath : file.1 = path
  · rw [hpath, h]
    constructor
    · intro heq
      exact Or.inl (Prod.ext hpath (Option.some.inj heq).symm)
    · intro heq
      obtain rfl | heq := heq
      · rfl
      · exact absurd rfl heq.2
  · constructor
    · intro hfile
      exact Or.inr ⟨hfile, hpath⟩
    · intro hfile
      obtain rfl | hfile := hfile
      · exact absurd rfl hpath
      · exact hfile.1

lemma filter_walk_of_none (h : s.file path = none) : s.walk.filter (fun file => file.1 ≠ path) = s.walk := by
  rw [List.filter_eq_self]
  intro file hfile
  rw [decide_eq_true_iff]
  rintro rfl
  rw [mem_walk.mp hfile] at h
  cases h

end FsStorage

end Difs
