import Difs.Lib.SortedMap
import Difs.Names

/-!
# The packet store

The data directory of `FsStorage` and `RepoStorage::insertData` over it. A packet is written
under the digest of the URI of its name. SHA-1 is a parameter.
-/

namespace Difs

/-- A packet; `digest` is the implicit digest that ends its full name. -/
structure Data (L : NameLibrary) where
  name : L.Name
  digest : L.Component
  content : String

instance (L : NameLibrary) : DecidableEq (Data L) := by
  intro d d'
  cases d
  cases d'
  simp only [Data.mk.injEq]
  infer_instance

def Data.getFullName {L : NameLibrary} (d : Data L) : L.Name := d.name ++ [d.digest]

/-- `FsStorage::hash`; URIs are ASCII. -/
def hash (key : String) : UInt64 :=
  key.toList.foldl (fun result current => 127 * result + current.toNat.toUInt64) 12345

/-- `NOTFOUND` as an unsigned number. -/
def notFound : UInt64 := 2 ^ 64 - 1

structure DataStore (L : NameLibrary) (sha1 : String → String) where
  files : List (String × Data L) := []

namespace DataStore

variable {L : NameLibrary} {sha1 : String → String}

def getPath (sha1 : String → String) (name : L.Name) : String := sha1 (L.uri name)

def has (s : DataStore L sha1) (name : L.Name) : Bool := (s.files.lookup (getPath sha1 name)).isSome

/-- `FsStorage::insert`, which returns an id of the name. -/
def insert (s : DataStore L sha1) (data : Data L) : DataStore L sha1 × UInt64 :=
  let path := getPath sha1 data.name
  ({ files := (path, data) :: s.files.filter (fun file => file.1 ≠ path) }, hash (L.uri data.name))

/-- `FsStorage::read`. The name is read back from its URI on the way to the path. -/
def read (s : DataStore L sha1) (name : L.Name) : Option (Data L) :=
  s.files.lookup (getPath sha1 (L.ofUri (L.uri name)))

def insertData (s : DataStore L sha1) (data : Data L) : DataStore L sha1 × Bool :=
  if s.has data.getFullName then (s, true)
  else
    let (s, id) := s.insert data
    (s, id ≠ notFound)

variable {s : DataStore L sha1} {data : Data L} {name : L.Name}

lemma has_iff : s.has name ↔ ∃ d, (getPath sha1 name, d) ∈ s.files := by
  unfold has
  rw [List.lookup_isSome_iff]
  constructor
  · intro h
    obtain ⟨file, hf, hk⟩ := h
    rw [beq_iff_eq] at hk
    exact ⟨file.2, hk ▸ hf⟩
  · intro h
    obtain ⟨d, hf⟩ := h
    exact ⟨_, hf, beq_self_eq_true _⟩

lemma has_insert : (s.insert data).1.has name ↔
    getPath sha1 name = getPath sha1 data.name ∨ s.has name := by
  rw [has_iff, has_iff]
  unfold insert
  constructor
  · intro h
    obtain ⟨d, hf⟩ := h
    obtain heq | hf := List.mem_cons.mp hf
    · exact Or.inl (Prod.ext_iff.mp heq).1
    · exact Or.inr ⟨d, List.mem_of_mem_filter hf⟩
  · intro h
    by_cases hpath : getPath sha1 name = getPath sha1 data.name
    · exact ⟨data, List.mem_cons.mpr (Or.inl (by rw [hpath]))⟩
    · obtain ⟨d, hf⟩ := h.resolve_left hpath
      exact ⟨d, List.mem_cons_of_mem _ (List.mem_filter.mpr ⟨hf, decide_eq_true hpath⟩)⟩

lemma read_eq (s : DataStore L sha1) (name : L.Name) : s.read name = s.files.lookup (getPath sha1 name) := by
  unfold read
  rw [L.ofUri_uri]

lemma has_eq (s : DataStore L sha1) (name : L.Name) : s.has name = (s.read name).isSome := by
  rw [read_eq]
  rfl

/-- What is read after an insertion is the new packet, where the paths agree. -/
theorem read_insert : (s.insert data).1.read name =
    if getPath sha1 name = getPath sha1 data.name then some data else s.read name := by
  rw [read_eq, read_eq]
  unfold insert
  dsimp only
  rw [List.lookup_cons]
  split_ifs with hpath
  · rw [hpath, beq_self_eq_true]
  · rw [beq_false_of_ne hpath]
    exact SortedMap.lookup_filter_ne hpath

/-- A packet is in the store if it is there under its name or under its full name. -/
def Holds (s : DataStore L sha1) (data : Data L) : Prop := s.has data.name ∨ s.has data.getFullName

instance (s : DataStore L sha1) (data : Data L) : Decidable (s.Holds data) := inferInstanceAs (Decidable (_ ∨ _))

theorem insertData_holds : (s.insertData data).1.Holds data := by
  unfold insertData
  split
  · rename_i h
    exact Or.inr h
  · exact Or.inl (has_insert.mpr (Or.inl rfl))

lemma has_insertData_of_has (h : s.has name) : (s.insertData data).1.has name := by
  unfold insertData
  split
  · exact h
  · exact has_insert.mpr (Or.inr h)

lemma has_insertData_of_ne (h : getPath sha1 name ≠ getPath sha1 data.name) :
    (s.insertData data).1.has name = s.has name := by
  unfold insertData
  split
  · rfl
  · rw [Bool.eq_iff_iff]
    exact has_insert.trans (or_iff_right h)

/-- A packet whose full name is not in the store is read from then on, and paths of its own keep the others. -/
theorem read_insertData (hfull : s.has data.getFullName = false) : (s.insertData data).1.read name =
    if getPath sha1 name = getPath sha1 data.name then some data else s.read name := by
  unfold insertData
  rw [hfull, if_neg Bool.false_ne_true]
  exact read_insert

lemma read_insertData_of_ne (h : getPath sha1 name ≠ getPath sha1 data.name) :
    (s.insertData data).1.read name = s.read name := by
  unfold insertData
  split
  · rfl
  · exact read_insert.trans (if_neg h)

theorem Holds.insertData {d : Data L} (h : s.Holds d) : (s.insertData data).1.Holds d :=
  h.imp has_insertData_of_has has_insertData_of_has

lemma insertData_counts : (s.insertData data).2 ↔ s.has data.getFullName ∨ hash (L.uri data.name) ≠ notFound := by
  unfold insertData
  split
  · rename_i h
    simp [h]
  · rename_i h
    simp [h, insert]

end DataStore

end Difs
