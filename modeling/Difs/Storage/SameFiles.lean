import Difs.Storage.Prefixes

/-!
# The files of a tree

`DataStore` is the data directory as one map from digests. The tree of directories of `FsStorage`
keeps the same packets and answers in the same way.
-/

namespace Difs

variable {L : NameLibrary} {sha1 : String → String}

/-- The file of a digest lies in the directory of its first two digits. -/
def SameFiles (d : DataStore L sha1) (s : FsStorage L sha1) : Prop :=
  ∀ key, d.files.lookup key = s.file (FsStorage.keyPath key)

def DataStore.insertAll (d : DataStore L sha1) (datas : List (Data L)) : DataStore L sha1 :=
  datas.foldl (fun d data => (d.insertData data).1) d

def FsStorage.insertAll (s : FsStorage L sha1) (datas : List (Data L)) : FsStorage L sha1 :=
  datas.foldl (fun s data => (RepoStorage.insertData s data).1) s

namespace SameFiles

variable {d : DataStore L sha1} {s : FsStorage L sha1}

lemma empty : SameFiles ({} : DataStore L sha1) {} := fun _ => rfl

lemma read (h : SameFiles d s) (name : L.Name) : d.read name = s.read name := by
  rw [DataStore.read_eq, FsStorage.read_eq]
  exact h _

lemma has (h : SameFiles d s) (name : L.Name) : d.has name = s.has name := by
  rw [DataStore.has_eq, FsStorage.has_eq, h.read]

lemma insert (h : SameFiles d s) (data : Data L) : SameFiles (d.insert data).1 (s.insert data).1 := by
  intro key
  have hpath : FsStorage.getPath sha1 data.name = FsStorage.keyPath (DataStore.getPath sha1 data.name) := rfl
  unfold DataStore.insert
  dsimp only
  rw [FsStorage.file_insert, List.lookup_cons, hpath]
  by_cases hkey : key = DataStore.getPath sha1 data.name
  · rw [hkey, beq_self_eq_true, if_pos rfl]
  · rw [beq_false_of_ne hkey, if_neg (fun heq => hkey (FsStorage.keyPath_injective heq))]
    exact (SortedMap.lookup_filter_ne hkey).trans (h key)

/-- `RepoStorage::insertData` does the same to both, and returns the same. -/
theorem insertData (h : SameFiles d s) (data : Data L) :
    SameFiles (d.insertData data).1 (RepoStorage.insertData s data).1 ∧
      (d.insertData data).2 = (RepoStorage.insertData s data).2.1 := by
  unfold DataStore.insertData RepoStorage.insertData
  rw [h.has]
  cases hfull : s.has data.getFullName with
  | true => exact ⟨h, rfl⟩
  | false =>
    by_cases hid : hash (L.uri data.name) = notFound
    · simp only [DataStore.insert, FsStorage.insert, FsStorage.writeData, hid, Bool.false_eq_true, if_false, if_true]
      exact ⟨h.insert data, by simp⟩
    · simp only [DataStore.insert, FsStorage.insert, FsStorage.writeData, hid, Bool.false_eq_true, if_false]
      exact ⟨h.insert data, decide_eq_true hid⟩

lemma insertAll (h : SameFiles d s) (datas : List (Data L)) : SameFiles (d.insertAll datas) (s.insertAll datas) := by
  induction datas generalizing d s with
  | nil => exact h
  | cons data datas ih => exact ih (h.insertData data).1

end SameFiles

end Difs
