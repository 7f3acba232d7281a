import Difs.Storage.FsStorage

/-!
# The document store

`MongoDBStorage`: one document for each key, replaced or added by an insertion.
-/

namespace Difs

structure MongoDBStorage (L : NameLibrary) (sha1 : String → String) where
  data : Files (Data L) := ∅
  manifest : Files ManifestJson := ∅

namespace MongoDBStorage

variable {L : NameLibrary} {sha1 : String → String}

def insert (s : MongoDBStorage L sha1) (data : Data L) : MongoDBStorage L sha1 × UInt64 :=
  ({ s with data := s.data.insert (sha1 (L.uri data.name)) data }, hash (L.uri data.name))

def insertManifest (s : MongoDBStorage L sha1) (manifest : Manifest) : MongoDBStorage L sha1 × String :=
  ({ s with manifest := s.manifest.insert (manifest.getHash sha1) (manifest.toJson sha1) }, manifest.getHash sha1)

def erase (s : MongoDBStorage L sha1) (name : L.Name) : MongoDBStorage L sha1 × Bool :=
  let key := sha1 (L.uri name)
  if (s.data.lookup key).isNone then (s, false) else ({ s with data := s.data.erase key }, true)

def eraseManifest (s : MongoDBStorage L sha1) (key : String) : MongoDBStorage L sha1 × Bool :=
  if (s.manifest.lookup key).isNone then (s, false) else ({ s with manifest := s.manifest.erase key }, true)

def read (s : MongoDBStorage L sha1) (name : L.Name) : Option (Data L) := s.data.lookup (sha1 (L.uri name))

def readManifest (s : MongoDBStorage L sha1) (key : String) : Except String (Option Manifest) :=
  Manifest.ofFile (s.manifest.lookup key)

def has (s : MongoDBStorage L sha1) (name : L.Name) : Bool := (s.data.lookup (sha1 (L.uri name))).isSome

def hasManifest (s : MongoDBStorage L sha1) (key : String) : Bool := (s.manifest.lookup key).isSome

def readDatas (s : MongoDBStorage L sha1) : List String := s.data.entries.map (fun document => L.uri document.2.name)

/-- Every document is read as a manifest, and asked for the hash that it then has. -/
def readManifests (s : MongoDBStorage L sha1) : Except String (List String) :=
  match s.manifest.entries.mapM (fun document => Manifest.fromJson document.2) with
  | none => .error "No such node (storages)"
  | some manifests => .ok (manifests.map (Manifest.getHash sha1))

def size (s : MongoDBStorage L sha1) : ℕ := s.data.entries.length

lemma erase_snd (s : MongoDBStorage L sha1) (name : L.Name) : (s.erase name).2 = s.has name := by
  unfold erase has
  dsimp only
  split_ifs with h
  · rw [Option.isNone_iff_eq_none] at h
    rw [h]
    rfl
  · rw [Option.isNone_iff_eq_none] at h
    exact (Option.ne_none_iff_isSome.mp h).symm

end MongoDBStorage

end Difs
