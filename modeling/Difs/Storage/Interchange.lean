import Difs.Insert.Segments
import Difs.Storage.MongoDBStorage

/-!
# The two back ends side by side

The operations of `Storage` on both back ends. A shelf keeps what tells them apart: the keys of
the packets in the store, the directories that were ever made and the manifests.
-/

namespace Difs

open EventRun

inductive StorageCall (L : NameLibrary) where
  | insert (data : Data L)
  | erase (name : L.Name)
  | has (name : L.Name)
  | read (name : L.Name)
  | insertManifest (manifest : Manifest)
  | eraseManifest (key : String)
  | hasManifest (key : String)
  | readManifest (key : String)
  | readDatas
  | readManifests
  | size

/-- What an operation returns; an `error` is an exception. -/
inductive StorageResult (L : NameLibrary) where
  | id (n : UInt64)
  | key (text : String)
  | flag (b : Bool)
  | data (d : Option (Data L))
  | manifest (m : Except String (Option Manifest))
  | names (uris : Multiset String)
  | keys (texts : Except String (Multiset String))
  | count (n : ℕ)

variable {L : NameLibrary} {sha1 : String → String}

def FsStorage.perform (s : FsStorage L sha1) : StorageCall L → FsStorage L sha1 × StorageResult L
  | .insert data => ((s.insert data).1, .id (s.insert data).2)
  | .erase name => ((s.erase name).1, .flag (s.erase name).2)
  | .has name => (s, .flag (s.has name))
  | .read name => (s, .data (s.read name))
  | .insertManifest manifest => ((s.insertManifest manifest).1, .key (s.insertManifest manifest).2)
  | .eraseManifest key => ((s.eraseManifest key).1, .flag (s.eraseManifest key).2)
  | .hasManifest key => (s, .flag (s.hasManifest key))
  | .readManifest key => (s, .manifest (s.readManifest key))
  | .readDatas => (s, .names s.readDatas)
  | .readManifests => (s, .keys (.ok s.readManifests))
  | .size => (s, .count s.size)

def MongoDBStorage.perform (s : MongoDBStorage L sha1) : StorageCall L → MongoDBStorage L sha1 × StorageResult L
  | .insert data => ((s.insert data).1, .id (s.insert data).2)
  | .erase name => ((s.erase name).1, .flag (s.erase name).2)
  | .has name => (s, .flag (s.has name))
  | .read name => (s, .data (s.read name))
  | .insertManifest manifest => ((s.insertManifest manifest).1, .key (s.insertManifest manifest).2)
  | .eraseManifest key => ((s.eraseManifest key).1, .flag (s.eraseManifest key).2)
  | .hasManifest key => (s, .flag (s.hasManifest key))
  | .readManifest key => (s, .manifest (s.readManifest key))
  | .readDatas => (s, .names s.readDatas)
  | .readManifests => (s, .keys (s.readManifests.map (fun texts => (texts : Multiset String))))
  | .size => (s, .count s.size)

/-- The results of a sequence of operations. -/
def results {σ : Type} (perform : σ → StorageCall L → σ × StorageResult L) :
    σ → List (StorageCall L) → List (StorageResult L)
  | _, [] => []
  | s, call :: calls => (perform s call).2 :: results perform (perform s call).1 calls

lemma Manifest.mapM_fromJson_eq_none {es : List (Sigma fun _ : String => ManifestJson)} :
    es.mapM (fun e => fromJson e.2) = none ↔ ∃ e ∈ es, e.2.storages = none := by
  induction es with
  | nil => simp
  | cons e es ih =>
    rw [List.mapM_cons]
    cases he : fromJson e.2 with
    | none =>
      have hstorages : e.2.storages = none := Option.map_eq_none_iff.mp he
      exact iff_of_true rfl ⟨e, List.mem_cons_self, hstorages⟩
    | some manifest =>
      obtain ⟨repos, hrepos, -⟩ := Option.map_eq_some_iff.mp he
      cases hes : es.mapM (fun e => fromJson e.2) with
      | none => simp [← ih, hes]
      | some manifests => simp [← ih, hes, hrepos]

lemma Manifest.mapM_fromJson_eq_some {es : List (Sigma fun _ : String => ManifestJson)} {manifests : List Manifest}
    (h : es.mapM (fun e => fromJson e.2) = some manifests) :
    (∀ e ∈ es, e.2.storages.isSome) ∧ manifests.map (getHash sha1) = es.map (fun e => sha1 e.2.name) := by
  induction es generalizing manifests with
  | nil =>
    rw [List.mapM_nil] at h
    rw [← Option.some.inj h]
    simp
  | cons e es ih =>
    rw [List.mapM_cons] at h
    simp only [Option.bind_eq_bind, Option.bind_eq_some_iff, Option.pure_def, Option.some.injEq] at h
    obtain ⟨manifest, he, rest, hrest, rfl⟩ := h
    obtain ⟨hsome, hmap⟩ := ih hrest
    obtain ⟨repos, hrepos, -⟩ := Option.map_eq_some_iff.mp he
    rw [List.forall_mem_cons, List.map_cons, List.map_cons, hmap, getHash_of_fromJson he]
    refine ⟨⟨?_, hsome⟩, rfl⟩
    rw [hrepos]
    rfl

/-! ### What tells the back ends apart -/

structure Shelf where
  keys : Finset String := ∅
  directories : Finset String := ∅
  manifests : Files ManifestJson := ∅

namespace Shelf

def after (sha1 : String → String) (s : Shelf) : StorageCall L → Shelf
  | .insert data =>
    let key := sha1 (L.uri data.name)
    { s with keys := insert key s.keys, directories := insert (FsStorage.keyPath key).1 s.directories }
  | .erase name => { s with keys := s.keys.erase (sha1 (L.uri name)) }
  | .insertManifest manifest =>
    { s with manifests := s.manifests.insert (manifest.getHash sha1) (manifest.toJson sha1) }
  | .eraseManifest key => { s with manifests := s.manifests.erase key }
  | _ => s

def step (sha1 : String → String) (s : Shelf) (call : StorageCall L) : Option Shelf := some (s.after sha1 call)

/-- As many directories as packets; and manifests with storages whose keys are, as a whole, the
digests of their names. -/
def Alike (sha1 : String → String) (s : Shelf) : StorageCall L → Prop
  | .size => s.directories.card = s.keys.card
  | .readManifests => (∀ e ∈ s.manifests.entries, e.2.storages.isSome) ∧
      (s.manifests.entries.map (fun e => sha1 e.2.name) : Multiset String) = s.manifests.keys
  | _ => True

end Shelf

/-- Both back ends hold the files that the shelf knows of. -/
structure SameContents (s : FsStorage L sha1) (m : MongoDBStorage L sha1) (shelf : Shelf) : Prop where
  file : ∀ key, s.file (FsStorage.keyPath key) = m.data.lookup key
  path : ∀ path data, s.file path = some data → ∃ key, FsStorage.keyPath key = path
  keys : ∀ key, key ∈ shelf.keys ↔ key ∈ m.data.keys
  directories : ∀ dir, dir ∈ shelf.directories ↔ dir ∈ s.data.keys
  manifest : s.manifest = m.manifest
  manifests : shelf.manifests = m.manifest

namespace SameContents

variable {s : FsStorage L sha1} {m : MongoDBStorage L sha1} {shelf : Shelf}

lemma read_eq (h : SameContents s m shelf) (name : L.Name) : s.read name = m.read name := by
  rw [FsStorage.read_eq]
  exact h.file _

lemma has_eq (h : SameContents s m shelf) (name : L.Name) : s.has name = m.has name := congrArg Option.isSome (h.file _)

lemma size_eq_iff (h : SameContents s m shelf) : s.size = m.size ↔ shelf.directories.card = shelf.keys.card := by
  have hdirectories : shelf.directories = s.data.keys.toFinset := by
    ext dir
    rw [List.mem_toFinset, h.directories]
  have hkeys : shelf.keys = m.data.keys.toFinset := by
    ext key
    rw [List.mem_toFinset, h.keys]
  have hlength : m.size = m.data.keys.length := (List.length_map _).symm
  rw [hdirectories, hkeys, List.toFinset_card_of_nodup s.data.keys_nodup, List.toFinset_card_of_nodup m.data.keys_nodup,
    hlength]
  exact Iff.rfl

/-- The walk over the directories and the collection meet the same packets. -/
lemma readDatas_perm (h : SameContents s m shelf) : s.readDatas.Perm m.readDatas := by
  have hnodup : (m.data.entries.map (fun e => (FsStorage.keyPath e.1, e.2))).Nodup := by
    apply List.Nodup.map
    · intro e e' heq
      obtain ⟨hkey, hdata⟩ := Prod.ext_iff.mp heq
      exact Sigma.ext (FsStorage.keyPath_injective hkey) (heq_of_eq hdata)
    · exact m.data.nodupKeys.nodup
  have hperm : s.walk.Perm (m.data.entries.map (fun e => (FsStorage.keyPath e.1, e.2))) := by
    rw [List.perm_ext_iff_of_nodup s.nodup_walk hnodup]
    intro file
    rw [FsStorage.mem_walk, List.mem_map]
    constructor
    · intro hfile
      obtain ⟨key, hkey⟩ := h.path file.1 file.2 hfile
      rw [← hkey, h.file] at hfile
      exact ⟨⟨key, file.2⟩, AList.mem_lookup_iff.mp hfile, Prod.ext hkey rfl⟩
    · rintro ⟨e, he, rfl⟩
      dsimp only
      rw [h.file]
      exact AList.mem_lookup_iff.mpr he
  have hmap := hperm.map (fun file => L.uri file.2.name)
  rw [List.map_map] at hmap
  exact hmap

lemma insert (h : SameContents s m shelf) (data : Data L) :
    SameContents (s.insert data).1 (m.insert data).1 (shelf.after sha1 (.insert data)) where
  file key := by
    rw [FsStorage.file_insert]
    unfold FsStorage.getPath MongoDBStorage.insert
    dsimp only
    by_cases hkey : key = sha1 (L.uri data.name)
    · rw [if_pos (congrArg _ hkey), hkey, AList.lookup_insert]
    · rw [if_neg (fun heq => hkey (FsStorage.keyPath_injective heq)), AList.lookup_insert_ne hkey, h.file]
  path path d hfile := by
    rw [FsStorage.file_insert] at hfile
    split_ifs at hfile with hpath
    · exact ⟨_, hpath.symm⟩
    · exact h.path path d hfile
  keys key := by
    have hmem : key ∈ (m.insert data).1.data.keys ↔ key = sha1 (L.uri data.name) ∨ key ∈ m.data.keys :=
      AList.mem_insert m.data
    rw [hmem, ← h.keys]
    exact Finset.mem_insert
  directories dir := by
    unfold Shelf.after
    dsimp only
    rw [Finset.mem_insert, h.directories, FsStorage.mem_keys_insert]
    rfl
  manifest := h.manifest
  manifests := h.manifests

lemma erase (h : SameContents s m shelf) (name : L.Name) :
    SameContents (s.erase name).1 (m.erase name).1 (shelf.after sha1 (.erase name)) := by
  have hdata : (m.erase name).1.data = m.data.erase (sha1 (L.uri name)) := by
    unfold MongoDBStorage.erase
    dsimp only
    split_ifs with hnone
    · rw [Option.isNone_iff_eq_none, AList.lookup_eq_none, AList.mem_keys] at hnone
      apply AList.ext
      exact (List.kerase_of_notMem_keys hnone).symm
    · rfl
  have hmanifest : (m.erase name).1.manifest = m.manifest := by
    unfold MongoDBStorage.erase
    dsimp only
    split_ifs <;> rfl
  have hmanifest' : (s.erase name).1.manifest = s.manifest := by
    unfold FsStorage.erase
    dsimp only
    split_ifs <;> rfl
  constructor
  · intro key
    rw [FsStorage.file_erase, hdata]
    unfold FsStorage.getPath
    by_cases hkey : key = sha1 (L.uri name)
    · rw [if_pos (congrArg _ hkey), hkey, AList.lookup_erase]
    · rw [if_neg (fun heq => hkey (FsStorage.keyPath_injective heq)), AList.lookup_erase_ne hkey, h.file]
  · intro path d hfile
    rw [FsStorage.file_erase] at hfile
    split_ifs at hfile with hpath
    exact h.path path d hfile
  · intro key
    rw [hdata, AList.keys_erase, m.data.keys_nodup.mem_erase_iff, ← h.keys]
    exact Finset.mem_erase
  · intro dir
    rw [FsStorage.mem_keys_erase]
    exact h.directories dir
  · rw [hmanifest, hmanifest', h.manifest]
  · rw [hmanifest]
    exact h.manifests

lemma of_manifest (h : SameContents s m shelf) (manifest : Files ManifestJson) :
    SameContents ({ s with manifest := manifest } : FsStorage L sha1) { m with manifest := manifest }
      { shelf with manifests := manifest } where
  file := h.file
  path := h.path
  keys := h.keys
  directories := h.directories
  manifest := rfl
  manifests := rfl

lemma erase_of_not_mem {α : Type} {files : Files α} {key : String} (h : (files.lookup key).isNone) :
    files.erase key = files := by
  rw [Option.isNone_iff_eq_none, AList.lookup_eq_none, AList.mem_keys] at h
  apply AList.ext
  exact List.kerase_of_notMem_keys h

theorem perform (h : SameContents s m shelf) (call : StorageCall L) :
    SameContents (s.perform call).1 (m.perform call).1 (shelf.after sha1 call) := by
  cases call with
  | insert data => exact h.insert data
  | erase name => exact h.erase name
  | insertManifest manifest =>
    have hfiles := h.of_manifest (m.manifest.insert (manifest.getHash sha1) (manifest.toJson sha1))
    unfold FsStorage.perform MongoDBStorage.perform Shelf.after FsStorage.insertManifest MongoDBStorage.insertManifest
    dsimp only
    rw [h.manifest, h.manifests]
    exact hfiles
  | eraseManifest key =>
    have hfiles := h.of_manifest (m.manifest.erase key)
    unfold FsStorage.perform MongoDBStorage.perform Shelf.after FsStorage.eraseManifest MongoDBStorage.eraseManifest
    dsimp only
    rw [h.manifest, h.manifests]
    split_ifs with hnone
    · rw [erase_of_not_mem hnone] at hfiles ⊢
      exact ⟨h.file, h.path, h.keys, h.directories, h.manifest, rfl⟩
    · exact hfiles
  | _ => exact h

lemma readManifests_eq_iff (h : SameContents s m shelf) :
    Except.ok (s.readManifests : Multiset String) = m.readManifests.map (fun texts => (texts : Multiset String)) ↔
      (∀ e ∈ shelf.manifests.entries, e.2.storages.isSome) ∧
        (shelf.manifests.entries.map (fun e => sha1 e.2.name) : Multiset String) = shelf.manifests.keys := by
  have hkeys : s.readManifests = shelf.manifests.keys := by rw [h.manifests, ← h.manifest, FsStorage.readManifests]
  rw [hkeys, h.manifests]
  unfold MongoDBStorage.readManifests
  cases hread : m.manifest.entries.mapM (fun e => Manifest.fromJson e.2) with
  | none =>
    apply iff_of_false
    · simp [Except.map]
    · intro hstored
      rw [Manifest.mapM_fromJson_eq_none] at hread
      obtain ⟨e, he, hnone⟩ := hread
      have hsome := hstored.1 e he
      rw [hnone] at hsome
      cases hsome
  | some manifests =>
    obtain ⟨hsome, hhashes⟩ := Manifest.mapM_fromJson_eq_some hread
    change Except.ok _ = Except.ok _ ↔ _
    rw [Except.ok.injEq, hhashes, and_iff_right hsome]
    exact eq_comm

theorem perform_eq_iff (h : SameContents s m shelf) (call : StorageCall L) :
    (s.perform call).2 = (m.perform call).2 ↔ Shelf.Alike sha1 shelf call := by
  have hmanifest := h.manifest
  cases call with
  | insert data => exact iff_of_true rfl trivial
  | insertManifest manifest => exact iff_of_true rfl trivial
  | erase name =>
    have herase : (s.erase name).2 = (m.erase name).2 := by rw [FsStorage.erase_snd, MongoDBStorage.erase_snd, h.has_eq]
    exact iff_of_true (congrArg StorageResult.flag herase) trivial
  | has name => exact iff_of_true (congrArg StorageResult.flag (h.has_eq name)) trivial
  | read name => exact iff_of_true (congrArg StorageResult.data (h.read_eq name)) trivial
  | eraseManifest key =>
    have herase : (s.eraseManifest key).2 = (m.eraseManifest key).2 := by
      unfold FsStorage.eraseManifest MongoDBStorage.eraseManifest
      rw [hmanifest]
      split_ifs <;> rfl
    exact iff_of_true (congrArg StorageResult.flag herase) trivial
  | hasManifest key =>
    have hhas : s.hasManifest key = m.hasManifest key := by
      rw [FsStorage.hasManifest, hmanifest, MongoDBStorage.hasManifest]
    exact iff_of_true (congrArg StorageResult.flag hhas) trivial
  | readManifest key =>
    have hread : s.readManifest key = m.readManifest key := by
      rw [FsStorage.readManifest, hmanifest, MongoDBStorage.readManifest]
    exact iff_of_true (congrArg StorageResult.manifest hread) trivial
  | readDatas => exact iff_of_true (congrArg StorageResult.names (Multiset.coe_eq_coe.mpr h.readDatas_perm)) trivial
  | readManifests =>
    simp only [FsStorage.perform, MongoDBStorage.perform, StorageResult.keys.injEq]
    exact h.readManifests_eq_iff
  | size =>
    simp only [FsStorage.perform, MongoDBStorage.perform, StorageResult.count.injEq]
    exact h.size_eq_iff

end SameContents

theorem results_eq_iff_of_same {s : FsStorage L sha1} {m : MongoDBStorage L sha1} {shelf : Shelf}
    (h : SameContents s m shelf) (calls : List (StorageCall L)) :
    results FsStorage.perform s calls = results MongoDBStorage.perform m calls ↔
      Meets (Shelf.step sha1) (Shelf.Alike sha1) shelf calls := by
  induction calls generalizing s m shelf with
  | nil => exact iff_of_true rfl trivial
  | cons call calls ih =>
    simp only [results, Meets, Shelf.step, Option.some.injEq, forall_eq', List.cons.injEq]
    rw [h.perform_eq_iff, ih (h.perform call)]

lemma same_start : SameContents ({} : FsStorage L sha1) ({} : MongoDBStorage L sha1) {} where
  file _ := rfl
  path path data h := by simp [FsStorage.file, FsStorage.directory] at h
  keys _ := by simp
  directories _ := by simp
  manifest := rfl
  manifests := rfl

/-- The back ends return the same at every operation exactly when every `size` finds as many
packets stored as directories were ever made, and every `readManifests` finds manifests with
storages under the digests of their names. -/
theorem results_eq_iff (L : NameLibrary) (sha1 : String → String) (calls : List (StorageCall L)) :
    results FsStorage.perform ({} : FsStorage L sha1) calls =
        results MongoDBStorage.perform ({} : MongoDBStorage L sha1) calls ↔
      Meets (Shelf.step sha1) (Shelf.Alike sha1) {} calls := results_eq_iff_of_same same_start calls

def StorageResult.sized : StorageResult L → Option ℕ
  | .count n => some n
  | _ => none

def StorageResult.threw : StorageResult L → Bool
  | .keys (.error _) => true
  | _ => false

def eraseFrame : List (StorageCall plainNames) := [.insert (frame 0), .erase (frame 0).name, .size]

/-- A manifest that no node stores a segment of. -/
def listFilm : List (StorageCall plainNames) :=
  [.insertManifest { mName := "/film", mStartBlockId := 0, mEndBlockId := 2 }, .readManifests]

theorem back_ends_differ :
    ¬ (∀ calls, results FsStorage.perform ({} : FsStorage plainNames frameDigest) calls =
      results MongoDBStorage.perform ({} : MongoDBStorage plainNames frameDigest) calls) ∧
    (results FsStorage.perform ({} : FsStorage plainNames frameDigest) eraseFrame).map StorageResult.sized =
        [none, none, some 1] ∧
    (results MongoDBStorage.perform ({} : MongoDBStorage plainNames frameDigest) eraseFrame).map StorageResult.sized =
      [none, none, some 0] ∧
    (results FsStorage.perform ({} : FsStorage plainNames frameDigest) listFilm).map StorageResult.threw =
      [false, false] ∧
    (results MongoDBStorage.perform ({} : MongoDBStorage plainNames frameDigest) listFilm).map StorageResult.threw =
      [false, true] := by
  have hfs : (results FsStorage.perform ({} : FsStorage plainNames frameDigest) eraseFrame).map StorageResult.sized =
      [none, none, some 1] := by decide +kernel
  have hmongo : (results MongoDBStorage.perform ({} : MongoDBStorage plainNames frameDigest) eraseFrame).map
      StorageResult.sized =
      [none, none, some 0] := by decide +kernel
  refine ⟨?_, hfs, hmongo, by decide +kernel, by decide +kernel⟩
  intro h
  rw [h eraseFrame, hmongo] at hfs
  simp at hfs

end Difs
