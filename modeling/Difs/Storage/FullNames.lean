import Difs.Insert.Segments
import Difs.Storage.FsStorage

/-!
# Packets by their full names

What the interface of the storage says of full names, against a file store that writes a packet
under its name without the digest.
-/

namespace Difs

inductive PacketCall (L : NameLibrary) where
  | insert (data : Data L)
  | erase (name : L.Name)
deriving DecidableEq

variable {L : NameLibrary} {sha1 : String → String}

def FsStorage.call (s : FsStorage L sha1) : PacketCall L → FsStorage L sha1
  | .insert data => (s.insert data).1
  | .erase name => (s.erase name).1

def FsStorage.afterPackets (sha1 : String → String) (calls : List (PacketCall L)) : FsStorage L sha1 :=
  calls.foldl FsStorage.call {}

/-- The packet was inserted and has not been erased by its full name since. -/
def Kept (calls : List (PacketCall L)) (d : Data L) : Prop :=
  ∃ before later, calls = before ++ .insert d :: later ∧ .erase d.getFullName ∉ later

structure KeepsByFullName (s : FsStorage L sha1) (calls : List (PacketCall L)) : Prop where
  has : ∀ d, Kept calls d → s.has d.getFullName
  read : ∀ d, Kept calls d → s.read d.getFullName = some d
  erase : ∀ d, Kept calls d → (s.erase d.getFullName).2 ∧ (s.erase d.getFullName).1.has d.getFullName = false
  others : ∀ d, Kept calls d → ∀ d', Kept calls d' → d' ≠ d →
    (s.erase d.getFullName).1.read d'.getFullName = some d'
  size : s.size = {name | ∃ d, Kept calls d ∧ name = d.getFullName}.ncard

/-- The names that the calls are about, and the full names of what they insert. -/
def usedNames (calls : List (PacketCall L)) : Set L.Name :=
  {name | .erase name ∈ calls ∨ ∃ d, .insert d ∈ calls ∧ (name = d.name ∨ name = d.getFullName)}

variable {calls : List (PacketCall L)}

lemma afterPackets_snoc (calls : List (PacketCall L)) (call : PacketCall L) :
    FsStorage.afterPackets sha1 (calls ++ [call]) = (FsStorage.afterPackets sha1 calls).call call :=
  List.foldl_concat ..

/-- A file has the name of the packet in it. -/
lemma path_of_afterPackets {path : String × String} {d : Data L}
    (h : (FsStorage.afterPackets sha1 calls).file path = some d) :
    path = FsStorage.getPath sha1 d.name ∧ .insert d ∈ calls := by
  induction calls using List.reverseRecOn with
  | nil => simp [FsStorage.afterPackets, FsStorage.file, FsStorage.directory] at h
  | append_singleton calls call ih =>
    rw [afterPackets_snoc] at h
    rw [List.mem_append, List.mem_singleton]
    cases call with
    | insert data =>
      rw [FsStorage.call, FsStorage.file_insert] at h
      split_ifs at h with hpath
      · rw [Option.some.injEq] at h
        subst h
        exact ⟨hpath, Or.inr rfl⟩
      · obtain ⟨hname, hmem⟩ := ih h
        exact ⟨hname, Or.inl hmem⟩
    | erase name =>
      rw [FsStorage.call, FsStorage.file_erase] at h
      split_ifs at h
      obtain ⟨hname, hmem⟩ := ih h
      exact ⟨hname, Or.inl hmem⟩

/-- The directory of a packet that was ever inserted is there. -/
lemma directory_of_insert (sha1 : String → String) {d : Data L} (h : .insert d ∈ calls) :
    (FsStorage.getPath sha1 d.name).1 ∈ (FsStorage.afterPackets sha1 calls).data.keys := by
  induction calls using List.reverseRecOn with
  | nil => simp at h
  | append_singleton calls call ih =>
    rw [afterPackets_snoc]
    obtain hold | hnew := List.mem_append.mp h
    · cases call with
      | insert data => exact FsStorage.mem_keys_insert.mpr (Or.inr (ih hold))
      | erase name => exact FsStorage.mem_keys_erase.mpr (ih hold)
    · rw [← List.mem_singleton.mp hnew]
      exact FsStorage.mem_keys_insert.mpr (Or.inl rfl)

lemma afterPackets_of_no_insert (h : ∀ d, .insert d ∉ calls) : FsStorage.afterPackets sha1 calls = {} := by
  induction calls using List.reverseRecOn with
  | nil => rfl
  | append_singleton calls call ih =>
    have hcalls : ∀ d, .insert d ∉ calls := fun d hd => h d (List.mem_append_left _ hd)
    rw [afterPackets_snoc, ih hcalls]
    cases call with
    | insert data => exact absurd (List.mem_append_right _ (List.mem_singleton.mpr rfl)) (h data)
    | erase name => rfl

lemma Kept.mem {d : Data L} (h : Kept calls d) : .insert d ∈ calls := by
  obtain ⟨before, later, rfl, -⟩ := h
  simp

/-- Full names find nothing that was inserted, and directories are never removed: the store
keeps packets by full name only as long as nothing is inserted. -/
theorem keepsByFullName_iff (hsha : Set.InjOn (fun name => sha1 (L.uri name)) (usedNames calls)) :
    KeepsByFullName (FsStorage.afterPackets sha1 calls) calls ↔ ∀ d, .insert d ∉ calls := by
  constructor
  · intro h d hd
    by_cases hkept : ∃ d', Kept calls d'
    · obtain ⟨d', hd'⟩ := hkept
      have hread := h.read d' hd'
      rw [FsStorage.read_eq] at hread
      have hpath := (path_of_afterPackets hread).1
      have hfull : d'.getFullName ∈ usedNames calls := Or.inr ⟨d', hd'.mem, Or.inr rfl⟩
      have hname : d'.name ∈ usedNames calls := Or.inr ⟨d', hd'.mem, Or.inl rfl⟩
      have heq := congrArg List.length (hsha hfull hname (FsStorage.keyPath_injective hpath))
      unfold Data.getFullName at heq
      rw [List.length_append, List.length_singleton] at heq
      omega
    · have hempty : {name | ∃ d', Kept calls d' ∧ name = d'.getFullName} = ∅ := by
        ext name
        simp only [Set.mem_ofPred_eq, Set.mem_empty_iff_false, iff_false]
        rintro ⟨d', hd', -⟩
        exact hkept ⟨d', hd'⟩
      have hsize := h.size
      rw [hempty, Set.ncard_empty] at hsize
      have hdirectory := directory_of_insert sha1 hd
      rw [List.eq_nil_of_length_eq_zero hsize] at hdirectory
      simp at hdirectory
  · intro h
    have hnone : ∀ d, ¬ Kept calls d := fun d hd => h d hd.mem
    have hempty : {name | ∃ d, Kept calls d ∧ name = d.getFullName} = ∅ := by
      ext name
      simp [hnone]
    rw [afterPackets_of_no_insert h]
    refine ⟨fun d hd => absurd hd (hnone d), fun d hd => absurd hd (hnone d), fun d hd => absurd hd (hnone d),
      fun d hd => absurd hd (hnone d), ?_⟩
    rw [hempty, Set.ncard_empty]
    rfl

def insertFrame : List (PacketCall plainNames) := [.insert (frame 0)]

lemma frame_names_apart : Set.InjOn (fun name => frameDigest (plainNames.uri name)) (usedNames insertFrame) := by
  have hne : frameDigest (plainNames.uri (frame 0).name) ≠ frameDigest (plainNames.uri (frame 0).getFullName) := by
    decide +kernel
  have hused : ∀ name ∈ usedNames insertFrame, name = (frame 0).name ∨ name = (frame 0).getFullName := by
    intro name hname
    obtain herase | ⟨d, hd, hname⟩ := hname
    · simp [insertFrame] at herase
    · rw [insertFrame, List.mem_singleton, PacketCall.insert.injEq] at hd
      exact hd ▸ hname
  intro name hname name' hname' heq
  obtain rfl | rfl := hused name hname <;> obtain rfl | rfl := hused name' hname'
  · rfl
  · exact absurd heq hne
  · exact absurd heq hne.symm
  · rfl

theorem frame_not_kept_by_full_name :
    ¬ KeepsByFullName (FsStorage.afterPackets frameDigest insertFrame) insertFrame := by
  rw [keepsByFullName_iff frame_names_apart]
  intro h
  exact h (frame 0) (List.mem_singleton.mpr rfl)

/-- The packet that was just inserted is not there under its full name. -/
theorem full_name_finds_nothing :
    ¬ ∀ calls, KeepsByFullName (FsStorage.afterPackets frameDigest calls) (calls : List (PacketCall plainNames)) := by
  intro h
  have hkept : Kept insertFrame (frame 0) := ⟨[], [], rfl, by simp⟩
  have hhas := (h insertFrame).has (frame 0) hkept
  exact absurd hhas (by decide +kernel)

end Difs
