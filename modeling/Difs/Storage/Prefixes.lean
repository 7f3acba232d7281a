import Difs.Insert.Segments
import Difs.Storage.FsStorage

/-!
# Registered prefixes

`RepoStorage` signals what it did to the store, and `ReadHandle` counts the packets below each
prefix that it has registered. A use count is a 32-bit `int`.
-/

namespace Difs

open EventRun

variable {L : NameLibrary} {sha1 : String → String}

/-- The sum is one of unsigned numbers, so that a name that is too short is taken whole. -/
def getPrefix (name : L.Name) (nComponents : ℤ) : L.Name :=
  if nComponents < 0 then name.take (((name.length : ℤ) + nComponents) % 2 ^ 64).toNat
  else name.take nComponents.toNat

/-- The conversion of a `size_t` to an `ssize_t`. -/
def toSsize (n : UInt64) : ℤ := (n.toNat : ℤ).bmod (2 ^ 64)

/-- A negative number of components drops components at the end of a name that has as many. -/
lemma getPrefix_neg {k : UInt64} {name : L.Name} (hpos : 0 < k.toNat) (hk : k.toNat ≤ 2 ^ 63)
    (hle : k.toNat ≤ name.length)
    (hname : name.length < 2 ^ 64) : getPrefix name (toSsize (-k)) = name.take (name.length - k.toNat) := by
  have hneg : (-k).toNat = 2 ^ 64 - k.toNat := by
    have hmod : 2 ^ 64 - k.toNat < 2 ^ 64 := by omega
    exact (UInt64.toNat_neg k).trans (Nat.mod_eq_of_lt hmod)
  have hcast : ((-k).toNat : ℤ) = ((2 ^ 64 : ℕ) : ℤ) - k.toNat := by
    rw [hneg, Nat.cast_sub (by omega)]
  have hbmod : toSsize (-k) = -(k.toNat : ℤ) := by
    unfold toSsize
    rw [hcast, Int.sub_bmod_left]
    apply Int.bmod_eq_of_le
    · norm_num
      omega
    · norm_num
      omega
  have hlength : (((name.length : ℤ) + -(k.toNat : ℤ)) % 2 ^ 64).toNat = name.length - k.toNat := by
    rw [Int.emod_eq_of_lt (by omega) (by omega)]
    omega
  rw [hbmod, getPrefix, if_pos (by omega), hlength]

inductive StorageSignal (L : NameLibrary) where
  | afterDataInsertion (name : L.Name)
  | afterDataDeletion (name : L.Name)

namespace RepoStorage

def insertData (s : FsStorage L sha1) (data : Data L) : FsStorage L sha1 × Bool × List (StorageSignal L) :=
  if s.has data.getFullName then (s, true, [])
  else
    let (s, id) := s.insert data
    if id = notFound then (s, false, []) else (s, true, [.afterDataInsertion data.name])

/-- A deletion signals nothing. -/
def deleteData (s : FsStorage L sha1) (name : L.Name) : FsStorage L sha1 × ℤ × List (StorageSignal L) :=
  let (s, erased) := s.erase name
  if erased then (s, 1, []) else (s, -1, [])

end RepoStorage

/-- The registered prefixes with their use counts. -/
structure ReadPrefixes (L : NameLibrary) where
  mPrefixSubsetLength : UInt64
  mInsertedDataPrefixes : AList (fun _ : L.Name => ℤ) := ∅

namespace ReadPrefixes

def disabledSubsetLength : UInt64 := -1

def prefixToRegister (h : ReadPrefixes L) (name : L.Name) : L.Name := getPrefix name (toSsize (-h.mPrefixSubsetLength))

def onDataDeleted (h : ReadPrefixes L) (name : L.Name) : ReadPrefixes L :=
  let registered := getPrefix name (toSsize (-(h.mPrefixSubsetLength + 1)))
  match h.mInsertedDataPrefixes.lookup registered with
  | none => h
  | some useCount =>
    let useCount := (useCount - 1).bmod (2 ^ 32)
    if useCount ≤ 0 then { h with mInsertedDataPrefixes := h.mInsertedDataPrefixes.erase registered }
    else { h with mInsertedDataPrefixes := h.mInsertedDataPrefixes.insert registered useCount }

def onDataInserted (h : ReadPrefixes L) (name : L.Name) : ReadPrefixes L :=
  match h.mInsertedDataPrefixes.lookup (h.prefixToRegister name) with
  | none => { h with mInsertedDataPrefixes := h.mInsertedDataPrefixes.insert (h.prefixToRegister name) 1 }
  | some useCount =>
    { h with
      mInsertedDataPrefixes :=
        h.mInsertedDataPrefixes.insert (h.prefixToRegister name) ((useCount + 1).bmod (2 ^ 32)) }

/-- The signals are connected only where the registration subset is enabled. -/
def onSignal (h : ReadPrefixes L) (signal : StorageSignal L) : ReadPrefixes L :=
  if h.mPrefixSubsetLength = disabledSubsetLength then h
  else
    match signal with
    | .afterDataInsertion name => h.onDataInserted name
    | .afterDataDeletion name => h.onDataDeleted name

end ReadPrefixes

inductive RepoCall (L : NameLibrary) where
  | insertData (data : Data L)
  | deleteData (name : L.Name)

/-- The name without its last `n` components. -/
def shortened (n : UInt64) (name : L.Name) : L.Name := name.take (name.length - n.toNat)

/-- The number of packets in the store below a prefix. -/
def packetsBelow (n : UInt64) (s : FsStorage L sha1) (p : L.Name) : ℕ :=
  s.walk.countP (fun file => shortened n file.2.name = p)

/-- The store and the handle that listens to it. -/
structure ListeningStore (L : NameLibrary) (sha1 : String → String) where
  store : FsStorage L sha1 := {}
  readHandle : ReadPrefixes L

namespace ListeningStore

def after (s : ListeningStore L sha1) : RepoCall L → ListeningStore L sha1
  | .insertData data =>
    let (store, _, signals) := RepoStorage.insertData s.store data
    { store := store, readHandle := signals.foldl ReadPrefixes.onSignal s.readHandle }
  | .deleteData name =>
    let (store, _, signals) := RepoStorage.deleteData s.store name
    { store := store, readHandle := signals.foldl ReadPrefixes.onSignal s.readHandle }

def step (s : ListeningStore L sha1) (call : RepoCall L) : Option (ListeningStore L sha1) := some (s.after call)

/-- A prefix is registered while there are packets below it, with their number. -/
def Mirrors (s : ListeningStore L sha1) : Prop :=
  ∀ p, s.readHandle.mInsertedDataPrefixes.lookup p =
    if packetsBelow s.readHandle.mPrefixSubsetLength s.store p = 0 then none
    else some (packetsBelow s.readHandle.mPrefixSubsetLength s.store p : ℤ)

/-- No deletion finds its packet. An insertion finds its packet under the full name, or is of a
name that is not in the store yet, whose prefix is registered as it is and has room for another
use. A name whose id is that of a failure has to replace a packet below the same prefix. -/
def Notified (s : ListeningStore L sha1) : RepoCall L → Prop
  | .insertData data => s.store.has data.getFullName ∨
      if hash (L.uri data.name) = notFound then
        ∃ old, s.store.read data.name = some old ∧
          shortened s.readHandle.mPrefixSubsetLength old.name = shortened s.readHandle.mPrefixSubsetLength data.name
      else
        s.store.has data.name = false ∧
          s.readHandle.prefixToRegister data.name = shortened s.readHandle.mPrefixSubsetLength data.name ∧
          packetsBelow s.readHandle.mPrefixSubsetLength s.store
            (shortened s.readHandle.mPrefixSubsetLength data.name) + 1 < 2 ^ 31
  | .deleteData name => s.store.has name = false

end ListeningStore

/-! ### Counting -/

section Counting

variable {n : UInt64} {s : FsStorage L sha1} {data : Data L} {name p : L.Name}

/-- One if a packet below the prefix is in the store under a name. -/
def oldBelow (n : UInt64) (s : FsStorage L sha1) (name p : L.Name) : ℕ :=
  match s.read name with
  | none => 0
  | some old => if shortened n old.name = p then 1 else 0

lemma packetsBelow_eq (n : UInt64) (s : FsStorage L sha1) (name p : L.Name) : packetsBelow n s p =
    (s.walk.filter (fun file => file.1 ≠ FsStorage.getPath sha1 name)).countP
      (fun file => shortened n file.2.name = p) + oldBelow n s name p := by
  unfold packetsBelow oldBelow
  rw [FsStorage.read_eq]
  cases hfile : s.file (FsStorage.getPath sha1 name) with
  | none => rw [FsStorage.filter_walk_of_none hfile, Nat.add_zero]
  | some old =>
    rw [(FsStorage.walk_perm_of_file hfile).countP_eq, List.countP_cons]
    simp only [decide_eq_true_eq]

lemma packetsBelow_insert (n : UInt64) (s : FsStorage L sha1) (data : Data L) (p : L.Name) :
    packetsBelow n (s.insert data).1 p + oldBelow n s data.name p =
    packetsBelow n s p + if shortened n data.name = p then 1 else 0 := by
  rw [packetsBelow_eq n s data.name p]
  unfold packetsBelow
  rw [FsStorage.walk_insert.countP_eq, List.countP_cons]
  simp only [decide_eq_true_eq]
  omega

lemma packetsBelow_erase (n : UInt64) (s : FsStorage L sha1) (name p : L.Name) :
    packetsBelow n (s.erase name).1 p + oldBelow n s name p = packetsBelow n s p := by
  rw [packetsBelow_eq n s name p]
  unfold packetsBelow
  rw [FsStorage.walk_erase.countP_eq]

lemma oldBelow_le (n : UInt64) (s : FsStorage L sha1) (name p : L.Name) : oldBelow n s name p ≤ 1 := by
  unfold oldBelow
  split
  · omega
  · split_ifs <;> omega

lemma oldBelow_of_has_eq_false (h : s.has name = false) : oldBelow n s name p = 0 := by
  rw [FsStorage.has_eq, Option.isSome_eq_false_iff, Option.isNone_iff_eq_none] at h
  unfold oldBelow
  rw [h]

lemma oldBelow_of_read {old : Data L} (h : s.read name = some old) :
    oldBelow n s name p = if shortened n old.name = p then 1 else 0 := by
  unfold oldBelow
  rw [h]

lemma exists_read_of_has (h : ¬ s.has name = false) : ∃ old, s.read name = some old := by
  rw [Bool.not_eq_false, FsStorage.has_eq, Option.isSome_iff_exists] at h
  exact h

/-- An insertion leaves the counts as they are where it replaces a packet below the same prefix. -/
lemma packetsBelow_insert_eq_iff (n : UInt64) (s : FsStorage L sha1) (data : Data L) :
    (∀ p, packetsBelow n (s.insert data).1 p = packetsBelow n s p) ↔
      ∃ old, s.read data.name = some old ∧ shortened n old.name = shortened n data.name := by
  have hcount (p : L.Name) := packetsBelow_insert n s data p
  constructor
  · intro hsame
    have hold := hcount (shortened n data.name)
    rw [hsame, if_pos rfl] at hold
    by_cases hhas : s.has data.name = false
    · rw [oldBelow_of_has_eq_false hhas] at hold
      omega
    · obtain ⟨old, hread⟩ := exists_read_of_has hhas
      refine ⟨old, hread, ?_⟩
      by_contra hne
      rw [oldBelow_of_read hread, if_neg hne] at hold
      omega
  · rintro ⟨old, hread, hname⟩ p
    have hp := hcount p
    rw [oldBelow_of_read hread, hname] at hp
    exact Nat.add_right_cancel hp

/-- A deletion leaves the counts as they are where it finds nothing. -/
lemma packetsBelow_erase_eq_iff (n : UInt64) (s : FsStorage L sha1) (name : L.Name) :
    (∀ p, packetsBelow n (s.erase name).1 p = packetsBelow n s p) ↔ s.has name = false := by
  have hcount (p : L.Name) := packetsBelow_erase n s name p
  constructor
  · intro hsame
    by_contra hhas
    obtain ⟨old, hread⟩ := exists_read_of_has hhas
    have hold := hcount (shortened n old.name)
    rw [oldBelow_of_read hread, hsame, if_pos rfl] at hold
    omega
  · intro hhas p
    have hp := hcount p
    rw [oldBelow_of_has_eq_false hhas] at hp
    omega

/-- A count as the map of prefixes keeps it. -/
def useCount (count : ℕ) : Option ℤ := if count = 0 then none else some (count : ℤ)

lemma useCount_injective : Function.Injective useCount := by
  intro m m' h
  unfold useCount at h
  split_ifs at h <;> simp at h <;> omega

/-- Another use of a prefix is counted right if the sum is an `int`. -/
lemma useCount_succ_iff {m m' : ℕ} (hm : m' ≤ m + 1) (hm' : m ≤ m' + 1) :
    some (((m : ℤ) + 1).bmod (2 ^ 32)) = useCount m' ↔ m' = m + 1 ∧ m + 1 < 2 ^ 31 := by
  unfold useCount
  constructor
  · intro h
    split_ifs at h with hzero
    rw [Option.some.injEq] at h
    have hlt : ((m : ℤ) + 1).bmod (2 ^ 32) < ((2 ^ 32 : ℕ) + 1) / 2 := Int.bmod_lt (by norm_num)
    have hsplit := Int.bmod_add_bdiv ((m : ℤ) + 1) (2 ^ 32)
    rw [h] at hlt hsplit
    push_cast at hlt hsplit
    omega
  · rintro ⟨rfl, hlt⟩
    rw [if_neg (by omega), Option.some.injEq, Int.bmod_eq_of_le (by omega) (by omega)]
    omega

end Counting

namespace ListeningStore

variable {s : ListeningStore L sha1} {data : Data L} {name : L.Name}

lemma mirrors_iff : s.Mirrors ↔ ∀ p, s.readHandle.mInsertedDataPrefixes.lookup p =
    useCount (packetsBelow s.readHandle.mPrefixSubsetLength s.store p) := Iff.rfl

/-- Nothing was signalled: the counts have to be what they were. -/
lemma mirrors_silent_iff {store : FsStorage L sha1} (h : s.Mirrors) :
    Mirrors { s with store := store } ↔
      ∀ p, packetsBelow s.readHandle.mPrefixSubsetLength store p =
        packetsBelow s.readHandle.mPrefixSubsetLength s.store p := by
  rw [mirrors_iff] at h ⊢
  simp only [h]
  constructor
  · intro hcounts p
    exact (useCount_injective (hcounts p)).symm
  · intro hcounts p
    rw [hcounts p]

lemma lookup_onDataInserted (h : s.Mirrors) (p : L.Name) :
    (s.readHandle.onDataInserted name).mInsertedDataPrefixes.lookup p =
      if p = s.readHandle.prefixToRegister name then
        some (((packetsBelow s.readHandle.mPrefixSubsetLength s.store p : ℤ) + 1).bmod (2 ^ 32))
      else useCount (packetsBelow s.readHandle.mPrefixSubsetLength s.store p) := by
  rw [mirrors_iff] at h
  unfold ReadPrefixes.onDataInserted
  split
  · rename_i hnone
    rw [h] at hnone
    by_cases hp : p = s.readHandle.prefixToRegister name
    · have hzero : packetsBelow s.readHandle.mPrefixSubsetLength s.store p = 0 := by
        rw [hp]
        unfold useCount at hnone
        split_ifs at hnone with hzero
        exact hzero
      rw [if_pos hp, hzero]
      dsimp only
      rw [hp, AList.lookup_insert]
      rfl
    · rw [if_neg hp]
      dsimp only
      rw [AList.lookup_insert_ne hp, h]
  · rename_i count hsome
    rw [h] at hsome
    by_cases hp : p = s.readHandle.prefixToRegister name
    · have hcount : count = packetsBelow s.readHandle.mPrefixSubsetLength s.store p := by
        rw [hp]
        unfold useCount at hsome
        split_ifs at hsome
        exact (Option.some.inj hsome).symm
      rw [if_pos hp, ← hcount]
      dsimp only
      rw [hp, AList.lookup_insert]
    · rw [if_neg hp]
      dsimp only
      rw [AList.lookup_insert_ne hp, h]

lemma length_onDataInserted :
    (s.readHandle.onDataInserted name).mPrefixSubsetLength = s.readHandle.mPrefixSubsetLength := by
  unfold ReadPrefixes.onDataInserted
  split <;> rfl

/-- An insertion was signalled: the prefix has to be that of the packet, which has to be new. -/
lemma mirrors_signalled_iff (h : s.Mirrors) :
    Mirrors { store := (s.store.insert data).1, readHandle := s.readHandle.onDataInserted data.name } ↔
      s.store.has data.name = false ∧
        s.readHandle.prefixToRegister data.name = shortened s.readHandle.mPrefixSubsetLength data.name ∧
        packetsBelow s.readHandle.mPrefixSubsetLength s.store
          (shortened s.readHandle.mPrefixSubsetLength data.name) + 1 < 2 ^ 31 := by
  rw [mirrors_iff]
  dsimp only
  rw [length_onDataInserted]
  simp only [lookup_onDataInserted h]
  generalize s.readHandle.mPrefixSubsetLength = n
  have hcount (p : L.Name) := packetsBelow_insert n s.store data p
  have hle (p : L.Name) := oldBelow_le n s.store data.name p
  constructor
  · intro hmirrors
    have hregistered := hmirrors (s.readHandle.prefixToRegister data.name)
    rw [if_pos rfl] at hregistered
    have hold := hcount (s.readHandle.prefixToRegister data.name)
    have hone := hle (s.readHandle.prefixToRegister data.name)
    rw [useCount_succ_iff (by split_ifs at hold <;> omega) (by split_ifs at hold <;> omega)] at hregistered
    have hname : shortened n data.name = s.readHandle.prefixToRegister data.name := by
      by_contra hne
      rw [if_neg hne] at hold
      omega
    rw [hname]
    refine ⟨?_, rfl, hregistered.2⟩
    by_contra hhas
    obtain ⟨old, hread⟩ := exists_read_of_has hhas
    by_cases hp : shortened n old.name = s.readHandle.prefixToRegister data.name
    · rw [if_pos hname, oldBelow_of_read hread, if_pos hp] at hold
      omega
    · have hother := hmirrors (shortened n old.name)
      rw [if_neg hp] at hother
      have hsame := useCount_injective hother
      have hdrop := hcount (shortened n old.name)
      rw [oldBelow_of_read hread, hname, if_pos rfl, if_neg (fun heq => hp heq.symm)] at hdrop
      omega
  · rintro ⟨hhas, hname, hlt⟩ p
    have hp := hcount p
    rw [oldBelow_of_has_eq_false hhas, Nat.add_zero] at hp
    rw [hp, hname]
    by_cases heq : p = shortened n data.name
    · rw [if_pos heq, if_pos heq.symm, useCount_succ_iff (by omega) (by omega)]
      exact ⟨rfl, heq ▸ hlt⟩
    · rw [if_neg heq, if_neg (fun h => heq h.symm), Nat.add_zero]

/-- A name that is long enough is registered without its last components. -/
lemma prefixToRegister_eq {h : ReadPrefixes L} {name : L.Name} (hpos : 0 < h.mPrefixSubsetLength.toNat)
    (hlt : h.mPrefixSubsetLength.toNat < 2 ^ 63) (hle : h.mPrefixSubsetLength.toNat ≤ name.length)
    (hname : name.length < 2 ^ 64) : h.prefixToRegister name = shortened h.mPrefixSubsetLength name :=
  getPrefix_neg hpos hlt.le hle hname

/-- A step keeps the prefixes in line with the store exactly when it is one that is notified. -/
theorem mirrors_after_iff (henabled : s.readHandle.mPrefixSubsetLength ≠ ReadPrefixes.disabledSubsetLength)
    (h : s.Mirrors) (call : RepoCall L) : (s.after call).Mirrors ↔ s.Notified call := by
  cases call with
  | insertData data =>
    unfold after RepoStorage.insertData Notified
    by_cases hfull : s.store.has data.getFullName
    · simp only [hfull, if_true, List.foldl_nil, true_or, iff_true]
      exact h
    · simp only [hfull, Bool.false_eq_true, if_false, false_or]
      have hid : (s.store.insert data).2 = hash (L.uri data.name) := rfl
      rw [hid]
      by_cases hnot : hash (L.uri data.name) = notFound
      · rw [if_pos hnot, if_pos hnot]
        exact (mirrors_silent_iff h).trans (packetsBelow_insert_eq_iff _ _ _)
      · rw [if_neg hnot, if_neg hnot]
        simp only [List.foldl_cons, List.foldl_nil, ReadPrefixes.onSignal, henabled, if_false]
        exact mirrors_signalled_iff h
  | deleteData name =>
    unfold after RepoStorage.deleteData Notified
    dsimp only
    have hsilent : (if (s.store.erase name).2 then ((s.store.erase name).1, (1 : ℤ), ([] : List (StorageSignal L)))
        else ((s.store.erase name).1, -1, [])) =
          ((s.store.erase name).1, if (s.store.erase name).2 then 1 else -1, []) := by
      split_ifs <;> rfl
    rw [hsilent]
    exact (mirrors_silent_iff h).trans (packetsBelow_erase_eq_iff _ _ _)

/-- The state after some calls, starting from an empty store. -/
def afterCalls (sha1 : String → String) (n : UInt64) (calls : List (RepoCall L)) : ListeningStore L sha1 :=
  calls.foldl after { readHandle := { mPrefixSubsetLength := n } }

lemma length_after (s : ListeningStore L sha1) (call : RepoCall L) :
    (s.after call).readHandle.mPrefixSubsetLength = s.readHandle.mPrefixSubsetLength := by
  have hsignal (h : ReadPrefixes L) (signal : StorageSignal L) :
      (h.onSignal signal).mPrefixSubsetLength = h.mPrefixSubsetLength := by
    unfold ReadPrefixes.onSignal
    split
    · rfl
    · split
      · unfold ReadPrefixes.onDataInserted
        split <;> rfl
      · unfold ReadPrefixes.onDataDeleted
        dsimp only
        split
        · rfl
        · split <;> rfl
  have hsignals (signals : List (StorageSignal L)) (h : ReadPrefixes L) :
      (signals.foldl ReadPrefixes.onSignal h).mPrefixSubsetLength = h.mPrefixSubsetLength := by
    induction signals generalizing h with
    | nil => rfl
    | cons signal signals ih => rw [List.foldl_cons, ih, hsignal]
  cases call with
  | insertData data => exact hsignals _ _
  | deleteData name => exact hsignals _ _

lemma mirrors_start (sha1 : String → String) (n : UInt64) : (afterCalls sha1 n ([] : List (RepoCall L))).Mirrors := by
  intro p
  rfl

lemma run_step (s : ListeningStore L sha1) (calls : List (RepoCall L)) :
    run step s calls = some (calls.foldl after s) := by
  induction calls generalizing s with
  | nil => rfl
  | cons call calls ih => exact run_cons_eq_some.mpr ⟨s.after call, rfl, ih (s.after call)⟩

theorem mirrors_run_iff (henabled : s.readHandle.mPrefixSubsetLength ≠ ReadPrefixes.disabledSubsetLength)
    (h : s.Mirrors) (calls : List (RepoCall L)) :
    (∀ done, done <+: calls → (done.foldl after s).Mirrors) ↔ Meets step Notified s calls := by
  have hnext : ∀ (t : ListeningStore L sha1) call,
      t.readHandle.mPrefixSubsetLength ≠ ReadPrefixes.disabledSubsetLength →
        (t.after call).readHandle.mPrefixSubsetLength ≠ ReadPrefixes.disabledSubsetLength := by
    intro t call ht
    rwa [length_after]
  have hall : ∀ done : List (RepoCall L),
      (done.foldl after s).readHandle.mPrefixSubsetLength ≠ ReadPrefixes.disabledSubsetLength := by
    intro done
    induction done using List.reverseRecOn with
    | nil => exact henabled
    | append_singleton done call ih =>
      rw [List.foldl_concat]
      exact hnext _ call ih
  have hstep : ∀ (t : ListeningStore L sha1) call u,
      t.Mirrors ∧ t.readHandle.mPrefixSubsetLength ≠ ReadPrefixes.disabledSubsetLength → step t call = some u →
        (u.Mirrors ∧ u.readHandle.mPrefixSubsetLength ≠ ReadPrefixes.disabledSubsetLength ↔ t.Notified call) := by
    rintro t call u ⟨hmirrors, ht⟩ hu
    obtain rfl := Option.some.inj hu
    rw [mirrors_after_iff ht hmirrors]
    exact and_iff_left (hnext t call ht)
  rw [← run_invariant_iff hstep ⟨h, henabled⟩ (run_step s calls)]
  constructor
  · intro hmirrors ds u hds hu
    obtain rfl := Option.some.inj ((run_step s ds).symm.trans hu)
    exact ⟨hmirrors ds hds, hall ds⟩
  · intro hboth done hdone
    exact (hboth done _ hdone (run_step s done)).1

/-- From an empty store on, the registered prefixes mirror the store after every call exactly
when every call is one that is notified. -/
theorem prefixes_mirror_iff (sha1 : String → String) {n : UInt64} (henabled : n ≠ ReadPrefixes.disabledSubsetLength)
    (calls : List (RepoCall L)) :
    (∀ done, done <+: calls → (afterCalls sha1 n done).Mirrors) ↔
      Meets step Notified (afterCalls sha1 n ([] : List (RepoCall L))) calls :=
  mirrors_run_iff henabled (mirrors_start sha1 n) calls

/-- A packet of a new name is notified, where one component is dropped and there is room for a use. -/
lemma notified_insertData {data : Data L} (hone : s.readHandle.mPrefixSubsetLength = 1)
    (hhash : hash (L.uri data.name) ≠ notFound) (hnew : s.store.has data.name = false) (hpos : 1 ≤ data.name.length)
    (hlength : data.name.length < 2 ^ 64)
    (hroom : packetsBelow 1 s.store (shortened 1 data.name) + 1 < 2 ^ 31) : s.Notified (.insertData data) := by
  have hregister : s.readHandle.prefixToRegister data.name =
      shortened s.readHandle.mPrefixSubsetLength data.name := by
    apply prefixToRegister_eq _ _ _ hlength
    all_goals rw [hone]
    · decide
    · decide
    · exact hpos
  unfold Notified
  dsimp only
  rw [if_neg hhash]
  refine Or.inr ⟨hnew, hregister, ?_⟩
  rw [hone]
  exact hroom

/-- Two packets of the film come in below one prefix. -/
theorem film_prefix_mirrored :
    (afterCalls frameDigest 1 [.insertData (frame 0), .insertData (frame 1)]).Mirrors ∧
      packetsBelow 1 (afterCalls frameDigest 1 [.insertData (frame 0), .insertData (frame 1)]).store [film] = 2 := by
  have hfirst : Notified (afterCalls frameDigest 1 ([] : List (RepoCall plainNames))) (.insertData (frame 0)) :=
    notified_insertData rfl (by decide +kernel) (by decide +kernel) (by decide) (by decide) (by decide +kernel)
  have hsecond : Notified ((afterCalls frameDigest 1 []).after (.insertData (frame 0))) (.insertData (frame 1)) :=
    notified_insertData (length_after _ _) (by decide +kernel) (by decide +kernel) (by decide) (by decide)
      (by decide +kernel)
  have hmeets : Meets step Notified (afterCalls frameDigest 1 []) [.insertData (frame 0), .insertData (frame 1)] := by
    simp only [Meets, step, Option.some.injEq, forall_eq', implies_true, and_true]
    exact ⟨hfirst, hsecond⟩
  have hall := (prefixes_mirror_iff frameDigest (by decide) _).mpr hmeets
  exact ⟨hall _ (List.prefix_refl _), by decide +kernel⟩

/-- The packet is gone, its prefix is not; and a packet that came twice is counted twice. -/
theorem prefixes_outlive_packets :
    ¬ (∀ calls, (afterCalls frameDigest 1 (calls : List (RepoCall plainNames))).Mirrors) ∧
    ¬ (afterCalls frameDigest 1 [.insertData (frame 0), .deleteData (frame 0).name]).Mirrors ∧
    ¬ (afterCalls frameDigest 1 [.insertData (frame 0), .insertData (frame 0)]).Mirrors := by
  have hdeleted : ¬ (afterCalls frameDigest 1 [.insertData (frame 0), .deleteData (frame 0).name]).Mirrors := by
    intro h
    exact absurd (h [film]) (by decide +kernel)
  refine ⟨fun h => hdeleted (h _), hdeleted, ?_⟩
  intro h
  exact absurd (h [film]) (by decide +kernel)

end ListeningStore

end Difs
