import Difs.Storage.Prefixes

/-!
# Prefixes and their filters

The notification handlers of `ReadHandle` with the filters they set. Every filter is one of all
names; its handle is kept under the prefix. Handles are numbered as the face gives them out.
-/

namespace Difs

variable {L : NameLibrary}

structure RegisteredDataPrefix where
  hdl : ℕ
  useCount : ℤ
deriving DecidableEq

/-- What a handler asks of the face. -/
inductive FaceCall (L : NameLibrary) where
  | setInterestFilter (filter : L.Name) (hdl : ℕ)
  | unregister (hdl : ℕ)

structure FilteredPrefixes (L : NameLibrary) where
  mPrefixSubsetLength : UInt64
  mInsertedDataPrefixes : AList (fun _ : L.Name => RegisteredDataPrefix) := ∅
  filtersSet : ℕ := 0

inductive Notification (L : NameLibrary) where
  | onDataInserted (name : L.Name)
  | onDataDeleted (name : L.Name) (digest : L.Component)

namespace FilteredPrefixes

def prefixToRegister (h : FilteredPrefixes L) (name : L.Name) : L.Name :=
  getPrefix name (toSsize (-h.mPrefixSubsetLength))

def onDataDeleted (h : FilteredPrefixes L) (name : L.Name) : FilteredPrefixes L × Option (FaceCall L) :=
  let registered := getPrefix name (toSsize (-(h.mPrefixSubsetLength + 1)))
  match h.mInsertedDataPrefixes.lookup registered with
  | none => (h, none)
  | some check =>
    let useCount := (check.useCount - 1).bmod (2 ^ 32)
    if useCount ≤ 0 then
      ({ h with mInsertedDataPrefixes := h.mInsertedDataPrefixes.erase registered }, some (.unregister check.hdl))
    else
      let check := { check with useCount := useCount }
      ({ h with mInsertedDataPrefixes := h.mInsertedDataPrefixes.insert registered check }, none)

def onDataInserted (h : FilteredPrefixes L) (name : L.Name) : FilteredPrefixes L × Option (FaceCall L) :=
  match h.mInsertedDataPrefixes.lookup (h.prefixToRegister name) with
  | none =>
    ({ h with
        mInsertedDataPrefixes := h.mInsertedDataPrefixes.insert (h.prefixToRegister name) ⟨h.filtersSet, 1⟩
        filtersSet := h.filtersSet + 1 },
      some (.setInterestFilter [] h.filtersSet))
  | some check =>
    let check := { check with useCount := (check.useCount + 1).bmod (2 ^ 32) }
    ({ h with mInsertedDataPrefixes := h.mInsertedDataPrefixes.insert (h.prefixToRegister name) check }, none)

/-- A deletion is notified with the full name, which ends in the implicit digest. -/
def notify (h : FilteredPrefixes L) : Notification L → FilteredPrefixes L × Option (FaceCall L)
  | .onDataInserted name => h.onDataInserted name
  | .onDataDeleted name digest => h.onDataDeleted (name ++ [digest])

def afterNotifications (n : UInt64) (calls : List (Notification L)) : FilteredPrefixes L :=
  calls.foldl (fun h call => (h.notify call).1) { mPrefixSubsetLength := n }

end FilteredPrefixes

namespace Notification

def name : Notification L → L.Name
  | onDataInserted name => name
  | onDataDeleted name _ => name

def inserted : Notification L → Option L.Name
  | onDataInserted name => some name
  | onDataDeleted _ _ => none

def deleted : Notification L → Option L.Name
  | onDataInserted _ => none
  | onDataDeleted name _ => some name

/-- The names are long enough, and no name is deleted more often than it was inserted. A name is a
block, and a block has less than `2 ^ 63` elements. -/
structure Legal (n : UInt64) (calls : List (Notification L)) : Prop where
  long : ∀ call ∈ calls, n.toNat ≤ call.name.length ∧ call.name.length < 2 ^ 63
  count_le : ∀ done, done <+: calls → ∀ name, (done.filterMap deleted).count name ≤ (done.filterMap inserted).count name

/-- The insertions below a prefix that were not followed by a deletion. -/
def outstanding (n : UInt64) (calls : List (Notification L)) (p : L.Name) : ℕ :=
  (calls.filterMap inserted).countP (fun name => shortened n name = p) -
    (calls.filterMap deleted).countP (fun name => shortened n name = p)

variable {n : UInt64} {done calls : List (Notification L)} {call : Notification L} {name p : L.Name}
  {digest : L.Component}

lemma Legal.of_isPrefix (h : Legal n calls) (hp : done <+: calls) : Legal n done where
  long := fun call hcall => h.long call (hp.subset hcall)
  count_le := fun before hbefore => h.count_le before (hbefore.trans hp)

lemma Legal.last_long (h : Legal n (done ++ [call])) : n.toNat ≤ call.name.length ∧ call.name.length < 2 ^ 63 :=
  h.long call (List.mem_append_right _ List.mem_cons_self)

lemma Legal.countP_le (h : Legal n calls) (p : L.Name) :
    (calls.filterMap deleted).countP (fun name => shortened n name = p) ≤
      (calls.filterMap inserted).countP (fun name => shortened n name = p) := by
  have hsub : (calls.filterMap deleted).Subperm (calls.filterMap inserted) :=
    List.subperm_ext_iff.mpr (fun name _ => h.count_le calls List.prefix_rfl name)
  exact hsub.countP_le _

lemma countP_singleton (n : UInt64) (name p : L.Name) :
    [name].countP (fun name => shortened n name = p) = if shortened n name = p then 1 else 0 := by
  rw [List.countP_singleton]
  simp only [decide_eq_true_eq]

lemma outstanding_inserted (h : Legal n done) (name p : L.Name) : outstanding n (done ++ [.onDataInserted name]) p =
    outstanding n done p + if shortened n name = p then 1 else 0 := by
  have hle := h.countP_le p
  have hinserted : [Notification.onDataInserted name].filterMap inserted = [name] := rfl
  have hdeleted : [Notification.onDataInserted name].filterMap deleted = [] := rfl
  unfold outstanding
  rw [List.filterMap_append, List.filterMap_append, List.countP_append, List.countP_append, hinserted, hdeleted,
    countP_singleton, List.countP_nil]
  omega

lemma outstanding_deleted (h : Legal n (done ++ [.onDataDeleted name digest])) (p : L.Name) : outstanding n done p =
    outstanding n (done ++ [.onDataDeleted name digest]) p + if shortened n name = p then 1 else 0 := by
  have hle := h.countP_le p
  have hinserted : [Notification.onDataDeleted name digest].filterMap inserted = [] := rfl
  have hdeleted : [Notification.onDataDeleted name digest].filterMap deleted = [name] := rfl
  unfold outstanding
  rw [List.filterMap_append, List.filterMap_append, List.countP_append, List.countP_append, hinserted, hdeleted,
    countP_singleton, List.countP_nil] at hle ⊢
  omega

end Notification

namespace FilteredPrefixes

open Notification

/-- The prefixes are registered with the numbers of their outstanding insertions. -/
def Counted (n : UInt64) (done : List (Notification L)) : Prop :=
  ∀ p, ((afterNotifications n done).mInsertedDataPrefixes.lookup p).map RegisteredDataPrefix.useCount =
    if outstanding n done p = 0 then none else some (outstanding n done p : ℤ)

/-- A filter is set where the first insertion below a prefix comes to be outstanding. Its handle
stays with the prefix and is unregistered where none is outstanding any more. -/
structure Filtered (n : UInt64) (done : List (Notification L)) (call : Notification L) : Prop where
  set_iff : (∃ filter hdl, ((afterNotifications n done).notify call).2 = some (.setInterestFilter filter hdl)) ↔
    ∃ p, outstanding n done p = 0 ∧ outstanding n (done ++ [call]) p = 1
  hdl_of_set : ∀ filter hdl, ((afterNotifications n done).notify call).2 = some (.setInterestFilter filter hdl) →
    ∀ p, outstanding n done p = 0 → outstanding n (done ++ [call]) p = 1 →
      (afterNotifications n (done ++ [call])).mInsertedDataPrefixes.lookup p = some ⟨hdl, 1⟩
  hdl_kept : ∀ p check, (afterNotifications n done).mInsertedDataPrefixes.lookup p = some check →
    0 < outstanding n (done ++ [call]) p → ∃ check',
      (afterNotifications n (done ++ [call])).mInsertedDataPrefixes.lookup p = some check' ∧ check'.hdl = check.hdl
  unregister_iff : (∃ hdl, ((afterNotifications n done).notify call).2 = some (.unregister hdl)) ↔
    ∃ p, outstanding n done p = 1 ∧ outstanding n (done ++ [call]) p = 0
  hdl_of_unregister : ∀ hdl, ((afterNotifications n done).notify call).2 = some (.unregister hdl) →
    ∀ p, outstanding n done p = 1 → outstanding n (done ++ [call]) p = 0 →
      (afterNotifications n done).mInsertedDataPrefixes.lookup p = some ⟨hdl, 1⟩

variable {n : UInt64} {done calls : List (Notification L)} {call : Notification L} {name p : L.Name}
  {digest : L.Component}

/-! ### One notification -/

lemma afterNotifications_snoc (n : UInt64) (done : List (Notification L)) (call : Notification L) :
    afterNotifications n (done ++ [call]) = ((afterNotifications n done).notify call).1 := List.foldl_concat ..

lemma length_afterNotifications (n : UInt64) (done : List (Notification L)) :
    (afterNotifications n done).mPrefixSubsetLength = n := by
  induction done using List.reverseRecOn with
  | nil => rfl
  | append_singleton done call ih =>
    rw [afterNotifications_snoc]
    cases call with
    | onDataInserted name =>
      unfold notify onDataInserted
      dsimp only
      split <;> exact ih
    | onDataDeleted name digest =>
      unfold notify onDataDeleted
      dsimp only
      split
      · exact ih
      · split_ifs <;> exact ih

lemma counted_iff : Counted n done ↔ ∀ p, ((afterNotifications n done).mInsertedDataPrefixes.lookup p).map
    RegisteredDataPrefix.useCount = useCount (outstanding n done p) := Iff.rfl

lemma Counted.lookup_eq_none (h : Counted n done) :
    (afterNotifications n done).mInsertedDataPrefixes.lookup p = none ↔ outstanding n done p = 0 := by
  rw [← Option.map_eq_none_iff, h p]
  constructor
  · intro hnone
    by_contra hzero
    rw [if_neg hzero] at hnone
    cases hnone
  · intro hzero
    exact if_pos hzero

lemma Counted.lookup_eq_some (h : Counted n done) (hpos : 0 < outstanding n done p) :
    ∃ hdl, (afterNotifications n done).mInsertedDataPrefixes.lookup p = some ⟨hdl, outstanding n done p⟩ := by
  have hcount := h p
  rw [if_neg hpos.ne', Option.map_eq_some_iff] at hcount
  obtain ⟨⟨hdl, useCount⟩, hlookup, hcheck⟩ := hcount
  exact ⟨hdl, hlookup.trans (by rw [← hcheck])⟩

/-- Without a subset length the name of all names is registered. -/
lemma prefixToRegister_eq_iff (done : List (Notification L)) (hle : n.toNat ≤ name.length)
    (hlt : name.length < 2 ^ 63) :
    (afterNotifications n done).prefixToRegister name = shortened n name ↔ 0 < n.toNat ∨ name = [] := by
  unfold prefixToRegister
  rw [length_afterNotifications]
  by_cases hpos : 0 < n.toNat
  · exact iff_of_true (getPrefix_neg hpos (by omega) hle (by omega)) (Or.inl hpos)
  · have hzero : n = 0 := by
      apply UInt64.toNat_inj.mp
      exact Nat.eq_zero_of_not_pos hpos
    have hssize : toSsize (-0) = 0 := by
      unfold toSsize
      decide +kernel
    have hregistered : getPrefix name (toSsize (-0)) = [] := by
      rw [hssize, getPrefix, if_neg (lt_irrefl 0), Int.toNat_zero, List.take_zero]
    have hshortened : shortened 0 name = name := List.take_length
    rw [or_iff_right hpos, hzero, hregistered, hshortened]
    exact eq_comm

lemma registered_of_deleted (hle : n.toNat ≤ name.length) (hlt : name.length < 2 ^ 63) (digest : L.Component) :
    getPrefix (name ++ [digest]) (toSsize (-(n + 1))) = shortened n name := by
  have hsucc : (n + 1).toNat = n.toNat + 1 := by
    rw [UInt64.toNat_add]
    apply Nat.mod_eq_of_lt
    change n.toNat + 1 < 2 ^ 64
    omega
  have hlength : (name ++ [digest]).length = name.length + 1 := List.length_append
  rw [getPrefix_neg (by omega) (by omega) (by omega) (by omega), hsucc, hlength, Nat.add_sub_add_right,
    List.take_append_of_le_length (Nat.sub_le _ _)]
  rfl

/-- A first insertion sets a filter, another one is counted under the handle of the first. -/
lemma notify_inserted (h : Counted n done) (hregistered : (afterNotifications n done).prefixToRegister name = p) :
    ∃ hdl, (0 < outstanding n done p →
        (afterNotifications n done).mInsertedDataPrefixes.lookup p = some ⟨hdl, outstanding n done p⟩) ∧
      ((afterNotifications n done).notify (.onDataInserted name)).2 =
        (if outstanding n done p = 0 then some (.setInterestFilter [] hdl) else none) ∧
      ∀ q, (afterNotifications n (done ++ [.onDataInserted name])).mInsertedDataPrefixes.lookup q =
        if q = p then some ⟨hdl, ((outstanding n done p : ℤ) + 1).bmod (2 ^ 32)⟩
        else (afterNotifications n done).mInsertedDataPrefixes.lookup q := by
  simp only [afterNotifications_snoc, notify]
  unfold onDataInserted
  rw [hregistered]
  by_cases hzero : outstanding n done p = 0
  · rw [h.lookup_eq_none.mpr hzero, hzero]
    refine ⟨_, fun hpos => absurd hpos (Nat.lt_irrefl 0), rfl, ?_⟩
    intro q
    by_cases hq : q = p
    · rw [if_pos hq, hq, AList.lookup_insert]
      rfl
    · rw [if_neg hq, AList.lookup_insert_ne hq]
  · obtain ⟨hdl, hlookup⟩ := h.lookup_eq_some (Nat.pos_of_ne_zero hzero)
    rw [hlookup]
    refine ⟨hdl, fun _ => rfl, (if_neg hzero).symm, ?_⟩
    intro q
    by_cases hq : q = p
    · rw [if_pos hq, hq, AList.lookup_insert]
    · rw [if_neg hq, AList.lookup_insert_ne hq]

/-- The last deletion gives the filter up, another one is counted off. -/
lemma notify_deleted (h : Counted n done) (hle : n.toNat ≤ name.length) (hlt : name.length < 2 ^ 63)
    (hp : shortened n name = p) (hpos : 0 < outstanding n done p) (hbound : outstanding n done p < 2 ^ 31)
    (digest : L.Component) : ∃ hdl,
      (afterNotifications n done).mInsertedDataPrefixes.lookup p = some ⟨hdl, outstanding n done p⟩ ∧
      ((afterNotifications n done).notify (.onDataDeleted name digest)).2 =
        (if outstanding n done p = 1 then some (.unregister hdl) else none) ∧
      ∀ q, (afterNotifications n (done ++ [.onDataDeleted name digest])).mInsertedDataPrefixes.lookup q =
        if q = p then (if outstanding n done p = 1 then none else some ⟨hdl, (outstanding n done p : ℤ) - 1⟩)
        else (afterNotifications n done).mInsertedDataPrefixes.lookup q := by
  obtain ⟨hdl, hlookup⟩ := h.lookup_eq_some hpos
  have hbmod : ((outstanding n done p : ℤ) - 1).bmod (2 ^ 32) = outstanding n done p - 1 := by
    apply Int.bmod_eq_of_le <;> omega
  have hregistered : getPrefix (name ++ [digest])
      (toSsize (-((afterNotifications n done).mPrefixSubsetLength + 1))) = p := by
    rw [length_afterNotifications, registered_of_deleted hle hlt, hp]
  refine ⟨hdl, hlookup, ?_⟩
  simp only [afterNotifications_snoc, notify]
  unfold onDataDeleted
  rw [hregistered]
  dsimp only
  rw [hlookup]
  dsimp only
  rw [hbmod]
  by_cases hone : outstanding n done p = 1
  · have hzero : (outstanding n done p : ℤ) - 1 ≤ 0 := by omega
    rw [if_pos hone, if_pos hzero]
    refine ⟨rfl, ?_⟩
    intro q
    by_cases hq : q = p
    · rw [if_pos hq, if_pos hone, hq, AList.lookup_erase]
    · rw [if_neg hq, AList.lookup_erase_ne hq]
  · have hmore : ¬ (outstanding n done p : ℤ) - 1 ≤ 0 := by omega
    rw [if_neg hone, if_neg hmore]
    refine ⟨rfl, ?_⟩
    intro q
    by_cases hq : q = p
    · rw [if_pos hq, if_neg hone, hq, AList.lookup_insert]
    · rw [if_neg hq, AList.lookup_insert_ne hq]

/-- An insertion is counted right where its prefix is registered as it is and the sum is an `int`. -/
lemma counted_inserted_iff (h : Counted n done) (hlegal : Legal n (done ++ [.onDataInserted name])) :
    Counted n (done ++ [.onDataInserted name]) ↔
      (0 < n.toNat ∨ name = []) ∧ outstanding n done (shortened n name) + 1 < 2 ^ 31 := by
  obtain ⟨hle, hlt⟩ : n.toNat ≤ name.length ∧ name.length < 2 ^ 63 := hlegal.last_long
  obtain ⟨hdl, -, -, hlookup⟩ := notify_inserted h (Eq.refl ((afterNotifications n done).prefixToRegister name))
  have hout := outstanding_inserted (hlegal.of_isPrefix (List.prefix_append _ _)) name
  rw [← prefixToRegister_eq_iff done hle hlt, counted_iff]
  rw [counted_iff] at h
  constructor
  · intro hcounted
    have hregistered := hcounted ((afterNotifications n done).prefixToRegister name)
    have hsum := hout ((afterNotifications n done).prefixToRegister name)
    have hle : outstanding n (done ++ [.onDataInserted name]) ((afterNotifications n done).prefixToRegister name) ≤
        outstanding n done ((afterNotifications n done).prefixToRegister name) + 1 := by
      rw [hsum]
      split_ifs <;> omega
    rw [hlookup, if_pos rfl, Option.map_some] at hregistered
    dsimp only at hregistered
    rw [useCount_succ_iff hle (by omega)] at hregistered
    have hname : shortened n name = (afterNotifications n done).prefixToRegister name := by
      by_contra hne
      rw [if_neg hne] at hsum
      omega
    exact ⟨hname.symm, hname ▸ hregistered.2⟩
  · rintro ⟨hname, hint⟩ p
    rw [hlookup, hout, hname]
    by_cases hp : p = shortened n name
    · rw [if_pos hp, if_pos hp.symm, hp, Option.map_some]
      dsimp only
      rw [useCount_succ_iff le_rfl (by omega)]
      exact ⟨rfl, hint⟩
    · rw [if_neg hp, if_neg (fun heq => hp heq.symm), Nat.add_zero]
      exact h p

lemma outstanding_pos (hlegal : Legal n (done ++ [.onDataDeleted name digest])) :
    0 < outstanding n done (shortened n name) := by
  have hout := outstanding_deleted hlegal (shortened n name)
  rw [if_pos rfl] at hout
  omega

lemma counted_deleted (h : Counted n done) (hlegal : Legal n (done ++ [.onDataDeleted name digest]))
    (hbound : outstanding n done (shortened n name) < 2 ^ 31) : Counted n (done ++ [.onDataDeleted name digest]) := by
  obtain ⟨hle, hlt⟩ : n.toNat ≤ name.length ∧ name.length < 2 ^ 63 := hlegal.last_long
  have hpos := outstanding_pos hlegal
  obtain ⟨hdl, -, -, hlookup⟩ := notify_deleted h hle hlt rfl hpos hbound digest
  intro p
  have hout := outstanding_deleted hlegal p
  rw [hlookup]
  by_cases hp : p = shortened n name
  · rw [if_pos hp]
    rw [if_pos hp.symm, hp] at hout
    rw [hp]
    by_cases hone : outstanding n done (shortened n name) = 1
    · rw [if_pos hone, if_pos (by omega)]
      rfl
    · rw [if_neg hone, if_neg (by omega), hout, Option.map_some, Nat.cast_add, Nat.cast_one, add_sub_cancel_right]
  · rw [if_neg (fun heq => hp heq.symm), Nat.add_zero] at hout
    rw [if_neg hp, ← hout]
    exact h p

lemma filtered_inserted (h : Counted n done) (hlegal : Legal n (done ++ [.onDataInserted name]))
    (hregistered : (afterNotifications n done).prefixToRegister name = shortened n name) :
    Filtered n done (.onDataInserted name) := by
  obtain ⟨hdl, hhdl, hcall, hlookup⟩ := notify_inserted h hregistered
  have hout := outstanding_inserted (hlegal.of_isPrefix (List.prefix_append _ _)) name
  have hfirst (p : L.Name) (hzero : outstanding n done p = 0)
      (hone : outstanding n (done ++ [.onDataInserted name]) p = 1) : shortened n name = p := by
    by_contra hne
    rw [hout, if_neg hne] at hone
    omega
  constructor
  · rw [hcall]
    constructor
    · rintro ⟨filter, hdl', hset⟩
      have hzero : outstanding n done (shortened n name) = 0 := by
        by_contra hne
        rw [if_neg hne] at hset
        cases hset
      exact ⟨_, hzero, by rw [hout, hzero, if_pos rfl]⟩
    · rintro ⟨p, hzero, hone⟩
      rw [hfirst p hzero hone, if_pos hzero]
      exact ⟨_, _, rfl⟩
  · intro filter hdl' hset p hzero hone
    have hp := hfirst p hzero hone
    rw [hcall, hp, if_pos hzero] at hset
    rw [hlookup, if_pos hp.symm, hp, hzero]
    cases hset
    rfl
  · intro p check hcheck _
    rw [hlookup]
    by_cases hp : p = shortened n name
    · rw [if_pos hp]
      have hpos : 0 < outstanding n done (shortened n name) := by
        apply Nat.pos_of_ne_zero
        intro hzero
        rw [hp, h.lookup_eq_none.mpr hzero] at hcheck
        cases hcheck
      rw [hp, hhdl hpos] at hcheck
      cases hcheck
      exact ⟨_, rfl, rfl⟩
    · rw [if_neg hp]
      exact ⟨check, hcheck, rfl⟩
  · rw [hcall]
    apply iff_of_false
    · rintro ⟨hdl', hset⟩
      split_ifs at hset
      cases hset
    · rintro ⟨p, hone, hzero⟩
      rw [hout] at hzero
      omega
  · intro hdl' hset
    rw [hcall] at hset
    split_ifs at hset
    cases hset

lemma filtered_deleted (h : Counted n done) (hlegal : Legal n (done ++ [.onDataDeleted name digest]))
    (hbound : outstanding n done (shortened n name) < 2 ^ 31) : Filtered n done (.onDataDeleted name digest) := by
  obtain ⟨hle, hlt⟩ : n.toNat ≤ name.length ∧ name.length < 2 ^ 63 := hlegal.last_long
  have hpos := outstanding_pos hlegal
  obtain ⟨hdl, hhdl, hcall, hlookup⟩ := notify_deleted h hle hlt rfl hpos hbound digest
  have hout := outstanding_deleted hlegal
  have hlast (p : L.Name) (hone : outstanding n done p = 1)
      (hzero : outstanding n (done ++ [.onDataDeleted name digest]) p = 0) : shortened n name = p := by
    by_contra hne
    rw [hout, if_neg hne] at hone
    omega
  constructor
  · rw [hcall]
    apply iff_of_false
    · rintro ⟨filter, hdl', hset⟩
      split_ifs at hset
      cases hset
    · rintro ⟨p, hzero, hone⟩
      rw [hout] at hzero
      omega
  · intro filter hdl' hset
    rw [hcall] at hset
    split_ifs at hset
    cases hset
  · intro p check hcheck hmore
    rw [hlookup]
    by_cases hp : p = shortened n name
    · have hone : ¬ outstanding n done (shortened n name) = 1 := by
        rw [hout, if_pos rfl, ← hp]
        omega
      rw [hp, hhdl] at hcheck
      cases hcheck
      rw [if_pos hp, if_neg hone]
      exact ⟨_, rfl, rfl⟩
    · rw [if_neg hp]
      exact ⟨check, hcheck, rfl⟩
  · rw [hcall]
    constructor
    · rintro ⟨hdl', hset⟩
      have hone : outstanding n done (shortened n name) = 1 := by
        by_contra hne
        rw [if_neg hne] at hset
        cases hset
      have hrest := hout (shortened n name)
      rw [if_pos rfl] at hrest
      exact ⟨_, hone, by omega⟩
    · rintro ⟨p, hone, hzero⟩
      rw [hlast p hone hzero, if_pos hone]
      exact ⟨_, rfl⟩
  · intro hdl' hset p hone hzero
    have hp := hlast p hone hzero
    rw [← hp] at hone ⊢
    rw [hcall, if_pos hone] at hset
    rw [hhdl, hone]
    cases hset
    rfl

/-! ### The prefixes without their filters -/

/-- The prefixes of the listening store are these, without the handles. -/
structure SameCounts (r : ReadPrefixes L) (h : FilteredPrefixes L) : Prop where
  length_eq : r.mPrefixSubsetLength = h.mPrefixSubsetLength
  lookup_eq : ∀ p, r.mInsertedDataPrefixes.lookup p =
    (h.mInsertedDataPrefixes.lookup p).map RegisteredDataPrefix.useCount

section SameCounts

variable {r : ReadPrefixes L} {h : FilteredPrefixes L}

lemma SameCounts.prefixToRegister_eq (hs : SameCounts r h) (name : L.Name) :
    r.prefixToRegister name = h.prefixToRegister name := by
  unfold ReadPrefixes.prefixToRegister prefixToRegister
  rw [hs.length_eq]

lemma SameCounts.insert (hs : SameCounts r h) (check : RegisteredDataPrefix) (filters : ℕ) :
    SameCounts { r with mInsertedDataPrefixes := r.mInsertedDataPrefixes.insert p check.useCount }
      ⟨h.mPrefixSubsetLength, h.mInsertedDataPrefixes.insert p check, filters⟩ := by
  refine ⟨hs.length_eq, ?_⟩
  intro q
  dsimp only
  by_cases hq : q = p
  · rw [hq, AList.lookup_insert, AList.lookup_insert]
    rfl
  · rw [AList.lookup_insert_ne hq, AList.lookup_insert_ne hq]
    exact hs.lookup_eq q

lemma SameCounts.erase (hs : SameCounts r h) :
    SameCounts { r with mInsertedDataPrefixes := r.mInsertedDataPrefixes.erase p }
      { h with mInsertedDataPrefixes := h.mInsertedDataPrefixes.erase p } := by
  refine ⟨hs.length_eq, ?_⟩
  intro q
  dsimp only
  by_cases hq : q = p
  · rw [hq, AList.lookup_erase, AList.lookup_erase]
    rfl
  · rw [AList.lookup_erase_ne hq, AList.lookup_erase_ne hq]
    exact hs.lookup_eq q

theorem SameCounts.onDataInserted (hs : SameCounts r h) (name : L.Name) :
    SameCounts (r.onDataInserted name) (h.onDataInserted name).1 := by
  unfold ReadPrefixes.onDataInserted FilteredPrefixes.onDataInserted
  rw [hs.lookup_eq, hs.prefixToRegister_eq]
  cases h.mInsertedDataPrefixes.lookup (h.prefixToRegister name) with
  | none => exact hs.insert ⟨h.filtersSet, 1⟩ (h.filtersSet + 1)
  | some check => exact hs.insert { check with useCount := (check.useCount + 1).bmod (2 ^ 32) } h.filtersSet

theorem SameCounts.onDataDeleted (hs : SameCounts r h) (name : L.Name) :
    SameCounts (r.onDataDeleted name) (h.onDataDeleted name).1 := by
  have hkey : getPrefix name (toSsize (-(r.mPrefixSubsetLength + 1))) =
      getPrefix name (toSsize (-(h.mPrefixSubsetLength + 1))) := by rw [hs.length_eq]
  unfold ReadPrefixes.onDataDeleted FilteredPrefixes.onDataDeleted
  dsimp only
  rw [hkey, hs.lookup_eq]
  cases h.mInsertedDataPrefixes.lookup (getPrefix name (toSsize (-(h.mPrefixSubsetLength + 1)))) with
  | none => exact hs
  | some check =>
    dsimp only [Option.map_some]
    by_cases hlast : (check.useCount - 1).bmod (2 ^ 32) ≤ 0
    · rw [if_pos hlast, if_pos hlast]
      exact hs.erase
    · rw [if_neg hlast, if_neg hlast]
      exact hs.insert { check with useCount := (check.useCount - 1).bmod (2 ^ 32) } h.filtersSet

end SameCounts

/-! ### Sequences of notifications -/

/-- The counts are right after every call, and every call does what it should to the filters. -/
def FilteredThroughout (n : UInt64) (calls : List (Notification L)) : Prop :=
  (∀ done, done <+: calls → Counted n done) ∧ ∀ done call, done ++ [call] <+: calls → Filtered n done call

/-- Only the empty name is inserted where no component is dropped, and every insertion finds room
for another use of its prefix. -/
def InsertionsFit (n : UInt64) (calls : List (Notification L)) : Prop :=
  ∀ done name, done ++ [.onDataInserted name] <+: calls →
    (0 < n.toNat ∨ name = []) ∧ outstanding n done (shortened n name) + 1 < 2 ^ 31

lemma InsertionsFit.of_isPrefix (h : InsertionsFit n calls) (hp : done <+: calls) : InsertionsFit n done :=
  fun before name hbefore => h before name (hbefore.trans hp)

lemma InsertionsFit.counted (h : InsertionsFit n calls) (hlegal : Legal n calls) :
    Counted n calls ∧ ∀ p, outstanding n calls p < 2 ^ 31 := by
  induction calls using List.reverseRecOn with
  | nil => exact ⟨fun p => rfl, fun p => by norm_num [outstanding]⟩
  | append_singleton done call ih =>
    have hdone : done <+: done ++ [call] := List.prefix_append _ _
    obtain ⟨hcounted, hbound⟩ := ih (h.of_isPrefix hdone) (hlegal.of_isPrefix hdone)
    cases call with
    | onDataInserted name =>
      have hfits := h done name List.prefix_rfl
      refine ⟨(counted_inserted_iff hcounted hlegal).mpr hfits, ?_⟩
      intro p
      rw [outstanding_inserted (hlegal.of_isPrefix hdone)]
      by_cases hp : shortened n name = p
      · rw [if_pos hp, ← hp]
        exact hfits.2
      · rw [if_neg hp]
        exact hbound p
    | onDataDeleted name digest =>
      refine ⟨counted_deleted hcounted hlegal (hbound _), ?_⟩
      intro p
      have hout := outstanding_deleted hlegal p
      have hp := hbound p
      omega

/-- The registered prefixes and their filters follow the outstanding insertions through a sequence
of notifications exactly when its insertions fit. -/
theorem filtered_throughout_iff (hlegal : Legal n calls) : FilteredThroughout n calls ↔ InsertionsFit n calls := by
  constructor
  · rintro ⟨hcounted, -⟩ done name hdone
    have hbefore : done <+: calls := (List.prefix_append done _).trans hdone
    exact (counted_inserted_iff (hcounted done hbefore) (hlegal.of_isPrefix hdone)).mp (hcounted _ hdone)
  · intro hfit
    refine ⟨fun done hdone => ((hfit.of_isPrefix hdone).counted (hlegal.of_isPrefix hdone)).1, ?_⟩
    intro done call hdone
    have hbefore : done <+: calls := (List.prefix_append done _).trans hdone
    obtain ⟨hcounted, hbound⟩ := (hfit.of_isPrefix hbefore).counted (hlegal.of_isPrefix hbefore)
    cases call with
    | onDataInserted name =>
      have hlong := (hlegal.of_isPrefix hdone).last_long
      apply filtered_inserted hcounted (hlegal.of_isPrefix hdone)
      exact (prefixToRegister_eq_iff done hlong.1 hlong.2).mpr (hfit done name hdone).1
    | onDataDeleted name digest => exact filtered_deleted hcounted (hlegal.of_isPrefix hdone) (hbound _)

def trailer (text : String) (h : text ≠ "" ∧ '/' ∉ text.toList := by decide) : plainNames.Name :=
  [film, plainComponent text h]

/-- Two trailers of the film come and one of them goes. -/
def trailerCalls : List (Notification plainNames) :=
  [.onDataInserted (trailer "1"), .onDataInserted (trailer "2"), .onDataDeleted (trailer "1") (plainComponent "digest")]

theorem trailers_filtered : Legal 1 trailerCalls ∧ FilteredThroughout 1 trailerCalls := by
  have hlegal : Legal 1 trailerCalls := by
    constructor
    · decide
    · intro done hdone name
      have hinits := (List.mem_inits done trailerCalls).mpr hdone
      simp only [trailerCalls, List.inits, List.map_cons, List.map_nil, List.mem_cons, List.not_mem_nil, or_false]
        at hinits
      rcases hinits with rfl | rfl | rfl | rfl <;> exact List.Sublist.count_le name (by decide +kernel)
  refine ⟨hlegal, (filtered_throughout_iff hlegal).mpr ?_⟩
  intro done name hdone
  have hout : outstanding 1 done (shortened 1 name) ≤ 3 := by
    have hcount : (done.filterMap inserted).countP (fun other => shortened 1 other = shortened 1 name) ≤
        (done.filterMap inserted).length := List.countP_le_length
    have hlength := List.length_filterMap_le inserted done
    have hdone := ((List.prefix_append done _).trans hdone).length_le
    have htrailers : trailerCalls.length = 3 := rfl
    unfold outstanding
    omega
  refine ⟨Or.inl (by decide), ?_⟩
  norm_num
  omega

/-- Without a subset length the film is counted as the name of all names. -/
theorem whole_names_not_counted :
    ¬ ∀ (n : UInt64) (calls : List (Notification plainNames)), Legal n calls → FilteredThroughout n calls := by
  intro h
  have hlegal : Legal 0 [Notification.onDataInserted [film]] := by
    constructor
    · decide
    · intro done hdone name
      have hinits := (List.mem_inits done _).mpr hdone
      simp only [List.inits, List.map_cons, List.map_nil, List.mem_cons, List.not_mem_nil, or_false] at hinits
      rcases hinits with rfl | rfl <;> exact List.Sublist.count_le name (by decide +kernel)
  have hcounted := (h 0 [.onDataInserted [film]] hlegal).1 [.onDataInserted [film]] List.prefix_rfl []
  exact absurd hcounted (by decide +kernel)

end FilteredPrefixes

end Difs
