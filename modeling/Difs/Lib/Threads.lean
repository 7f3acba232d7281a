import Difs.Lib.EventRun

/-!
# Commands with calls outstanding

A node receives commands and makes calls to others. What a handler does on a command, and what
it does when one of its calls ends, is done on behalf of that command: the calls and outputs of
a command form its thread. Threads share the state of the node. A fact about one thread and the
state holds in every run when the handlers of the thread preserve it and those of the others do
not disturb it.
-/

namespace Threads

open EventRun

variable {σ γ κ δ ω : Type}

structure Reaction (σ κ ω : Type) where
  node : σ
  output : List ω := []
  calls : List κ := []

/-- The handlers of a node. A command comes with its number, a call ends with an answer or
without one. A handler that throws has no reaction. -/
structure Handlers (σ γ κ δ ω : Type) where
  onCommand : σ → ℕ → γ → Option (Reaction σ κ ω)
  onEnd : σ → κ → Option δ → Option (Reaction σ κ ω)

inductive LogRecord (κ δ ω : Type) where
  | output (o : ω)
  | call (k : κ)
  | ended (k : κ) (d : Option δ)
deriving DecidableEq

def LogRecord.output? : LogRecord κ δ ω → Option ω
  | .output o => some o
  | _ => none

def Reaction.records (r : Reaction σ κ ω) : List (LogRecord κ δ ω) :=
  r.output.map .output ++ r.calls.map .call

/-- Pending calls and records carry the number of their command. -/
structure System (σ γ κ δ ω : Type) where
  node : σ
  commands : List γ := []
  pending : List (ℕ × κ) := []
  log : List (ℕ × LogRecord κ δ ω) := []

inductive Event (γ κ δ : Type) where
  | command (c : γ)
  | ends (a : ℕ) (k : κ) (d : Option δ)

def Event.command? : Event γ κ δ → Option γ
  | .command c => some c
  | .ends _ _ _ => none

/-- The entries with a number. -/
def ofNumber {α : Type} (a : ℕ) (entries : List (ℕ × α)) : List α :=
  entries.filterMap (fun entry => if entry.1 = a then some entry.2 else none)

namespace System

def pendingOf (s : System σ γ κ δ ω) (a : ℕ) : List κ := ofNumber a s.pending

def thread (s : System σ γ κ δ ω) (a : ℕ) : List (LogRecord κ δ ω) := ofNumber a s.log

def absorb (s : System σ γ κ δ ω) (a : ℕ) (ended : List (LogRecord κ δ ω)) (r : Reaction σ κ ω) :
    System σ γ κ δ ω :=
  { s with
    node := r.node
    pending := s.pending ++ r.calls.map (fun k => (a, k))
    log := s.log ++ (ended ++ r.records).map (fun record => (a, record)) }

end System

def step [DecidableEq κ] (H : Handlers σ γ κ δ ω) (s : System σ γ κ δ ω) :
    Event γ κ δ → Option (System σ γ κ δ ω)
  | .command c =>
    (H.onCommand s.node s.commands.length c).map (fun r =>
      { s with commands := s.commands ++ [c] }.absorb s.commands.length [] r)
  | .ends a k d =>
    if (a, k) ∈ s.pending then
      (H.onEnd s.node k d).map (fun r =>
        { s with pending := s.pending.erase (a, k) }.absorb a [.ended k d] r)
    else none

/-! ### Entries with a number -/

section Entries

variable {α : Type} {a b : ℕ} {x : α} {entries : List (ℕ × α)}

lemma mem_ofNumber : x ∈ ofNumber a entries ↔ (a, x) ∈ entries := by
  unfold ofNumber
  rw [List.mem_filterMap]
  constructor
  · intro h
    obtain ⟨⟨b, y⟩, hm, h⟩ := h
    split_ifs at h with hb
    cases h
    cases hb
    exact hm
  · intro h
    exact ⟨(a, x), h, if_pos rfl⟩

lemma ofNumber_cons_self : ofNumber a ((a, x) :: entries) = x :: ofNumber a entries := by
  simp [ofNumber]

lemma ofNumber_cons_of_ne (h : b ≠ a) : ofNumber a ((b, x) :: entries) = ofNumber a entries := by
  simp [ofNumber, h]

lemma ofNumber_append (entries' : List (ℕ × α)) :
    ofNumber a (entries ++ entries') = ofNumber a entries ++ ofNumber a entries' := List.filterMap_append

lemma ofNumber_map_self (xs : List α) : ofNumber a (xs.map (fun x => (a, x))) = xs := by
  unfold ofNumber
  rw [List.filterMap_map]
  simp

lemma ofNumber_map_of_ne (h : b ≠ a) (xs : List α) : ofNumber a (xs.map (fun x => (b, x))) = [] := by
  unfold ofNumber
  rw [List.filterMap_map]
  simp [h]

lemma ofNumber_eq_nil (h : ∀ entry ∈ entries, entry.1 < a) : ofNumber a entries = [] := by
  unfold ofNumber
  rw [List.filterMap_eq_nil_iff]
  intro entry hm
  exact if_neg (h entry hm).ne

/-- Entries with one more number are below what is above both. -/
lemma lt_of_mem_append_map {m n : ℕ} {xs : List α} (hold : ∀ entry ∈ entries, entry.1 < m) (hmn : m ≤ n) (ha : a < n) :
    ∀ entry ∈ entries ++ xs.map (fun x => (a, x)), entry.1 < n := by
  intro entry hm
  obtain hm | hm := List.mem_append.mp hm
  · exact (hold entry hm).trans_le hmn
  · obtain ⟨x, -, rfl⟩ := List.mem_map.mp hm
    exact ha

lemma getElem?_of_concat {xs : List α} {y : α} (h : (xs ++ [y])[a]? = some x) (ha : a ≠ xs.length) :
    xs[a]? = some x := by
  have hlt := (List.getElem?_eq_some_iff.mp h).1
  rw [List.length_append, List.length_singleton] at hlt
  rwa [List.getElem?_append_left (by omega)] at h

variable [DecidableEq α]

lemma ofNumber_erase_self : ofNumber a (entries.erase (a, x)) = (ofNumber a entries).erase x := by
  induction entries with
  | nil => rfl
  | cons entry entries ih =>
    obtain ⟨b, y⟩ := entry
    by_cases hb : b = a
    · subst hb
      by_cases hy : y = x
      · rw [hy, List.erase_cons_head, ofNumber_cons_self, List.erase_cons_head]
      · rw [List.erase_cons_tail (by simpa using hy), ofNumber_cons_self, ofNumber_cons_self, ih,
          List.erase_cons_tail (by simpa using hy)]
    · rw [List.erase_cons_tail (by simp [hb]), ofNumber_cons_of_ne hb, ofNumber_cons_of_ne hb, ih]

lemma ofNumber_erase_of_ne (h : b ≠ a) : ofNumber a (entries.erase (b, x)) = ofNumber a entries := by
  induction entries with
  | nil => rfl
  | cons entry entries ih =>
    obtain ⟨c, y⟩ := entry
    by_cases he : (c, y) = (b, x)
    · rw [he, List.erase_cons_head, ofNumber_cons_of_ne h]
    · rw [List.erase_cons_tail (by simpa using he)]
      by_cases hc : c = a
      · rw [hc, ofNumber_cons_self, ofNumber_cons_self, ih]
      · rw [ofNumber_cons_of_ne hc, ofNumber_cons_of_ne hc, ih]

end Entries

/-! ### What a step does to the threads -/

section Step

variable [DecidableEq κ] {H : Handlers σ γ κ δ ω} {s t : System σ γ κ δ ω} {r : Reaction σ κ ω} {a b : ℕ}
  {c : γ} {k : κ} {d : Option δ} {ended : List (LogRecord κ δ ω)}

omit [DecidableEq κ] in
lemma pendingOf_absorb_self : (s.absorb a ended r).pendingOf a = s.pendingOf a ++ r.calls := by
  unfold System.pendingOf System.absorb
  rw [ofNumber_append, ofNumber_map_self]

omit [DecidableEq κ] in
lemma pendingOf_absorb_of_ne (h : b ≠ a) : (s.absorb b ended r).pendingOf a = s.pendingOf a := by
  unfold System.pendingOf System.absorb
  rw [ofNumber_append, ofNumber_map_of_ne h, List.append_nil]

omit [DecidableEq κ] in
lemma thread_absorb_self : (s.absorb a ended r).thread a = s.thread a ++ (ended ++ r.records) := by
  unfold System.thread System.absorb
  rw [ofNumber_append, ofNumber_map_self]

omit [DecidableEq κ] in
lemma thread_absorb_of_ne (h : b ≠ a) : (s.absorb b ended r).thread a = s.thread a := by
  unfold System.thread System.absorb
  rw [ofNumber_append, ofNumber_map_of_ne h, List.append_nil]

omit [DecidableEq κ] in
lemma pendingOf_command_of_ne (h : a ≠ s.commands.length) :
    ({ s with commands := s.commands ++ [c] }.absorb s.commands.length [] r).pendingOf a = s.pendingOf a :=
  pendingOf_absorb_of_ne (Ne.symm h)

lemma pendingOf_ends_self : ({ s with pending := s.pending.erase (a, k) }.absorb a [.ended k d] r).pendingOf a =
    (s.pendingOf a).erase k ++ r.calls := by
  rw [pendingOf_absorb_self]
  unfold System.pendingOf
  rw [ofNumber_erase_self]

lemma pendingOf_ends_of_ne (h : b ≠ a) :
    ({ s with pending := s.pending.erase (b, k) }.absorb b [.ended k d] r).pendingOf a = s.pendingOf a := by
  rw [pendingOf_absorb_of_ne h]
  exact ofNumber_erase_of_ne h

/-- A step runs a handler for one command: a new one, or that of the call that ended. -/
inductive Steps (H : Handlers σ γ κ δ ω) (s : System σ γ κ δ ω) :
    Event γ κ δ → ℕ → System σ γ κ δ ω → Prop where
  | command {c : γ} {r : Reaction σ κ ω} (hr : H.onCommand s.node s.commands.length c = some r) :
    Steps H s (.command c) s.commands.length
      ({ s with commands := s.commands ++ [c] }.absorb s.commands.length [] r)
  | ends {a : ℕ} {k : κ} {d : Option δ} {r : Reaction σ κ ω} (hk : k ∈ s.pendingOf a)
      (hr : H.onEnd s.node k d = some r) :
    Steps H s (.ends a k d) a ({ s with pending := s.pending.erase (a, k) }.absorb a [.ended k d] r)

theorem step_eq_some_iff {e : Event γ κ δ} : step H s e = some t ↔ ∃ a, Steps H s e a t := by
  constructor
  · intro h
    cases e with
    | command c =>
      obtain ⟨r, hr, rfl⟩ := Option.map_eq_some_iff.mp h
      exact ⟨_, Steps.command hr⟩
    | ends a k d =>
      simp only [step, Option.ite_none_right_eq_some] at h
      obtain ⟨hk, h⟩ := h
      obtain ⟨r, hr, rfl⟩ := Option.map_eq_some_iff.mp h
      exact ⟨a, Steps.ends (mem_ofNumber.mpr hk) hr⟩
  · intro h
    obtain ⟨a, h⟩ := h
    cases h with
    | command hr =>
      simp only [step, hr, Option.map_some]
    | ends hk hr =>
      have hm := mem_ofNumber.mp hk
      simp only [step, if_pos hm, hr, Option.map_some]

end Step

/-! ### What a run has seen -/

section Seen

variable [DecidableEq κ] {H : Handlers σ γ κ δ ω} {s t : System σ γ κ δ ω} {e : Event γ κ δ} {es : List (Event γ κ δ)}
  {a : ℕ} {k : κ} {d : Option δ}

lemma commands_step (h : step H s e = some t) : t.commands = s.commands ++ e.command?.toList := by
  obtain ⟨b, h⟩ := step_eq_some_iff.mp h
  cases h with
  | command hr => rfl
  | ends hm hr => exact (List.append_nil _).symm

lemma commands_isPrefix (h : step H s e = some t) : s.commands <+: t.commands := by
  rw [commands_step h]
  exact List.prefix_append _ _

/-- The commands of a system are those of the run, in their order. -/
theorem commands_run (h : run (step H) s es = some t) : t.commands = s.commands ++ es.filterMap Event.command? := by
  induction es generalizing s with
  | nil =>
    cases h
    exact (List.append_nil _).symm
  | cons e es ih =>
    obtain ⟨u, hu, h⟩ := run_cons_eq_some.mp h
    rw [ih h, commands_step hu, List.append_assoc, List.filterMap_cons]
    cases e.command? with
    | none => rfl
    | some c => rfl

omit [DecidableEq κ] in
lemma ended_not_mem_records {r : Reaction σ κ ω} : (.ended k d : LogRecord κ δ ω) ∉ r.records := by
  simp [Reaction.records]

lemma ended_step (h : step H s e = some t) (hm : (a, .ended k d) ∈ t.log) :
    (a, .ended k d) ∈ s.log ∨ e = .ends a k d := by
  obtain ⟨b, h⟩ := step_eq_some_iff.mp h
  cases h with
  | command hr =>
    obtain hm | hm := List.mem_append.mp hm
    · exact Or.inl hm
    · obtain ⟨record, hrecord, heq⟩ := List.mem_map.mp hm
      cases heq
      rw [List.nil_append] at hrecord
      exact (ended_not_mem_records hrecord).elim
  | ends hk hr =>
    obtain hm | hm := List.mem_append.mp hm
    · exact Or.inl hm
    · obtain ⟨record, hrecord, heq⟩ := List.mem_map.mp hm
      cases heq
      obtain heq | hrecord := List.mem_append.mp hrecord
      · cases List.mem_singleton.mp heq
        exact Or.inr rfl
      · exact (ended_not_mem_records hrecord).elim

/-- A call in the log that has ended did so in the run. -/
theorem ended_run (hs : s.log = []) (h : run (step H) s es = some t) (hm : .ended k d ∈ t.thread a) :
    .ends a k d ∈ es := by
  replace hm := mem_ofNumber.mp hm
  induction es using List.reverseRecOn generalizing t with
  | nil =>
    cases h
    rw [hs] at hm
    cases hm
  | append_singleton ds e ih =>
    obtain ⟨u, hu, h⟩ := run_snoc_eq_some.mp h
    obtain hm | rfl := ended_step h hm
    · exact List.mem_append_left _ (ih hu hm)
    · exact List.mem_append_right _ (List.mem_singleton_self _)

lemma ended_of_ends (h : step H s (.ends a k d) = some t) : .ended k d ∈ t.thread a := by
  obtain ⟨b, h⟩ := step_eq_some_iff.mp h
  cases h with
  | ends hk hr =>
    rw [thread_absorb_self]
    apply List.mem_append_right
    exact List.mem_append_left _ (List.mem_singleton_self _)

end Seen

/-! ### Facts about every thread -/

/-- What the handlers have to keep of a fact `T` about the state, a command with its number, its
pending calls and its thread. `Rel` is what holds of a command with its pending calls, and another
that a handler runs for. -/
structure Keeps [DecidableEq κ] (H : Handlers σ γ κ δ ω) (Rel : γ → List κ → γ → Prop)
    (T : σ → ℕ → γ → List κ → List (LogRecord κ δ ω) → Prop) : Prop where
  command : ∀ s a c r, H.onCommand s a c = some r → T r.node a c r.calls r.records
  ends : ∀ s a c calls records k d r, T s a c calls records → k ∈ calls → H.onEnd s k d = some r →
    T r.node a c (calls.erase k ++ r.calls) (records ++ (.ended k d :: r.records))
  frameCommand : ∀ s a c calls records b c' r, a < b → Rel c calls c' → T s a c calls records →
    H.onCommand s b c' = some r → T r.node a c calls records
  frameEnds : ∀ s a c calls records b c' calls' records' k d r, a ≠ b → Rel c calls c' → T s a c calls records →
    T s b c' calls' records' → k ∈ calls' → H.onEnd s k d = some r → T r.node a c calls records

/-- The fact holds of every command, and nothing has a number that no command has. -/
structure Threaded (T : σ → ℕ → γ → List κ → List (LogRecord κ δ ω) → Prop) (s : System σ γ κ δ ω) : Prop where
  thread : ∀ a c, s.commands[a]? = some c → T s.node a c (s.pendingOf a) (s.thread a)
  pending : ∀ entry ∈ s.pending, entry.1 < s.commands.length
  log : ∀ entry ∈ s.log, entry.1 < s.commands.length

section Run

variable [DecidableEq κ] {H : Handlers σ γ κ δ ω} {s t : System σ γ κ δ ω} {Apart : γ → γ → Prop}
  {Rel : γ → List κ → γ → Prop} {T : σ → ℕ → γ → List κ → List (LogRecord κ δ ω) → Prop} {e : Event γ κ δ}
  {es : List (Event γ κ δ)} {a b : ℕ}

theorem Threaded.step (hk : Keeps H Rel T) (hs : Threaded T s) (h : Steps H s e b t)
    (hrel : ∀ a c c', a ≠ b → t.commands[a]? = some c → t.commands[b]? = some c' → Rel c (s.pendingOf a) c') :
    Threaded T t := by
  cases h with
  | @command c r hr =>
    have hlength : (s.commands ++ [c]).length = s.commands.length + 1 := by
      rw [List.length_append, List.length_singleton]
    have hle : s.commands.length ≤ (s.commands ++ [c]).length := by omega
    have hlt : s.commands.length < (s.commands ++ [c]).length := by omega
    have hlast : (s.commands ++ [c])[s.commands.length]? = some c := List.getElem?_concat_length
    refine ⟨?_, lt_of_mem_append_map hs.pending hle hlt, lt_of_mem_append_map hs.log hle hlt⟩
    intro a ca hca
    change (s.commands ++ [c])[a]? = some ca at hca
    by_cases ha : a = s.commands.length
    · subst ha
      cases hca.symm.trans hlast
      rw [pendingOf_absorb_self, thread_absorb_self]
      have hpending : s.pendingOf s.commands.length = [] := ofNumber_eq_nil hs.pending
      have hthread : s.thread s.commands.length = [] := ofNumber_eq_nil hs.log
      change T r.node _ c (s.pendingOf s.commands.length ++ r.calls) (s.thread s.commands.length ++ r.records)
      rw [hpending, hthread, List.nil_append, List.nil_append]
      exact hk.command s.node _ c r hr
    · rw [pendingOf_command_of_ne ha, thread_absorb_of_ne (Ne.symm ha)]
      have hold := getElem?_of_concat hca ha
      have halt := (List.getElem?_eq_some_iff.mp hold).1
      exact hk.frameCommand s.node a ca _ _ _ c r halt (hrel a ca c ha hca hlast) (hs.thread a ca hold) hr
  | @ends b k d r hm hr =>
    have hlt : b < s.commands.length := hs.pending (b, k) (mem_ofNumber.mp hm)
    have hcb := List.getElem?_eq_getElem hlt
    have herased : ∀ entry ∈ s.pending.erase (b, k), entry.1 < s.commands.length :=
      fun entry he => hs.pending entry (List.mem_of_mem_erase he)
    refine ⟨?_, lt_of_mem_append_map herased le_rfl hlt, lt_of_mem_append_map hs.log le_rfl hlt⟩
    intro a ca hca
    change s.commands[a]? = some ca at hca
    by_cases ha : a = b
    · subst ha
      rw [pendingOf_ends_self, thread_absorb_self]
      exact hk.ends s.node a ca _ _ k d r (hs.thread a ca hca) hm hr
    · rw [pendingOf_ends_of_ne (Ne.symm ha), thread_absorb_of_ne (Ne.symm ha)]
      exact hk.frameEnds s.node a ca _ _ b _ _ _ k d r ha (hrel a ca _ ha hca hcb)
        (hs.thread a ca hca) (hs.thread b _ hcb) hm hr

omit [DecidableEq κ] in
lemma threaded_start (node : σ) : Threaded T ({ node := node } : System σ γ κ δ ω) where
  thread a c h := by simp at h
  pending entry h := by simp at h
  log entry h := by simp at h

omit [DecidableEq κ] in
lemma apart_of_pairwise {cs : List γ} {c c' : γ} (hsymm : ∀ c c', Apart c c' → Apart c' c) (hcs : cs.Pairwise Apart)
    (ha : cs[a]? = some c) (hb : cs[b]? = some c') (hne : a ≠ b) : Apart c c' := by
  obtain ⟨hal, rfl⟩ := List.getElem?_eq_some_iff.mp ha
  obtain ⟨hbl, rfl⟩ := List.getElem?_eq_some_iff.mp hb
  rw [List.pairwise_iff_getElem] at hcs
  obtain hlt | hgt := Nat.lt_or_gt_of_ne hne
  · exact hcs a b hal hbl hlt
  · exact hsymm _ _ (hcs b a hbl hal hgt)

/-- In a run whose commands are apart the fact holds of every thread. -/
theorem Threaded.run (hk : Keeps H (fun c _ c' => Apart c c') T) (hsymm : ∀ c c', Apart c c' → Apart c' c)
    (hs : Threaded T s) (hrun : EventRun.run (Threads.step H) s es = some t) (hapart : t.commands.Pairwise Apart) :
    Threaded T t := by
  have hinv := reachable_invariant (I := fun u => u.commands.Pairwise Apart → Threaded T u) ?_ ?_ ⟨es, hrun⟩
  · exact hinv hapart
  · intro u e v hu he hv
    obtain ⟨b, hb⟩ := step_eq_some_iff.mp he
    apply (hu (hv.sublist (commands_isPrefix he).sublist)).step hk hb
    intro a c c' hne hc hc'
    exact apart_of_pairwise hsymm hv hc hc' hne
  · intro _
    exact hs

/-! ### Commands outstanding at the same time -/

/-- Commands with calls pending at the same time are apart. -/
def Isolated (Apart : γ → γ → Prop) (s : System σ γ κ δ ω) : Prop :=
  ∀ a b c c', a ≠ b → s.commands[a]? = some c → s.commands[b]? = some c' → s.pendingOf a ≠ [] → s.pendingOf b ≠ [] →
    Apart c c'

/-- A new command is apart from those with calls pending. -/
def ComesApart (Apart : γ → γ → Prop) (s : System σ γ κ δ ω) : Event γ κ δ → Prop
  | .command c => ∀ a c', s.commands[a]? = some c' → s.pendingOf a ≠ [] → Apart c' c
  | .ends _ _ _ => True

lemma Isolated.step (hsymm : ∀ c c', Apart c c' → Apart c' c) (hs : Isolated Apart s) (hfresh : ComesApart Apart s e)
    (h : Steps H s e b t) : Isolated Apart t := by
  cases h with
  | @command c r hr =>
    intro a b ca cb hne hca hcb hpa hpb
    have hlast : (s.commands ++ [c])[s.commands.length]? = some c := List.getElem?_concat_length
    by_cases ha : a = s.commands.length
    · subst ha
      cases hca.symm.trans hlast
      rw [pendingOf_command_of_ne hne.symm] at hpb
      exact hsymm _ _ (hfresh b cb (getElem?_of_concat hcb hne.symm) hpb)
    · rw [pendingOf_command_of_ne ha] at hpa
      by_cases hb : b = s.commands.length
      · subst hb
        cases hcb.symm.trans hlast
        exact hfresh a ca (getElem?_of_concat hca ha) hpa
      · rw [pendingOf_command_of_ne hb] at hpb
        exact hs a b ca cb hne (getElem?_of_concat hca ha) (getElem?_of_concat hcb hb) hpa hpb
  | @ends b k d r hk hr =>
    -- what has calls pending after the end of a call had some before
    have hpending : ∀ a, ({ s with pending := s.pending.erase (b, k) }.absorb b [.ended k d] r).pendingOf a ≠ [] →
        s.pendingOf a ≠ [] := by
      intro a hpa
      by_cases ha : a = b
      · subst ha
        exact List.ne_nil_of_mem hk
      · rwa [pendingOf_ends_of_ne (Ne.symm ha)] at hpa
    intro a a' ca ca' hne hca hca' hpa hpa'
    exact hs a a' ca ca' hne hca hca' (hpending a hpa) (hpending a' hpa')

/-- Facts that need apartness only while calls are pending hold in every run whose new commands
are apart from those with calls pending. -/
theorem Threaded.run_fresh (hk : Keeps H (fun c calls c' => calls ≠ [] → Apart c c') T)
    (hsymm : ∀ c c', Apart c c' → Apart c' c) {node : σ}
    (hrun : EventRun.run (Threads.step H) { node := node } es = some t)
    (hfresh : Meets (Threads.step H) (ComesApart Apart) { node := node } es) : Threaded T t := by
  have hinv : Threaded T t ∧ Isolated Apart t := by
    refine run_invariant (I := fun u => Threaded T u ∧ Isolated Apart u) ?_ ⟨threaded_start node, ?_⟩ hfresh hrun
    · intro u e v hu he hv
      obtain ⟨b, hb⟩ := step_eq_some_iff.mp hv
      refine ⟨hu.1.step hk hb ?_, hu.2.step hsymm he hb⟩
      intro a c c' hne hc hc' hpa
      cases hb with
      | @command c r hr =>
        rw [commands_step hv] at hc hc'
        have hlast : (u.commands ++ [c])[u.commands.length]? = some c := List.getElem?_concat_length
        cases hc'.symm.trans hlast
        exact he a _ (getElem?_of_concat hc hne) hpa
      | ends hkb hr => exact hu.2 a b c c' hne hc hc' hpa (List.ne_nil_of_mem hkb)
    · intro a b c c' hne hc
      simp at hc
  exact hinv.1

/-- Where all commands are apart, new ones are. -/
lemma meets_fresh (hrun : EventRun.run (Threads.step H) s es = some t) (hapart : t.commands.Pairwise Apart) :
    Meets (Threads.step H) (ComesApart Apart) s es := by
  rw [meets_iff]
  intro ds e us u heq hu
  subst heq
  obtain ⟨v, hv, hrun⟩ := run_append_eq_some.mp hrun
  cases hu.symm.trans hv
  cases e with
  | ends _ _ _ => trivial
  | command c =>
    intro a c' hc' _
    have hcommands := commands_run hrun
    rw [hcommands, List.pairwise_append] at hapart
    exact hapart.2.2 c' (List.mem_of_getElem? hc') c (by simp [Event.command?])

end Run

end Threads
