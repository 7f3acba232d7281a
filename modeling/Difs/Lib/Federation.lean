import Difs.Lib.Threads

/-!
# Systems that call each other

Nodes with threads, and a store beside the threads of each. A call of one node is received by
another, any number of times and at any time after it was made: as a command, or served at once
from the store. A call that is pending may end with any answer that was given to it, or without
one. Outputs change the store of their node, and may answer the call a command came from.
-/

namespace Federation

open EventRun
open Threads (Handlers System LogRecord Threaded Keeps)

/-- A call, with the node that made it and the number of its command there. -/
structure Caller (ι κ : Type) where
  node : ι
  command : ℕ
  call : κ
deriving DecidableEq

/-- `ε` is what a node draws when it receives a call or an answer. A call for which `onCall` is
`none` is not answered. -/
structure Service (ι σ γ κ δ ω β ρ ε η : Type) where
  handlers : Handlers σ γ κ δ ω
  dest : κ → ι
  onInput : β → η → γ
  onCall : β → κ → ε → Option (γ ⊕ β × ρ)
  answer : ρ → ε → δ
  effect : β → ω → β
  reply? : ω → Option (ℕ × ρ)

/-- `callers` has for each command of a node the call it came from, if it came from one. -/
structure Net (ι σ γ κ δ ω β ρ : Type) where
  system : ι → System σ γ κ δ ω
  store : ι → β
  callers : ι → List (Option (Caller ι κ)) := fun _ => []
  answers : List (Caller ι κ × ρ) := []

inductive Event (ι κ ρ ε η : Type) where
  | input (x : ι) (c : η)
  | receive (o : Caller ι κ) (d : ε)
  | answer (o : Caller ι κ) (response : ρ) (d : ε)
  | timeout (o : Caller ι κ)

variable {ι σ γ κ δ ω β ρ ε η : Type}

/-- The outputs in the log since. -/
def newOutputs (s t : System σ γ κ δ ω) : List ω :=
  (t.log.drop s.log.length).filterMap (fun entry => entry.2.output?)

/-- The call that an output answers. -/
def Service.replyTo (F : Service ι σ γ κ δ ω β ρ ε η) (callers : List (Option (Caller ι κ))) (o : ω) :
    Option (Caller ι κ × ρ) :=
  (F.reply? o).bind (fun r => (callers[r.1]?.join).map (fun c => (c, r.2)))

variable [DecidableEq ι]

def Net.absorb (F : Service ι σ γ κ δ ω β ρ ε η) (n : Net ι σ γ κ δ ω β ρ) (x : ι) (s : System σ γ κ δ ω)
    (origin : List (Option (Caller ι κ))) : Net ι σ γ κ δ ω β ρ where
  system := Function.update n.system x s
  store := Function.update n.store x ((newOutputs (n.system x) s).foldl F.effect (n.store x))
  callers := Function.update n.callers x (n.callers x ++ origin)
  answers := n.answers ++ (newOutputs (n.system x) s).filterMap (F.replyTo (n.callers x ++ origin))

def Net.serve (F : Service ι σ γ κ δ ω β ρ ε η) (n : Net ι σ γ κ δ ω β ρ) (o : Caller ι κ) (store : β)
    (response : ρ) : Net ι σ γ κ δ ω β ρ :=
  { n with
    store := Function.update n.store (F.dest o.call) store
    answers := n.answers ++ [(o, response)] }

section Absorb

variable {F : Service ι σ γ κ δ ω β ρ ε η} {n : Net ι σ γ κ δ ω β ρ} {x y : ι} {s : System σ γ κ δ ω}
  {origin : List (Option (Caller ι κ))}

lemma system_absorb_self : (n.absorb F x s origin).system x = s := Function.update_self ..

lemma system_absorb_of_ne (h : y ≠ x) : (n.absorb F x s origin).system y = n.system y := Function.update_of_ne h ..

lemma store_absorb_self :
    (n.absorb F x s origin).store x = (newOutputs (n.system x) s).foldl F.effect (n.store x) := Function.update_self ..

lemma store_absorb_of_ne (h : y ≠ x) : (n.absorb F x s origin).store y = n.store y := Function.update_of_ne h ..

lemma callers_absorb_self : (n.absorb F x s origin).callers x = n.callers x ++ origin := Function.update_self ..

lemma callers_absorb_of_ne (h : y ≠ x) : (n.absorb F x s origin).callers y = n.callers y := Function.update_of_ne h ..

end Absorb

variable [DecidableEq κ]

/-- A step of the threads of one node. -/
def acts (F : Service ι σ γ κ δ ω β ρ ε η) (n : Net ι σ γ κ δ ω β ρ) (x : ι) (e : Threads.Event γ κ δ)
    (origin : List (Option (Caller ι κ))) : Option (Net ι σ γ κ δ ω β ρ) :=
  (Threads.step F.handlers (n.system x) e).map (fun s => n.absorb F x s origin)

def step [DecidableEq δ] [DecidableEq ω] [DecidableEq ρ] (F : Service ι σ γ κ δ ω β ρ ε η)
    (n : Net ι σ γ κ δ ω β ρ) : Event ι κ ρ ε η → Option (Net ι σ γ κ δ ω β ρ)
  | .input x c => acts F n x (.command (F.onInput (n.store x) c)) [none]
  | .receive o d =>
    if .call o.call ∈ (n.system o.node).thread o.command then
      match F.onCall (n.store (F.dest o.call)) o.call d with
      | none => none
      | some (.inl c) => acts F n (F.dest o.call) (.command c) [some o]
      | some (.inr (store, response)) => some (n.serve F o store response)
    else none
  | .answer o response d =>
    if (o, response) ∈ n.answers then acts F n o.node (.ends o.command o.call (some (F.answer response d))) []
    else none
  | .timeout o => acts F n o.node (.ends o.command o.call none) []

/-! ### What a step does -/

/-- The event at one node that an event of the net is, and where its command came from. -/
inductive Local (F : Service ι σ γ κ δ ω β ρ ε η) (n : Net ι σ γ κ δ ω β ρ) :
    Event ι κ ρ ε η → ι → Threads.Event γ κ δ → List (Option (Caller ι κ)) → Prop where
  | input (x : ι) (c : η) : Local F n (.input x c) x (.command (F.onInput (n.store x) c)) [none]
  | receive {o : Caller ι κ} {d : ε} {c : γ} (hcall : .call o.call ∈ (n.system o.node).thread o.command)
    (hc : F.onCall (n.store (F.dest o.call)) o.call d = some (.inl c)) :
    Local F n (.receive o d) (F.dest o.call) (.command c) [some o]
  | answer {o : Caller ι κ} {response : ρ} (d : ε) (h : (o, response) ∈ n.answers) :
    Local F n (.answer o response d) o.node (.ends o.command o.call (some (F.answer response d))) []
  | timeout (o : Caller ι κ) : Local F n (.timeout o) o.node (.ends o.command o.call none) []

/-- A step of one node's threads, or a call served at once. -/
inductive Moves (F : Service ι σ γ κ δ ω β ρ ε η) (n : Net ι σ γ κ δ ω β ρ) :
    Event ι κ ρ ε η → Net ι σ γ κ δ ω β ρ → Prop where
  | acts {e : Event ι κ ρ ε η} {x : ι} {le : Threads.Event γ κ δ} {origin : List (Option (Caller ι κ))}
    {s : System σ γ κ δ ω} (hlocal : Local F n e x le origin) (hs : Threads.step F.handlers (n.system x) le = some s) :
    Moves F n e (n.absorb F x s origin)
  | served {o : Caller ι κ} {d : ε} {store : β} {response : ρ}
    (hcall : .call o.call ∈ (n.system o.node).thread o.command)
    (hserve : F.onCall (n.store (F.dest o.call)) o.call d = some (.inr (store, response))) :
    Moves F n (.receive o d) (n.serve F o store response)

section Step

variable {F : Service ι σ γ κ δ ω β ρ ε η} {n t : Net ι σ γ κ δ ω β ρ} {e : Event ι κ ρ ε η} {x : ι}
  {le : Threads.Event γ κ δ} {origin : List (Option (Caller ι κ))}

lemma acts_moves (hlocal : Local F n e x le origin) (h : acts F n x le origin = some t) : Moves F n e t := by
  obtain ⟨s, hs, rfl⟩ := Option.map_eq_some_iff.mp h
  exact .acts hlocal hs

/-- All that a step can do. -/
theorem step_moves [DecidableEq δ] [DecidableEq ω] [DecidableEq ρ] (h : step F n e = some t) : Moves F n e t := by
  cases e with
  | input x c => exact acts_moves (.input x c) h
  | receive o d =>
    simp only [step, Option.ite_none_right_eq_some] at h
    obtain ⟨hcall, h⟩ := h
    cases hserve : F.onCall (n.store (F.dest o.call)) o.call d with
    | none => simp [hserve] at h
    | some served =>
      rw [hserve] at h
      cases served with
      | inl c => exact acts_moves (.receive hcall hserve) h
      | inr served =>
        cases h
        exact .served hcall hserve
  | answer o response d =>
    simp only [step, Option.ite_none_right_eq_some] at h
    exact acts_moves (.answer d h.1) h.2
  | timeout o => exact acts_moves (.timeout o) h

end Step

/-! ### The threads of each node -/

section Threads

variable {F : Service ι σ γ κ δ ω β ρ ε η} {n t : Net ι σ γ κ δ ω β ρ} {e : Event ι κ ρ ε η} {x y : ι}
  {le : Threads.Event γ κ δ} {origin : List (Option (Caller ι κ))} {Apart : γ → γ → Prop}
  {Rel : γ → List κ → γ → Prop} {T : σ → ℕ → γ → List κ → List (LogRecord κ δ ω) → Prop}

/-- Each node takes a step of its own threads, or none. -/
lemma system_of_moves (h : Moves F n e t) (y : ι) :
    t.system y = n.system y ∨ ∃ le, Threads.step F.handlers (n.system y) le = some (t.system y) := by
  cases h with
  | served _ _ => exact Or.inl rfl
  | @acts e x le origin s hlocal hs =>
    by_cases hy : y = x
    · subst hy
      refine Or.inr ⟨le, ?_⟩
      rw [system_absorb_self]
      exact hs
    · exact Or.inl (system_absorb_of_ne hy)

/-- The node that an event happens at. -/
def Event.site (F : Service ι σ γ κ δ ω β ρ ε η) : Event ι κ ρ ε η → ι
  | .input x _ => x
  | .receive o _ => F.dest o.call
  | .answer o _ _ => o.node
  | .timeout o => o.node

omit [DecidableEq ι] [DecidableEq κ] in
lemma Local.site_eq (h : Local F n e x le origin) : x = e.site F := by
  cases h <;> rfl

/-- The other nodes are as before. -/
lemma system_of_moves_of_ne (h : Moves F n e t) (hy : y ≠ e.site F) : t.system y = n.system y := by
  cases h with
  | served _ _ => rfl
  | acts hlocal hs =>
    rw [← hlocal.site_eq] at hy
    exact system_absorb_of_ne hy

lemma commands_of_moves (h : Moves F n e t) (y : ι) : (n.system y).commands <+: (t.system y).commands := by
  obtain heq | ⟨le, hs⟩ := system_of_moves h y
  · rw [heq]
  · exact Threads.commands_isPrefix hs

section Runs

variable [DecidableEq δ] [DecidableEq ω] [DecidableEq ρ] {es : List (Event ι κ ρ ε η)}

lemma system_run_of_ne (hrun : run (step F) n es = some t) (hy : ∀ e ∈ es, y ≠ e.site F) :
    t.system y = n.system y := by
  induction es generalizing n with
  | nil =>
    cases hrun
    rfl
  | cons e es ih =>
    obtain ⟨u, hu, hrun⟩ := run_cons_eq_some.mp hrun
    rw [ih hrun (List.forall_mem_of_forall_mem_cons hy)]
    exact system_of_moves_of_ne (step_moves hu) (hy e List.mem_cons_self)

lemma commands_run_isPrefix (hrun : run (step F) n es = some t) (y : ι) :
    (n.system y).commands <+: (t.system y).commands := by
  refine reachable_invariant (I := fun u => (n.system y).commands <+: (u.system y).commands) ?_ List.prefix_rfl
    ⟨es, hrun⟩
  intro u e v hu h
  exact hu.trans (commands_of_moves (step_moves h) y)

/-- A command that comes in stays in its place. -/
lemma command_of_input {c : η} (hrun : run (step F) n (.input x c :: es) = some t) :
    (t.system x).commands[(n.system x).commands.length]? = some (F.onInput (n.store x) c) := by
  obtain ⟨u, hu, hrun⟩ := run_cons_eq_some.mp hrun
  obtain ⟨s, hs, rfl⟩ := Option.map_eq_some_iff.mp hu
  have hcommands : s.commands = (n.system x).commands ++ [F.onInput (n.store x) c] := Threads.commands_step hs
  obtain ⟨rest, hrest⟩ := commands_run_isPrefix hrun x
  rw [system_absorb_self, hcommands] at hrest
  rw [← hrest, List.append_assoc, List.singleton_append, List.getElem?_append_right le_rfl, Nat.sub_self]
  rfl

end Runs

/-- What holds of the threads of one node alone holds at every node of a net. -/
theorem threaded_run [DecidableEq δ] [DecidableEq ω] [DecidableEq ρ] {es : List (Event ι κ ρ ε η)}
    (hk : Keeps F.handlers Rel T) (hrel : ∀ c calls c', Apart c c' → Rel c calls c')
    (hsymm : ∀ c c', Apart c c' → Apart c' c) (hn : ∀ x, Threaded T (n.system x)) (hrun : run (step F) n es = some t)
    (hapart : ∀ x, (t.system x).commands.Pairwise Apart) : ∀ x, Threaded T (t.system x) := by
  have hinv := reachable_invariant
    (I := fun u => (∀ x, (u.system x).commands.Pairwise Apart) → ∀ x, Threaded T (u.system x)) ?_ ?_ ⟨es, hrun⟩
  · exact hinv hapart
  · intro u e v hu h hv x
    have hm := step_moves h
    have hux := hu (fun x => (hv x).sublist (commands_of_moves hm x).sublist) x
    obtain heq | ⟨le, hs⟩ := system_of_moves hm x
    · rw [heq]
      exact hux
    · obtain ⟨b, hb⟩ := Threads.step_eq_some_iff.mp hs
      apply hux.step hk hb
      intro a c c' hne hc hc'
      exact hrel _ _ _ (Threads.apart_of_pairwise hsymm (hv x) hc hc' hne)
  · intro _
    exact hn

end Threads

/-! ### Outputs in the log -/

section Log

variable {H : Handlers σ γ κ δ ω} {s t : System σ γ κ δ ω} {le : Threads.Event γ κ δ} {a : ℕ} {out : ω}
  {record : LogRecord κ δ ω}

omit [DecidableEq ι] in
lemma log_isPrefix (h : Threads.step H s le = some t) : s.log <+: t.log := by
  obtain ⟨b, h⟩ := Threads.step_eq_some_iff.mp h
  cases h with
  | command hr => exact List.prefix_append _ _
  | ends hk hr => exact List.prefix_append _ _

omit [DecidableEq ι] in
lemma thread_subset (h : Threads.step H s le = some t) (hm : record ∈ s.thread a) : record ∈ t.thread a :=
  Threads.mem_ofNumber.mpr ((log_isPrefix h).subset (Threads.mem_ofNumber.mp hm))

omit [DecidableEq ι] in
lemma log_eq (h : Threads.step H s le = some t) : t.log = s.log ++ t.log.drop s.log.length := by
  obtain ⟨rest, hrest⟩ := log_isPrefix h
  rw [← hrest, List.drop_left]

omit [DecidableEq ι] in
lemma mem_newOutputs (h : Threads.step H s le = some t) (hm : .output out ∈ t.thread a) :
    .output out ∈ s.thread a ∨ out ∈ newOutputs s t := by
  have hlog := Threads.mem_ofNumber.mp hm
  rw [log_eq h, List.mem_append] at hlog
  obtain hlog | hlog := hlog
  · exact Or.inl (Threads.mem_ofNumber.mpr hlog)
  · exact Or.inr (List.mem_filterMap.mpr ⟨_, hlog, rfl⟩)

omit [DecidableEq ι] [DecidableEq κ] in
lemma output_of_new (hm : out ∈ newOutputs s t) : ∃ a, .output out ∈ t.thread a := by
  obtain ⟨⟨a, record⟩, hlog, hout⟩ := List.mem_filterMap.mp hm
  refine ⟨a, Threads.mem_ofNumber.mpr ?_⟩
  cases record with
  | output o =>
    cases hout
    exact List.mem_of_mem_drop hlog
  | call k => cases hout
  | ended k d => cases hout

end Log

/-! ### What the stores keep -/

/-- `I` is kept by all that happens to a store. `G` is what an answer that was served at once says of the
store from then on, and `E` what an output does. -/
structure Keeping (F : Service ι σ γ κ δ ω β ρ ε η) (I : ι → β → Prop) (G : κ → ρ → β → Prop)
    (E : ω → β → Prop) : Prop where
  serve : ∀ store k d store' response, F.onCall store k d = some (.inr (store', response)) → I (F.dest k) store →
    I (F.dest k) store' ∧ G k response store' ∧ (∀ k' r, G k' r store → G k' r store') ∧
      ∀ out, E out store → E out store'
  effect : ∀ y store out, I y store → I y (F.effect store out) ∧ E out (F.effect store out) ∧
    (∀ k r, G k r store → G k r (F.effect store out)) ∧ ∀ out', E out' store → E out' (F.effect store out)

/-- Where commands come from, and what answers stand on. -/
structure Accounted (F : Service ι σ γ κ δ ω β ρ ε η) (I : ι → β → Prop) (G : κ → ρ → β → Prop)
    (E : ω → β → Prop) (n : Net ι σ γ κ δ ω β ρ) : Prop where
  store : ∀ y, I y (n.store y)
  output : ∀ y a out, .output out ∈ (n.system y).thread a → E out (n.store y)
  ended : ∀ x a k d, .ended k (some d) ∈ (n.system x).thread a →
    ∃ response drawn, (⟨x, a, k⟩, response) ∈ n.answers ∧ d = F.answer response drawn
  length : ∀ y, (n.callers y).length = (n.system y).commands.length
  input : ∀ y (b : ℕ), (n.callers y)[b]? = some none →
    ∃ store c, I y store ∧ (n.system y).commands[b]? = some (F.onInput store c)
  caller : ∀ y (b : ℕ) o, (n.callers y)[b]? = some (some o) → F.dest o.call = y ∧
    .call o.call ∈ (n.system o.node).thread o.command ∧
      ∃ store drawn c, I y store ∧ F.onCall store o.call drawn = some (.inl c) ∧ (n.system y).commands[b]? = some c
  answer : ∀ o response, (o, response) ∈ n.answers → .call o.call ∈ (n.system o.node).thread o.command ∧
    (G o.call response (n.store (F.dest o.call)) ∨
      ∃ (b : ℕ) (a : ℕ) (out : ω), (n.callers (F.dest o.call))[b]? = some (some o) ∧
        .output out ∈ (n.system (F.dest o.call)).thread a ∧ F.reply? out = some (b, response))

section Accounts

variable {F : Service ι σ γ κ δ ω β ρ ε η} {n t : Net ι σ γ κ δ ω β ρ} {e : Event ι κ ρ ε η} {x y : ι}
  {I : ι → β → Prop} {G : κ → ρ → β → Prop} {E : ω → β → Prop} {le : Threads.Event γ κ δ}
  {origin : List (Option (Caller ι κ))} {s : System σ γ κ δ ω} {a b : ℕ} {record : LogRecord κ δ ω}

omit [DecidableEq ι] [DecidableEq κ] in
lemma Keeping.foldl (hk : Keeping F I G E) (outs : List ω) {store : β} (hstore : I y store) :
    I y (outs.foldl F.effect store) ∧ (∀ out ∈ outs, E out (outs.foldl F.effect store)) ∧
      (∀ k r, G k r store → G k r (outs.foldl F.effect store)) ∧
        ∀ out, E out store → E out (outs.foldl F.effect store) := by
  induction outs generalizing store with
  | nil => exact ⟨hstore, List.forall_mem_nil _, fun _ _ hg => hg, fun _ he => he⟩
  | cons out outs ih =>
    obtain ⟨hnext, hout, hanswers, houtputs⟩ := hk.effect y store out hstore
    obtain ⟨hlast, houts, hanswers', houtputs'⟩ := ih hnext
    refine ⟨hlast, ?_, fun k r hg => hanswers' k r (hanswers k r hg), fun o he => houtputs' o (houtputs o he)⟩
    exact List.forall_mem_cons.mpr ⟨houtputs' out hout, houts⟩

lemma stores_of_moves (hk : Keeping F I G E) (hstore : ∀ y, I y (n.store y)) (h : Moves F n e t) (y : ι) :
    I y (t.store y) ∧ (∀ k r, G k r (n.store y) → G k r (t.store y)) ∧
      ∀ out, E out (n.store y) → E out (t.store y) := by
  cases h with
  | @acts e x le origin s hlocal hs =>
    by_cases hy : y = x
    · subst hy
      rw [store_absorb_self]
      obtain ⟨hI, -, hG, hE⟩ := hk.foldl (newOutputs (n.system y) s) (hstore y)
      exact ⟨hI, hG, hE⟩
    · rw [store_absorb_of_ne hy]
      exact ⟨hstore y, fun _ _ hg => hg, fun _ he => he⟩
  | @served o d store response hcall hserve =>
    unfold Net.serve
    dsimp only
    by_cases hy : y = F.dest o.call
    · subst hy
      obtain ⟨hI, -, hG, hE⟩ := hk.serve _ _ _ _ _ hserve (hstore _)
      rw [Function.update_self]
      exact ⟨hI, hG, hE⟩
    · rw [Function.update_of_ne hy]
      exact ⟨hstore y, fun _ _ hg => hg, fun _ he => he⟩

lemma thread_of_moves (h : Moves F n e t) (hm : record ∈ (n.system y).thread a) : record ∈ (t.system y).thread a := by
  obtain heq | ⟨le, hs⟩ := system_of_moves h y
  · rw [heq]
    exact hm
  · exact thread_subset hs hm

lemma callers_of_moves (h : Moves F n e t) (y : ι) : n.callers y <+: t.callers y := by
  cases h with
  | @acts e x le origin s hlocal hs =>
    by_cases hy : y = x
    · subst hy
      rw [callers_absorb_self]
      exact List.prefix_append _ _
    · rw [callers_absorb_of_ne hy]
  | served hcall hserve => exact List.prefix_rfl

lemma answers_of_moves (h : Moves F n e t) : n.answers <+: t.answers := by
  cases h with
  | acts hlocal hs => exact List.prefix_append _ _
  | served hcall hserve => exact List.prefix_append _ _

omit [DecidableEq ι] in
/-- A command that a node has one more is the one of the event. -/
lemma command_of_origin (hlocal : Local F n e x le origin) (hs : Threads.step F.handlers (n.system x) le = some s)
    (hlength : (n.callers x).length = (n.system x).commands.length) {origin' : Option (Caller ι κ)}
    (hb : (n.callers x ++ origin)[b]? = some origin') :
    (n.callers x)[b]? = some origin' ∨ origin = [origin'] ∧ ∃ c, le = .command c ∧ s.commands[b]? = some c := by
  by_cases hlt : b < (n.callers x).length
  · rw [List.getElem?_append_left hlt] at hb
    exact Or.inl hb
  · rw [List.getElem?_append_right (not_lt.mp hlt)] at hb
    have hcommands := Threads.commands_step hs
    have hone : ∀ (c : γ) (who : Option (Caller ι κ)), le = .command c → origin = [who] →
        origin = [origin'] ∧ ∃ c, le = .command c ∧ s.commands[b]? = some c := by
      intro c who hle horigin
      rw [horigin, List.getElem?_singleton] at hb
      split_ifs at hb with hzero
      cases hb
      refine ⟨horigin, c, hle, ?_⟩
      have hlast : b = (n.system x).commands.length := by omega
      rw [hcommands, hle, hlast]
      exact List.getElem?_concat_length
    cases hlocal with
    | input x c => exact Or.inr (hone _ _ rfl rfl)
    | receive hcall hc => exact Or.inr (hone _ _ rfl rfl)
    | answer d h => simp at hb
    | timeout o => simp at hb

namespace Accounted

lemma output_of_moves (hn : Accounted F I G E n) (hk : Keeping F I G E) (h : Moves F n e t) {out : ω}
    (hm : .output out ∈ (t.system y).thread a) : E out (t.store y) := by
  have hkept := (stores_of_moves hk hn.store h y).2.2
  cases h with
  | served hcall hserve => exact hkept out (hn.output y a out hm)
  | @acts e x le origin s hlocal hs =>
    by_cases hy : y = x
    · subst hy
      rw [system_absorb_self] at hm
      obtain hm | hm := mem_newOutputs hs hm
      · exact hkept out (hn.output y a out hm)
      · rw [store_absorb_self]
        exact (hk.foldl _ (hn.store y)).2.1 out hm
    · rw [system_absorb_of_ne hy] at hm
      exact hkept out (hn.output y a out hm)

lemma ended_of_moves (hn : Accounted F I G E n) (h : Moves F n e t) {k : κ} {d : δ}
    (hm : .ended k (some d) ∈ (t.system x).thread a) :
    ∃ response drawn, (⟨x, a, k⟩, response) ∈ t.answers ∧ d = F.answer response drawn := by
  have hold : .ended k (some d) ∈ (n.system x).thread a →
      ∃ response drawn, (⟨x, a, k⟩, response) ∈ t.answers ∧ d = F.answer response drawn := by
    intro hm
    obtain ⟨response, drawn, hanswer, hd⟩ := hn.ended x a k d hm
    exact ⟨response, drawn, (answers_of_moves h).subset hanswer, hd⟩
  cases h with
  | served hcall hserve => exact hold hm
  | @acts e y le origin s hlocal hs =>
    by_cases hx : x = y
    · subst hx
      rw [system_absorb_self] at hm
      obtain hm | rfl := Threads.ended_step hs (Threads.mem_ofNumber.mp hm)
      · exact hold (Threads.mem_ofNumber.mpr hm)
      · cases hlocal with
        | answer drawn hanswer => exact ⟨_, drawn, List.mem_append_left _ hanswer, rfl⟩
    · rw [system_absorb_of_ne hx] at hm
      exact hold hm

lemma length_of_moves (hn : Accounted F I G E n) (h : Moves F n e t) :
    (t.callers y).length = (t.system y).commands.length := by
  cases h with
  | served hcall hserve => exact hn.length y
  | @acts e x le origin s hlocal hs =>
    by_cases hy : y = x
    · subst hy
      rw [callers_absorb_self, system_absorb_self, List.length_append, hn.length y, Threads.commands_step hs,
        List.length_append]
      cases hlocal <;> rfl
    · rw [callers_absorb_of_ne hy, system_absorb_of_ne hy]
      exact hn.length y

lemma getElem?_of_moves (h : Moves F n e t) {c : γ} (hc : (n.system y).commands[b]? = some c) :
    (t.system y).commands[b]? = some c := by
  obtain ⟨rest, hrest⟩ := commands_of_moves h y
  rw [← hrest, List.getElem?_append_left (List.getElem?_eq_some_iff.mp hc).1]
  exact hc

lemma input_of_moves (hn : Accounted F I G E n) (h : Moves F n e t) (hb : (t.callers y)[b]? = some none) :
    ∃ store c, I y store ∧ (t.system y).commands[b]? = some (F.onInput store c) := by
  have hold : (n.callers y)[b]? = some none →
      ∃ store c, I y store ∧ (t.system y).commands[b]? = some (F.onInput store c) := by
    intro hb
    obtain ⟨store, c, hstore, hc⟩ := hn.input y b hb
    exact ⟨store, c, hstore, getElem?_of_moves h hc⟩
  cases h with
  | served hcall hserve => exact hold hb
  | @acts e x le origin s hlocal hs =>
    by_cases hy : y = x
    · subst hy
      rw [callers_absorb_self] at hb
      obtain hb | ⟨horigin, c, hle, hc⟩ := command_of_origin hlocal hs (hn.length y) hb
      · exact hold hb
      · rw [system_absorb_self]
        cases hlocal with
        | input x i =>
          cases hle
          exact ⟨_, i, hn.store y, hc⟩
        | receive hcall hc => cases horigin
        | answer d h => cases horigin
        | timeout o => cases horigin
    · rw [callers_absorb_of_ne hy] at hb
      exact hold hb

lemma caller_of_moves (hn : Accounted F I G E n) (h : Moves F n e t) {o : Caller ι κ}
    (hb : (t.callers y)[b]? = some (some o)) : F.dest o.call = y ∧
      .call o.call ∈ (t.system o.node).thread o.command ∧
        ∃ store drawn c, I y store ∧ F.onCall store o.call drawn = some (.inl c) ∧
          (t.system y).commands[b]? = some c := by
  have hold : (n.callers y)[b]? = some (some o) → F.dest o.call = y ∧
      .call o.call ∈ (t.system o.node).thread o.command ∧
        ∃ store drawn c, I y store ∧ F.onCall store o.call drawn = some (.inl c) ∧
          (t.system y).commands[b]? = some c := by
    intro hb
    obtain ⟨hdest, hcall, store, drawn, c, hstore, hon, hc⟩ := hn.caller y b o hb
    exact ⟨hdest, thread_of_moves h hcall, store, drawn, c, hstore, hon, getElem?_of_moves h hc⟩
  have hthread (hm : .call o.call ∈ (n.system o.node).thread o.command) := thread_of_moves h hm
  cases h with
  | served hcall hserve => exact hold hb
  | @acts e x le origin s hlocal hs =>
    by_cases hy : y = x
    · subst hy
      rw [callers_absorb_self] at hb
      obtain hb | ⟨horigin, c, hle, hc⟩ := command_of_origin hlocal hs (hn.length y) hb
      · exact hold hb
      · cases hlocal with
        | input x i => cases horigin
        | @receive o' drawn c' hcall hon =>
          cases horigin
          cases hle
          refine ⟨rfl, hthread hcall, _, drawn, c, hn.store _, hon, ?_⟩
          rw [system_absorb_self]
          exact hc
        | answer d h => cases horigin
        | timeout o => cases horigin
    · rw [callers_absorb_of_ne hy] at hb
      exact hold hb

lemma answer_of_moves (hn : Accounted F I G E n) (hk : Keeping F I G E) (h : Moves F n e t) {o : Caller ι κ}
    {response : ρ} (hm : (o, response) ∈ t.answers) : .call o.call ∈ (t.system o.node).thread o.command ∧
      (G o.call response (t.store (F.dest o.call)) ∨
        ∃ (b : ℕ) (a : ℕ) (out : ω), (t.callers (F.dest o.call))[b]? = some (some o) ∧
          .output out ∈ (t.system (F.dest o.call)).thread a ∧ F.reply? out = some (b, response)) := by
  have hkept := (stores_of_moves hk hn.store h (F.dest o.call)).2.1
  have hold : (o, response) ∈ n.answers → .call o.call ∈ (t.system o.node).thread o.command ∧
      (G o.call response (t.store (F.dest o.call)) ∨
        ∃ (b : ℕ) (a : ℕ) (out : ω), (t.callers (F.dest o.call))[b]? = some (some o) ∧
          .output out ∈ (t.system (F.dest o.call)).thread a ∧ F.reply? out = some (b, response)) := by
    intro hm
    obtain ⟨hcall, hserved | ⟨b, a, out, hb, hout, hreply⟩⟩ := hn.answer o response hm
    · exact ⟨thread_of_moves h hcall, Or.inl (hkept _ _ hserved)⟩
    · have hb' := List.getElem?_eq_some_iff.mp hb
      obtain ⟨rest, hrest⟩ := callers_of_moves h (F.dest o.call)
      refine ⟨thread_of_moves h hcall, Or.inr ⟨b, a, out, ?_, thread_of_moves h hout, hreply⟩⟩
      rw [← hrest, List.getElem?_append_left hb'.1]
      exact hb
  have hcaller := fun y b hb => caller_of_moves (y := y) (b := b) (o := o) hn h hb
  cases h with
  | @served o' d store response' hcall hserve =>
    obtain hm | hm := List.mem_append.mp hm
    · exact hold hm
    · cases List.mem_singleton.mp hm
      refine ⟨hcall, Or.inl ?_⟩
      unfold Net.serve
      dsimp only
      rw [Function.update_self]
      exact (hk.serve _ _ _ _ _ hserve (hn.store _)).2.1
  | @acts e x le origin s hlocal hs =>
    obtain hm | hm := List.mem_append.mp hm
    · exact hold hm
    · obtain ⟨out, hnew, hreply⟩ := List.mem_filterMap.mp hm
      obtain ⟨⟨b, r⟩, hr, hwho⟩ := Option.bind_eq_some_iff.mp hreply
      obtain ⟨o', ho, heq⟩ := Option.map_eq_some_iff.mp hwho
      cases heq
      have hb : ((n.absorb F x s origin).callers x)[b]? = some (some o) := by
        rw [callers_absorb_self]
        exact Option.join_eq_some_iff.mp ho
      obtain ⟨hdest, hcall, -⟩ := hcaller x b hb
      obtain ⟨a, ha⟩ := output_of_new hnew
      subst hdest
      refine ⟨hcall, Or.inr ⟨b, a, out, hb, ?_, hr⟩⟩
      rw [system_absorb_self]
      exact ha

theorem of_moves (hn : Accounted F I G E n) (hk : Keeping F I G E) (h : Moves F n e t) : Accounted F I G E t where
  store y := (stores_of_moves hk hn.store h y).1
  output _ _ _ hm := hn.output_of_moves hk h hm
  ended _ _ _ _ hm := hn.ended_of_moves h hm
  length _ := hn.length_of_moves h
  input _ _ hb := hn.input_of_moves h hb
  caller _ _ _ hb := hn.caller_of_moves h hb
  answer _ _ hm := hn.answer_of_moves hk h hm

end Accounted

/-- In a net that starts with no command all commands and answers are accounted for. -/
theorem accounted_run [DecidableEq δ] [DecidableEq ω] [DecidableEq ρ] {es : List (Event ι κ ρ ε η)}
    {node : ι → σ} {store : ι → β} (hk : Keeping F I G E) (hstore : ∀ y, I y (store y))
    (hrun : run (step F) { system := fun x => { node := node x }, store := store } es = some t) :
    Accounted F I G E t := by
  refine reachable_invariant (I := Accounted F I G E) ?_ ?_ ⟨es, hrun⟩
  · intro u e v hu h
    exact hu.of_moves hk (step_moves h)
  · constructor
    · exact hstore
    · intro y a out hm
      cases hm
    · intro x a k d hm
      cases hm
    · intro y
      rfl
    · intro y b hb
      cases hb
    · intro y b o hb
      cases hb
    · intro o response hm
      cases hm

end Accounts

/-! ### What a store loses -/

section Losses

variable {F : Service ι σ γ κ δ ω β ρ ε η} {n t : Net ι σ γ κ δ ω β ρ} {e : Event ι κ ρ ε η} {y : ι} {Q : β → Prop}

/-- A property of a store was lost by an output of its node, or with a call that it served. -/
def Lost (F : Service ι σ γ κ δ ω β ρ ε η) (Q : β → Prop) (y : ι) (t : Net ι σ γ κ δ ω β ρ) : Prop :=
  (∃ a out store, .output out ∈ (t.system y).thread a ∧ Q store ∧ ¬ Q (F.effect store out)) ∨
    ∃ o response drawn store store', (o, response) ∈ t.answers ∧ F.dest o.call = y ∧
      F.onCall store o.call drawn = some (.inr (store', response)) ∧ Q store ∧ ¬ Q store'

omit [DecidableEq ι] [DecidableEq κ] in
lemma exists_lost_of_foldl {outs : List ω} {store : β} (hq : Q store) (hlost : ¬ Q (outs.foldl F.effect store)) :
    ∃ out ∈ outs, ∃ store, Q store ∧ ¬ Q (F.effect store out) := by
  induction outs generalizing store with
  | nil => exact absurd hq hlost
  | cons out outs ih =>
    by_cases hnext : Q (F.effect store out)
    · obtain ⟨o, ho, hstore⟩ := ih hnext hlost
      exact ⟨o, List.mem_cons_of_mem _ ho, hstore⟩
    · exact ⟨out, List.mem_cons_self, store, hq, hnext⟩

lemma Lost.of_moves (h : Moves F n e t) (hlost : Lost F Q y n) : Lost F Q y t := by
  obtain ⟨a, out, store, hout, hq⟩ | ⟨o, response, drawn, store, store', hanswer, hserve⟩ := hlost
  · exact Or.inl ⟨a, out, store, thread_of_moves h hout, hq⟩
  · exact Or.inr ⟨o, response, drawn, store, store', (answers_of_moves h).subset hanswer, hserve⟩

lemma kept_or_lost_of_moves (h : Moves F n e t) (hq : Q (n.store y)) : Q (t.store y) ∨ Lost F Q y t := by
  rw [or_iff_not_imp_left]
  intro hlost
  cases h with
  | @acts e x le origin s hlocal hs =>
    by_cases hy : y = x
    · subst hy
      rw [store_absorb_self] at hlost
      obtain ⟨out, hnew, store, hstore⟩ := exists_lost_of_foldl hq hlost
      obtain ⟨a, ha⟩ := output_of_new hnew
      refine Or.inl ⟨a, out, store, ?_, hstore⟩
      rw [system_absorb_self]
      exact ha
    · rw [store_absorb_of_ne hy] at hlost
      exact absurd hq hlost
  | @served o drawn store response hcall hserve =>
    unfold Net.serve at hlost
    dsimp only at hlost
    by_cases hy : y = F.dest o.call
    · subst hy
      rw [Function.update_self] at hlost
      exact Or.inr ⟨o, response, drawn, _, store, List.mem_concat_self, rfl, hserve, hq, hlost⟩
    · rw [Function.update_of_ne hy] at hlost
      exact absurd hq hlost

/-- A store keeps a property until one of the two happens. -/
theorem kept_or_lost_run [DecidableEq δ] [DecidableEq ω] [DecidableEq ρ] {es : List (Event ι κ ρ ε η)}
    (hrun : run (step F) n es = some t) (hq : Q (n.store y)) : Q (t.store y) ∨ Lost F Q y t := by
  refine reachable_invariant (I := fun u => Q (u.store y) ∨ Lost F Q y u) ?_ (Or.inl hq) ⟨es, hrun⟩
  intro u e v hu h
  obtain hq | hlost := hu
  · exact kept_or_lost_of_moves (step_moves h) hq
  · exact Or.inr (hlost.of_moves (step_moves h))

end Losses

end Federation
