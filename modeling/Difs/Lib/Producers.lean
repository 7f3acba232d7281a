import Difs.Lib.EventRun

/-!
# Producers with one sink

Producers take events, each in a state of its own, and hand items to a sink that they share. A
producer starts once. However the events interleave, every producer is where its own events take
it, and the sink has taken the items of all producers in the order in which they were handed over.
-/

namespace Producers

open EventRun

/-- What one producer does, and how the sink takes an item. -/
structure Workshop (σ ε α τ : Type) where
  step : σ → ε → Option (σ × List α)
  put : τ → α → τ

/-- `handed` is read by no producer. -/
structure State (ι σ α τ : Type) where
  producer : ι → Option σ := fun _ => none
  sink : τ
  handed : List (ι × α) := []

inductive Event (ι σ ε : Type) where
  | start (i : ι) (s : σ)
  | work (i : ι) (e : ε)
deriving DecidableEq

variable {ι σ ε α τ : Type} [DecidableEq ι]

def step (W : Workshop σ ε α τ) (n : State ι σ α τ) : Event ι σ ε → Option (State ι σ α τ)
  | .start i s =>
    if (n.producer i).isNone then some { n with producer := Function.update n.producer i (some s) } else none
  | .work i e => (n.producer i).bind (fun s => (W.step s e).map (fun o =>
      { producer := Function.update n.producer i (some o.1)
        sink := o.2.foldl W.put n.sink
        handed := n.handed ++ o.2.map (fun a => (i, a)) }))

/-- A producer that works alone, with all that it hands over. -/
def alone (W : Workshop σ ε α τ) : σ → List ε → Option (σ × List α)
  | s, [] => some (s, [])
  | s, e :: es => (W.step s e).bind (fun o => (alone W o.1 es).map (fun u => (u.1, o.2 ++ u.2)))

/-- The events of one producer. -/
def eventsOf (i : ι) (es : List (Event ι σ ε)) : List ε :=
  es.filterMap (fun e => match e with
    | .start _ _ => none
    | .work j e => if j = i then some e else none)

/-- What one producer has handed over. -/
def State.handedBy (n : State ι σ α τ) (i : ι) : List α :=
  n.handed.filterMap (fun x => if x.1 = i then some x.2 else none)

variable {W : Workshop σ ε α τ} {n t : State ι σ α τ} {i : ι} {s s' u : σ} {e : ε} {es : List (Event ι σ ε)}
  {items : List α}

lemma step_start_eq_some : step W n (.start i s) = some t ↔
    n.producer i = none ∧ { n with producer := Function.update n.producer i (some s) } = t := by
  rw [step, Option.ite_none_right_eq_some, Option.isNone_iff_eq_none, Option.some_inj]

lemma step_work_eq_some : step W n (.work i e) = some t ↔
    ∃ s o, n.producer i = some s ∧ W.step s e = some o ∧
      t = { producer := Function.update n.producer i (some o.1)
            sink := o.2.foldl W.put n.sink
            handed := n.handed ++ o.2.map (fun a => (i, a)) } := by
  rw [step, Option.bind_eq_some_iff]
  constructor
  · rintro ⟨s, hs, h⟩
    obtain ⟨o, ho, rfl⟩ := Option.map_eq_some_iff.mp h
    exact ⟨s, o, hs, ho, rfl⟩
  · rintro ⟨s, o, hs, ho, rfl⟩
    exact ⟨s, hs, Option.map_eq_some_iff.mpr ⟨o, ho, rfl⟩⟩

lemma filterMap_own (i : ι) (items : List α) :
    (items.map (fun a => (i, a))).filterMap (fun x => if x.1 = i then some x.2 else none) = items := by
  rw [List.filterMap_map]
  simp

lemma filterMap_other {i j : ι} (hij : j ≠ i) (items : List α) :
    (items.map (fun a => (j, a))).filterMap (fun x => if x.1 = i then some x.2 else none) = [] := by
  rw [List.filterMap_map]
  simp [hij]

/-- A step takes the producer as far as its own event does. -/
lemma alone_step {ev : Event ι σ ε} (h : step W n ev = some t) (hs : n.producer i = some s) :
    ∃ u items, alone W s (eventsOf i [ev]) = some (u, items) ∧ t.producer i = some u ∧
      t.handedBy i = n.handedBy i ++ items := by
  cases ev with
  | start j r =>
    obtain ⟨hnone, rfl⟩ := step_start_eq_some.mp h
    have hij : i ≠ j := by
      rintro rfl
      rw [hs] at hnone
      cases hnone
    refine ⟨s, [], rfl, ?_, (List.append_nil _).symm⟩
    rw [← hs]
    exact Function.update_of_ne hij _ _
  | work j e =>
    obtain ⟨r, o, hr, ho, rfl⟩ := step_work_eq_some.mp h
    unfold State.handedBy
    dsimp only
    rw [List.filterMap_append]
    by_cases hij : j = i
    · subst hij
      rw [hs, Option.some_inj] at hr
      subst hr
      refine ⟨o.1, o.2, ?_, Function.update_self _ _ _, by rw [filterMap_own]⟩
      simp [eventsOf, alone, ho]
    · refine ⟨s, [], ?_, ?_, by rw [filterMap_other hij]⟩
      · simp [eventsOf, alone, hij]
      · rw [Function.update_of_ne (Ne.symm hij), hs]

lemma alone_append {ds es : List ε} {items' : List α} (h : alone W s ds = some (u, items))
    (h' : alone W u es = some (s', items')) : alone W s (ds ++ es) = some (s', items ++ items') := by
  induction ds generalizing s items with
  | nil =>
    cases h
    exact h'
  | cons e ds ih =>
    obtain ⟨o, ho, hrest⟩ := Option.bind_eq_some_iff.mp h
    obtain ⟨v, hv, heq⟩ := Option.map_eq_some_iff.mp hrest
    obtain ⟨rfl, rfl⟩ := Prod.mk.inj heq
    rw [List.cons_append, alone, ho, Option.bind_some, ih hv, Option.map_some, List.append_assoc]

/-- A producer of a run is where its own events take it, and has handed over what it would alone. -/
theorem alone_of_run (hrun : run (step W) n es = some t) (hs : n.producer i = some s) :
    ∃ u items, alone W s (eventsOf i es) = some (u, items) ∧ t.producer i = some u ∧
      t.handedBy i = n.handedBy i ++ items := by
  induction es generalizing n s with
  | nil =>
    cases hrun
    exact ⟨s, [], rfl, hs, (List.append_nil _).symm⟩
  | cons ev es ih =>
    obtain ⟨m, hm, hrest⟩ := run_cons_eq_some.mp hrun
    obtain ⟨v, first, hfirst, hv, hhanded⟩ := alone_step hm hs
    obtain ⟨u, later, hlater, hu, hend⟩ := ih hrest hv
    refine ⟨u, first ++ later, ?_, hu, ?_⟩
    · have happend := alone_append hfirst hlater
      rwa [eventsOf, eventsOf, ← List.filterMap_append] at happend
    · rw [hend, hhanded, List.append_assoc]

lemma eventsOf_step {ev : Event ι σ ε} (h : step W n ev = some t) (hnone : n.producer i = none) :
    eventsOf i [ev] = [] ∧ t.handedBy i = n.handedBy i ∧
      (t.producer i = none ∨ ∃ s, ev = .start i s ∧ t.producer i = some s) := by
  cases ev with
  | start j r =>
    obtain ⟨-, rfl⟩ := step_start_eq_some.mp h
    refine ⟨rfl, rfl, ?_⟩
    dsimp only
    by_cases hij : i = j
    · subst hij
      exact Or.inr ⟨r, rfl, Function.update_self _ _ _⟩
    · rw [Function.update_of_ne hij]
      exact Or.inl hnone
  | work j e =>
    obtain ⟨r, o, hr, ho, rfl⟩ := step_work_eq_some.mp h
    have hij : j ≠ i := by
      rintro rfl
      rw [hnone] at hr
      cases hr
    refine ⟨by simp [eventsOf, hij], ?_, ?_⟩
    · unfold State.handedBy
      dsimp only
      rw [List.filterMap_append, filterMap_other hij, List.append_nil]
    · dsimp only
      rw [Function.update_of_ne hij.symm]
      exact Or.inl hnone

/-- A producer that was started in a run is where its events take it from its first state. -/
theorem alone_of_started (hrun : run (step W) n es = some t) (hnone : n.producer i = none)
    (hu : t.producer i = some u) : ∃ s items, .start i s ∈ es ∧ alone W s (eventsOf i es) = some (u, items) ∧
      t.handedBy i = n.handedBy i ++ items := by
  induction es generalizing n with
  | nil =>
    cases hrun
    rw [hnone] at hu
    cases hu
  | cons ev es ih =>
    obtain ⟨m, hm, hrest⟩ := run_cons_eq_some.mp hrun
    obtain ⟨hnoevent, hhanded, hm' | ⟨s, rfl, hs⟩⟩ := eventsOf_step hm hnone
    · obtain ⟨s, items, hstart, halone, hend⟩ := ih hrest hm'
      refine ⟨s, items, List.mem_cons_of_mem _ hstart, ?_, hend.trans (by rw [hhanded])⟩
      rwa [← List.singleton_append, eventsOf, List.filterMap_append, ← eventsOf, hnoevent]
    · obtain ⟨v, items, halone, hv, hend⟩ := alone_of_run hrest hs
      rw [hu, Option.some_inj] at hv
      subst hv
      exact ⟨s, items, List.mem_cons_self, halone, hend.trans (by rw [hhanded])⟩

/-- A producer that is not started has no events and hands nothing over. -/
lemma idle_of_run (hrun : run (step W) n es = some t) (hnone : n.producer i = none) (hend : t.producer i = none) :
    t.handedBy i = n.handedBy i ∧ eventsOf i es = [] := by
  induction es generalizing n with
  | nil =>
    cases hrun
    exact ⟨rfl, rfl⟩
  | cons ev es ih =>
    obtain ⟨m, hm, hrest⟩ := run_cons_eq_some.mp hrun
    obtain ⟨hnoevent, hhanded, hm' | ⟨s, rfl, hs⟩⟩ := eventsOf_step hm hnone
    · obtain ⟨hsame, hnoevents⟩ := ih hrest hm'
      refine ⟨hsame.trans hhanded, ?_⟩
      rw [← List.singleton_append, eventsOf, List.filterMap_append, ← eventsOf, ← eventsOf, hnoevent, hnoevents]
      rfl
    · obtain ⟨v, items, -, hv, -⟩ := alone_of_run hrest hs
      rw [hend] at hv
      cases hv

/-- The sink has taken what was handed over, in order. -/
theorem sink_of_run (hrun : run (step W) n es = some t) :
    ∃ handed, t.handed = n.handed ++ handed ∧ t.sink = (handed.map Prod.snd).foldl W.put n.sink := by
  induction es generalizing n with
  | nil =>
    cases hrun
    exact ⟨[], (List.append_nil _).symm, rfl⟩
  | cons ev es ih =>
    obtain ⟨m, hm, hrest⟩ := run_cons_eq_some.mp hrun
    obtain ⟨later, hhanded, hsink⟩ := ih hrest
    cases ev with
    | start j r =>
      obtain ⟨-, rfl⟩ := step_start_eq_some.mp hm
      exact ⟨later, hhanded, hsink⟩
    | work j e =>
      obtain ⟨r, o, -, -, rfl⟩ := step_work_eq_some.mp hm
      refine ⟨o.2.map (fun a => (j, a)) ++ later, ?_, ?_⟩
      · rw [hhanded, List.append_assoc]
      · rw [hsink, List.map_append, List.foldl_append, List.map_map]
        congr 1
        exact (congrArg (fun items => items.foldl W.put n.sink) (List.map_id o.2)).symm

end Producers
