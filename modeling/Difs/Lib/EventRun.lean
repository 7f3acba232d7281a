import Mathlib

/-!
# Runs of event-driven systems

A system is a partial step function: `step s e = none` when the event `e` cannot happen in
the state `s`. `run` performs a sequence of events. `Meets C` says that every event of a run
meets the condition `C` in the state in which it happens, so that an invariant may depend on
a restriction of the schedule.
-/

namespace EventRun

variable {σ ε : Type*} (step : σ → ε → Option σ)

def run : σ → List ε → Option σ
  | s, [] => some s
  | s, e :: es => (step s e).bind (fun t => run t es)

/-- Every event meets `C` in the state in which it happens. -/
def Meets (C : σ → ε → Prop) : σ → List ε → Prop
  | _, [] => True
  | s, e :: es => C s e ∧ ∀ t, step s e = some t → Meets C t es

def Reachable (s t : σ) : Prop := ∃ es, run step s es = some t

variable {step} {C D : σ → ε → Prop} {I : σ → Prop} {s t u : σ} {e : ε} {es ds : List ε}

lemma run_cons_eq_some : run step s (e :: es) = some u ↔ ∃ t, step s e = some t ∧ run step t es = some u := by
  simp only [run, Option.bind_eq_some_iff]

lemma run_append_eq_some :
    run step s (es ++ ds) = some u ↔ ∃ t, run step s es = some t ∧ run step t ds = some u := by
  induction es generalizing s with
  | nil => simp [run]
  | cons e es ih =>
    rw [List.cons_append, run_cons_eq_some]
    constructor
    · rintro ⟨t, ht, hu⟩
      obtain ⟨v, hv, huv⟩ := ih.mp hu
      exact ⟨v, run_cons_eq_some.mpr ⟨t, ht, hv⟩, huv⟩
    · rintro ⟨v, hv, hu⟩
      obtain ⟨t, ht, htv⟩ := run_cons_eq_some.mp hv
      exact ⟨t, ht, ih.mpr ⟨v, htv, hu⟩⟩

lemma run_snoc_eq_some :
    run step s (es ++ [e]) = some u ↔ ∃ t, run step s es = some t ∧ step t e = some u := by
  rw [run_append_eq_some]
  simp [run]

/-- The condition of every event of a run, stated at the state the event happens in. -/
theorem meets_iff :
    Meets step C s es ↔ ∀ ds e us t, es = ds ++ e :: us → run step s ds = some t → C t e := by
  induction es generalizing s with
  | nil => simp [Meets]
  | cons e es ih =>
    constructor
    · rintro ⟨he, hes⟩ ds e' us t heq hrun
      cases ds with
      | nil =>
        obtain ⟨rfl, rfl⟩ := List.cons.inj heq
        cases hrun
        exact he
      | cons d ds =>
        obtain ⟨rfl, rfl⟩ := List.cons.inj heq
        obtain ⟨v, hv, hvt⟩ := run_cons_eq_some.mp hrun
        exact ih.mp (hes v hv) ds e' us t rfl hvt
    · intro h
      refine ⟨h [] e es s rfl rfl, fun v hv => ih.mpr ?_⟩
      intro ds e' us t heq hrun
      exact h (e :: ds) e' us t (by rw [heq, List.cons_append]) (run_cons_eq_some.mpr ⟨v, hv, hrun⟩)

instance Meets.decidable [∀ s e, Decidable (C s e)] : ∀ s es, Decidable (Meets step C s es)
  | _, [] => isTrue trivial
  | s, e :: es =>
    match hs : step s e with
    | none => decidable_of_iff (C s e) (by simp [Meets, hs])
    | some t =>
      have := Meets.decidable t es
      decidable_of_iff (C s e ∧ Meets step C t es) (by simp [Meets, hs])

lemma Meets.and (hC : Meets step C s es) (hD : Meets step D s es) : Meets step (fun s e => C s e ∧ D s e) s es := by
  rw [meets_iff] at hC hD ⊢
  intro ds e us t heq hrun
  exact ⟨hC ds e us t heq hrun, hD ds e us t heq hrun⟩

lemma Meets.snoc (h : Meets step C s es) (he : ∀ t, run step s es = some t → C t e) : Meets step C s (es ++ [e]) := by
  induction es generalizing s with
  | nil => exact ⟨he s rfl, fun t _ => trivial⟩
  | cons d es ih =>
    refine ⟨h.1, fun t ht => ih (h.2 t ht) ?_⟩
    intro u hu
    exact he u (run_cons_eq_some.mpr ⟨t, ht, hu⟩)

lemma Meets.of_isPrefix (h : Meets step C s es) (hp : ds <+: es) : Meets step C s ds := by
  obtain ⟨us, rfl⟩ := hp
  rw [meets_iff] at h ⊢
  intro as e bs t heq hrun
  exact h as e (bs ++ us) t (by rw [heq, List.append_assoc, List.cons_append]) hrun

lemma Meets.of_append (h : Meets step C s (es ++ ds)) (hrun : run step s es = some t) : Meets step C t ds := by
  rw [meets_iff] at h ⊢
  intro as e bs u heq hu
  exact h (es ++ as) e bs u (by rw [heq, List.append_assoc]) (run_append_eq_some.mpr ⟨t, hrun, hu⟩)

/-- What every step preserves, every run preserves. -/
theorem run_invariant (hstep : ∀ s e t, I s → C s e → step s e = some t → I t) (hs : I s)
    (hC : Meets step C s es) (hrun : run step s es = some t) : I t := by
  induction es generalizing s with
  | nil =>
    cases hrun
    exact hs
  | cons e es ih =>
    obtain ⟨v, hv, hvt⟩ := run_cons_eq_some.mp hrun
    exact ih (hstep s e v hs hC.1 hv) (hC.2 v hv) hvt

/-- Where `C` is what a step needs to keep an invariant, all states of a run have the invariant
exactly when all its events meet `C`. -/
theorem run_invariant_iff (hstep : ∀ s e t, I s → step s e = some t → (I t ↔ C s e)) (hs : I s)
    (hrun : run step s es = some t) :
    (∀ ds u, ds <+: es → run step s ds = some u → I u) ↔ Meets step C s es := by
  induction es generalizing s with
  | nil =>
    refine iff_of_true ?_ trivial
    intro ds u hds hu
    rw [List.prefix_nil.mp hds] at hu
    cases hu
    exact hs
  | cons e es ih =>
    obtain ⟨v, hv, hvt⟩ := run_cons_eq_some.mp hrun
    constructor
    · intro hall
      have hiv : I v := hall [e] v ⟨es, rfl⟩ (run_cons_eq_some.mpr ⟨v, hv, rfl⟩)
      refine ⟨(hstep s e v hs hv).mp hiv, fun w hw => ?_⟩
      rw [hv, Option.some_inj] at hw
      subst hw
      apply (ih hiv hvt).mp
      intro ds u hds hu
      exact hall (e :: ds) u (List.cons_prefix_cons.mpr ⟨rfl, hds⟩) (run_cons_eq_some.mpr ⟨v, hv, hu⟩)
    · intro hmeets ds u hds hu
      have hiv : I v := (hstep s e v hs hv).mpr hmeets.1
      cases ds with
      | nil =>
        cases hu
        exact hs
      | cons d ds =>
        obtain ⟨rfl, hrest⟩ := List.cons_prefix_cons.mp hds
        obtain ⟨w, hw, hu⟩ := run_cons_eq_some.mp hu
        rw [hv, Option.some_inj] at hw
        subst hw
        exact (ih hiv hvt).mpr (hmeets.2 v hv) ds u hrest hu

/-- Induction along a run, for what also speaks of the events so far. -/
theorem run_induction {Q : List ε → σ → Prop} (hnil : Q [] s)
    (hsnoc : ∀ ds e u v, run step s ds = some u → Q ds u → C u e → step u e = some v → Q (ds ++ [e]) v)
    (hC : Meets step C s es) (hrun : run step s es = some t) : Q es t := by
  induction es using List.reverseRecOn generalizing t with
  | nil =>
    cases hrun
    exact hnil
  | append_singleton ds e ih =>
    obtain ⟨u, hu, he⟩ := run_snoc_eq_some.mp hrun
    exact hsnoc ds e u t hu (ih (hC.of_isPrefix (List.prefix_append ds [e])) hu)
      (meets_iff.mp hC ds e [] u rfl hu) he

/-- The same for runs without a condition. -/
theorem reachable_invariant (hstep : ∀ s e t, I s → step s e = some t → I t) (hs : I s)
    (h : Reachable step s t) : I t := by
  obtain ⟨es, hrun⟩ := h
  have hC : Meets step (fun _ _ => True) s es := meets_iff.mpr (fun _ _ _ _ _ _ => trivial)
  exact run_invariant (fun s e t hi _ he => hstep s e t hi he) hs hC hrun

lemma Reachable.refl : Reachable step s s := ⟨[], rfl⟩

lemma Reachable.tail (h : Reachable step s t) (he : step t e = some u) : Reachable step s u := by
  obtain ⟨es, hrun⟩ := h
  exact ⟨es ++ [e], run_snoc_eq_some.mpr ⟨t, hrun, he⟩⟩

end EventRun
