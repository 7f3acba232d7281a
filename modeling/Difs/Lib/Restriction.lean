import Difs.Lib.Exchange

/-!
# A part of every node

A protocol whose nodes hold more than those of another and handle the messages alike. The part
that the other one knows takes the same steps; an input that only the rest knows sends nothing.
-/

namespace Exchange

variable {ι σ σ' α δ γ γ' : Type}

def Reaction.mapNode (f : σ → σ') (r : Reaction σ α δ) : Reaction σ' α δ where
  node := f r.node
  sent := r.sent
  reply := r.reply

def Net.mapNode (f : σ → σ') (n : Net ι σ α δ) : Net ι σ' α δ where
  node x := f (n.node x)
  requests := n.requests
  responses := n.responses
  pending := n.pending

/-- What an event is for nodes that do not know all inputs. -/
def Event.mapInput (g : γ → Option γ') : Event ι α δ γ → Option (Event ι α δ γ')
  | .input x c => (g c).map (.input x)
  | .request x a => some (.request x a)
  | .response x a d => some (.response x a d)
  | .timeout x a => some (.timeout x a)
  | .repeatRequest x a => some (.repeatRequest x a)
  | .repeatResponse x a d => some (.repeatResponse x a d)
  | .loseRequest x a => some (.loseRequest x a)
  | .loseResponse x a d => some (.loseResponse x a d)

/-- The part `f` of a node handles every message, and the inputs that it knows, on its own. -/
structure Restricts (P : Protocol ι σ α δ γ) (P' : Protocol ι σ' α δ γ') (f : σ → σ') (g : γ → Option γ') : Prop where
  dest : P'.dest = P.dest
  live : ∀ s, P'.live (f s) = P.live s
  input : ∀ s c c', g c = some c' → P'.onInput (f s) c' = (P.onInput s c).mapNode f
  silent : ∀ s c, g c = none → (P.onInput s c).sent = []
  request : ∀ s a, P'.onRequest (f s) a = (P.onRequest s a).mapNode f
  response : ∀ s a d, P'.onResponse (f s) a d = (P.onResponse s a d).mapNode f
  timeout : ∀ s a, P'.onTimeout (f s) a = (P.onTimeout s a).mapNode f

variable [DecidableEq ι] [DecidableEq α] [DecidableEq δ] {P : Protocol ι σ α δ γ} {P' : Protocol ι σ' α δ γ'}
  {f : σ → σ'} {g : γ → Option γ'} {n t : Net ι σ α δ} {e : Event ι α δ γ} {e' : Event ι α δ γ'} {x : ι} {c : γ}

omit [DecidableEq α] [DecidableEq δ] in
lemma mapNode_absorb (n : Net ι σ α δ) (x : ι) (r : Reaction σ α δ) :
    (n.absorb x r).mapNode f = (n.mapNode f).absorb x (r.mapNode f) := by
  have hnode : (fun y => f (Function.update n.node x r.node y)) =
      Function.update (fun y => f (n.node y)) x (f r.node) := by
    funext y
    exact Function.apply_update (fun _ => f) n.node x r.node y
  simp only [Net.absorb, Net.mapNode, Reaction.mapNode, hnode]

namespace Restricts

theorem step (h : Restricts P P' f g) (he : e.mapInput g = some e') (hstep : Exchange.step P n e = some t) :
    Exchange.step P' (n.mapNode f) e' = some (t.mapNode f) := by
  cases e with
  | input x c =>
    obtain ⟨c', hc, rfl⟩ := Option.map_eq_some_iff.mp he
    simp only [Exchange.step, Option.ite_none_right_eq_some, Option.some_inj] at hstep ⊢
    obtain ⟨hlive, rfl⟩ := hstep
    refine ⟨(h.live _).trans hlive, ?_⟩
    rw [mapNode_absorb, ← h.input _ c c' hc]
    rfl
  | request x a =>
    cases he
    simp only [Exchange.step, Option.ite_none_right_eq_some, Option.some_inj] at hstep ⊢
    obtain ⟨⟨hm, hlive⟩, rfl⟩ := hstep
    rw [h.dest]
    refine ⟨⟨hm, (h.live _).trans hlive⟩, ?_⟩
    rw [mapNode_absorb, ← h.request]
    have hreply : (P'.onRequest (f (n.node (P.dest a))) a).reply = (P.onRequest (n.node (P.dest a)) a).reply :=
      congrArg Reaction.reply (h.request _ a)
    simp only [Net.mapNode, hreply]
  | response x a d =>
    cases he
    simp only [Exchange.step, Option.ite_none_right_eq_some] at hstep ⊢
    obtain ⟨⟨hm, hlive⟩, hstep⟩ := hstep
    refine ⟨⟨hm, (h.live _).trans hlive⟩, ?_⟩
    have hpending : (n.mapNode f).pending = n.pending := rfl
    rw [hpending]
    split_ifs at hstep ⊢ with hp <;> cases hstep
    · rw [mapNode_absorb, ← h.response]
      rfl
    · rfl
  | timeout x a =>
    cases he
    simp only [Exchange.step, Option.ite_none_right_eq_some, Option.some_inj] at hstep ⊢
    obtain ⟨⟨hm, hlive⟩, rfl⟩ := hstep
    refine ⟨⟨hm, (h.live _).trans hlive⟩, ?_⟩
    rw [mapNode_absorb, ← h.timeout]
    rfl
  | repeatRequest | repeatResponse | loseRequest | loseResponse =>
    cases he
    simp only [Exchange.step, Option.ite_none_right_eq_some, Option.some_inj] at hstep ⊢
    obtain ⟨hm, rfl⟩ := hstep
    exact ⟨hm, rfl⟩

/-- All other steps are of one node. -/
theorem silent_step (h : Restricts P P' f g) (he : e.mapInput g = none) (hstep : Exchange.step P n e = some t) :
    ∃ x c, e = .input x c ∧ g c = none ∧ P.live (n.node x) ∧
      t = { n with node := Function.update n.node x (P.onInput (n.node x) c).node } := by
  cases e with
  | input x c =>
    have hc : g c = none := Option.map_eq_none_iff.mp he
    simp only [Exchange.step, Option.ite_none_right_eq_some, Option.some_inj] at hstep
    obtain ⟨hlive, rfl⟩ := hstep
    refine ⟨x, c, rfl, hc, hlive, ?_⟩
    simp only [Net.absorb, h.silent _ c hc, List.map_nil, List.append_nil]
  | _ => cases he

end Restricts

end Exchange
