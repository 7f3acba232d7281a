import Difs.Lib.EventRun

/-!
# Requests and responses over an unreliable network

Nodes exchange requests and the responses to them. A node that sent a request remembers it
until a response arrives or it gives up. Messages in flight may arrive in any order, be lost
or be repeated, and a node may give up at any time. A node that is not live takes no steps.
-/

namespace Exchange

structure Reaction (σ α δ : Type) where
  node : σ
  sent : List α := []
  reply : Option δ := none

/-- The handlers of a node. A request names its destination. -/
structure Protocol (ι σ α δ γ : Type) where
  dest : α → ι
  live : σ → Bool
  onInput : σ → γ → Reaction σ α δ
  onRequest : σ → α → Reaction σ α δ
  onResponse : σ → α → δ → Reaction σ α δ
  onTimeout : σ → α → Reaction σ α δ

/-- Messages in flight carry the node that sent the request. -/
structure Net (ι σ α δ : Type) where
  node : ι → σ
  requests : List (ι × α) := []
  responses : List (ι × α × δ) := []
  pending : List (ι × α) := []

inductive Event (ι α δ γ : Type) where
  | input (x : ι) (c : γ)
  | request (x : ι) (a : α)
  | response (x : ι) (a : α) (d : δ)
  | timeout (x : ι) (a : α)
  | repeatRequest (x : ι) (a : α)
  | repeatResponse (x : ι) (a : α) (d : δ)
  | loseRequest (x : ι) (a : α)
  | loseResponse (x : ι) (a : α) (d : δ)
deriving DecidableEq, Repr

def Event.isInput {ι α δ γ : Type} : Event ι α δ γ → Bool
  | .input _ _ => true
  | _ => false

variable {ι σ α δ γ : Type} [DecidableEq ι] [DecidableEq α] [DecidableEq δ]

def Net.absorb (n : Net ι σ α δ) (x : ι) (r : Reaction σ α δ) : Net ι σ α δ :=
  { n with
    node := Function.update n.node x r.node
    requests := n.requests ++ r.sent.map (fun a => (x, a))
    pending := n.pending ++ r.sent.map (fun a => (x, a)) }

def step (P : Protocol ι σ α δ γ) (n : Net ι σ α δ) : Event ι α δ γ → Option (Net ι σ α δ)
  | .input x c => if P.live (n.node x) then some (n.absorb x (P.onInput (n.node x) c)) else none
  | .request x a =>
    if (x, a) ∈ n.requests ∧ P.live (n.node (P.dest a)) then
      let r := P.onRequest (n.node (P.dest a)) a
      let n := { n with
        requests := n.requests.erase (x, a)
        responses := n.responses ++ r.reply.toList.map (fun d => (x, a, d)) }
      some (n.absorb (P.dest a) r)
    else none
  | .response x a d =>
    if (x, a, d) ∈ n.responses ∧ P.live (n.node x) then
      let r := P.onResponse (n.node x) a d
      let n := { n with responses := n.responses.erase (x, a, d) }
      if (x, a) ∈ n.pending then some ({ n with pending := n.pending.erase (x, a) }.absorb x r) else some n
    else none
  | .timeout x a =>
    if (x, a) ∈ n.pending ∧ P.live (n.node x) then
      some ({ n with pending := n.pending.erase (x, a) }.absorb x (P.onTimeout (n.node x) a))
    else none
  | .repeatRequest x a =>
    if (x, a) ∈ n.requests then some { n with requests := (x, a) :: n.requests } else none
  | .repeatResponse x a d =>
    if (x, a, d) ∈ n.responses then some { n with responses := (x, a, d) :: n.responses } else none
  | .loseRequest x a =>
    if (x, a) ∈ n.requests then some { n with requests := n.requests.erase (x, a) } else none
  | .loseResponse x a d =>
    if (x, a, d) ∈ n.responses then some { n with responses := n.responses.erase (x, a, d) } else none

/-- The requests that are still awaited when the event is handled. -/
def Event.settle : Event ι α δ γ → List (ι × α) → List (ι × α)
  | .response x a _, ps => ps.erase (x, a)
  | .timeout x a, ps => ps.erase (x, a)
  | _, ps => ps

variable {P : Protocol ι σ α δ γ} {n t : Net ι σ α δ} {e : Event ι α δ γ} {x : ι} {r : Reaction σ α δ}

/-- The handler that an event runs, and the node it runs at. -/
inductive Reacts (P : Protocol ι σ α δ γ) (n : Net ι σ α δ) :
    Event ι α δ γ → ι → Reaction σ α δ → Prop where
  | input (x : ι) (c : γ) : Reacts P n (.input x c) x (P.onInput (n.node x) c)
  | request {x : ι} {a : α} (h : (x, a) ∈ n.requests) :
    Reacts P n (.request x a) (P.dest a) (P.onRequest (n.node (P.dest a)) a)
  | response {x : ι} {a : α} {d : δ} (h : (x, a, d) ∈ n.responses) (hp : (x, a) ∈ n.pending) :
    Reacts P n (.response x a d) x (P.onResponse (n.node x) a d)
  | timeout {x : ι} {a : α} (h : (x, a) ∈ n.pending) :
    Reacts P n (.timeout x a) x (P.onTimeout (n.node x) a)

/-- A step that runs no handler: it adds no new message. -/
structure Quiet (n t : Net ι σ α δ) : Prop where
  node : t.node = n.node
  requests : ∀ p ∈ t.requests, p ∈ n.requests
  responses : ∀ q ∈ t.responses, q ∈ n.responses
  pending : t.pending = n.pending

/-- A step that runs a handler of node `x`, and what it adds. -/
structure Adds (n : Net ι σ α δ) (e : Event ι α δ γ) (x : ι) (r : Reaction σ α δ) (t : Net ι σ α δ) : Prop where
  node : t.node = Function.update n.node x r.node
  requests : ∀ p ∈ t.requests, p ∈ n.requests ∨ ∃ b ∈ r.sent, p = (x, b)
  responses : ∀ q ∈ t.responses, q ∈ n.responses ∨ ∃ y a d, e = .request y a ∧ r.reply = some d ∧ q = (y, a, d)
  pending : t.pending = e.settle n.pending ++ r.sent.map (fun b => (x, b))
  sent : ∀ b ∈ r.sent, (x, b) ∈ t.requests

omit [DecidableEq ι] [DecidableEq α] [DecidableEq δ] in
lemma mem_absorbed {ps qs : List (ι × α)} (hq : ∀ q ∈ qs, q ∈ ps) :
    ∀ p ∈ qs ++ r.sent.map (fun a => (x, a)), p ∈ ps ∨ ∃ b ∈ r.sent, p = (x, b) := by
  intro p hp
  obtain hp | hp := List.mem_append.mp hp
  · exact Or.inl (hq p hp)
  · obtain ⟨b, hb, rfl⟩ := List.mem_map.mp hp
    exact Or.inr ⟨b, hb, rfl⟩

omit [DecidableEq ι] [DecidableEq α] [DecidableEq δ] in
lemma mem_of_sent {ps : List (ι × α)} : ∀ b ∈ r.sent, (x, b) ∈ ps ++ r.sent.map (fun a => (x, a)) := by
  intro b hb
  exact List.mem_append_right _ (List.mem_map_of_mem hb)

omit [DecidableEq δ] in
lemma mem_of_mem_settle {ps : List (ι × α)} {p : ι × α} (h : p ∈ e.settle ps) : p ∈ ps := by
  cases e with
  | response | timeout => exact List.mem_of_mem_erase h
  | _ => exact h

omit [DecidableEq δ] in
lemma Adds.mem_pending (ha : Adds n e x r t) : ∀ p ∈ t.pending, p ∈ n.pending ∨ ∃ b ∈ r.sent, p = (x, b) := by
  rw [ha.pending]
  exact mem_absorbed (fun q hq => mem_of_mem_settle hq)

theorem Reacts.adds (hr : Reacts P n e x r) (h : step P n e = some t) : P.live (n.node x) ∧ Adds n e x r t := by
  cases hr with
  | input x c =>
    simp only [step, Option.ite_none_right_eq_some, Option.some_inj] at h
    obtain ⟨hlive, rfl⟩ := h
    exact ⟨hlive, rfl, mem_absorbed (fun q hq => hq), fun q hq => Or.inl hq, rfl, mem_of_sent⟩
  | @request x a hm =>
    simp only [step, Option.ite_none_right_eq_some, Option.some_inj] at h
    obtain ⟨⟨-, hlive⟩, rfl⟩ := h
    refine ⟨hlive, rfl, mem_absorbed (fun q hq => List.mem_of_mem_erase hq), ?_, rfl, mem_of_sent⟩
    intro q hq
    obtain hq | hq := List.mem_append.mp hq
    · exact Or.inl hq
    · obtain ⟨d, hd, rfl⟩ := List.mem_map.mp hq
      exact Or.inr ⟨x, a, d, rfl, Option.mem_toList.mp hd, rfl⟩
  | @response x a d hm hp =>
    simp only [step, Option.ite_none_right_eq_some] at h
    obtain ⟨⟨-, hlive⟩, h⟩ := h
    rw [if_pos hp, Option.some_inj] at h
    subst h
    exact ⟨hlive, rfl, mem_absorbed (fun q hq => hq), fun q hq => Or.inl (List.mem_of_mem_erase hq), rfl,
      mem_of_sent⟩
  | @timeout x a hp =>
    simp only [step, Option.ite_none_right_eq_some, Option.some_inj] at h
    obtain ⟨⟨-, hlive⟩, rfl⟩ := h
    exact ⟨hlive, rfl, mem_absorbed (fun q hq => hq), fun q hq => Or.inl hq, rfl, mem_of_sent⟩

lemma quiet_or_reacts (h : step P n e = some t) : Quiet n t ∨ ∃ x r, Reacts P n e x r := by
  cases e with
  | input x c => exact Or.inr ⟨x, _, .input x c⟩
  | request x a =>
    simp only [step, Option.ite_none_right_eq_some] at h
    exact Or.inr ⟨_, _, .request h.1.1⟩
  | response x a d =>
    simp only [step, Option.ite_none_right_eq_some] at h
    obtain ⟨⟨hm, -⟩, h⟩ := h
    by_cases hp : (x, a) ∈ n.pending
    · exact Or.inr ⟨x, _, .response hm hp⟩
    · rw [if_neg hp, Option.some_inj] at h
      subst h
      exact Or.inl ⟨rfl, fun p hp => hp, fun q hq => List.mem_of_mem_erase hq, rfl⟩
  | timeout x a =>
    simp only [step, Option.ite_none_right_eq_some] at h
    exact Or.inr ⟨_, _, .timeout h.1.1⟩
  | repeatRequest x a =>
    simp only [step, Option.ite_none_right_eq_some, Option.some_inj] at h
    obtain ⟨hm, rfl⟩ := h
    exact Or.inl ⟨rfl, List.forall_mem_cons.mpr ⟨hm, fun p hp => hp⟩, fun q hq => hq, rfl⟩
  | repeatResponse x a d =>
    simp only [step, Option.ite_none_right_eq_some, Option.some_inj] at h
    obtain ⟨hm, rfl⟩ := h
    exact Or.inl ⟨rfl, fun p hp => hp, List.forall_mem_cons.mpr ⟨hm, fun q hq => hq⟩, rfl⟩
  | loseRequest x a =>
    simp only [step, Option.ite_none_right_eq_some, Option.some_inj] at h
    obtain ⟨hm, rfl⟩ := h
    exact Or.inl ⟨rfl, fun p hp => List.mem_of_mem_erase hp, fun q hq => hq, rfl⟩
  | loseResponse x a d =>
    simp only [step, Option.ite_none_right_eq_some, Option.some_inj] at h
    obtain ⟨hm, rfl⟩ := h
    exact Or.inl ⟨rfl, fun p hp => hp, fun q hq => List.mem_of_mem_erase hq, rfl⟩

/-- All that a step can do. -/
theorem step_cases (h : step P n e = some t) :
    Quiet n t ∨ ∃ x r, Reacts P n e x r ∧ P.live (n.node x) ∧ Adds n e x r t := by
  obtain hq | ⟨x, r, hr⟩ := quiet_or_reacts h
  · exact Or.inl hq
  · exact Or.inr ⟨x, r, hr, hr.adds h⟩

/-! ### Invariants of nodes and messages -/

/-- Every node meets `N`, every request sent and not given up meets `R`, every response `D`. -/
structure Holds (N : ι → σ → Prop) (R : ι → α → Prop) (D : ι → α → δ → Prop) (n : Net ι σ α δ) : Prop where
  node : ∀ x, N x (n.node x)
  requests : ∀ p ∈ n.requests, R p.1 p.2
  responses : ∀ q ∈ n.responses, D q.1 q.2.1 q.2.2
  pending : ∀ p ∈ n.pending, R p.1 p.2

variable {N N' : ι → σ → Prop} {R R' : ι → α → Prop} {D D' : ι → α → δ → Prop}

omit [DecidableEq ι] [DecidableEq α] [DecidableEq δ] in
lemma Holds.of_quiet (hn : Holds N R D n) (hq : Quiet n t) : Holds N R D t where
  node x := by
    rw [hq.node]
    exact hn.node x
  requests p hp := hn.requests p (hq.requests p hp)
  responses q hm := hn.responses q (hq.responses q hm)
  pending p hp := hn.pending p (hq.pending ▸ hp)

omit [DecidableEq δ] in
/-- The reacting node and its messages meet the new conditions, all others if these follow
from the old ones. -/
theorem Holds.of_adds (hn : Holds N R D n) (ha : Adds n e x r t)
    (hN : ∀ y, y ≠ x → N y (n.node y) → N' y (n.node y)) (hR : ∀ y a, R y a → R' y a)
    (hD : ∀ y a d, D y a d → D' y a d) (hnode : N' x r.node) (hsent : ∀ b ∈ r.sent, R' x b)
    (hreply : ∀ y a d, e = .request y a → r.reply = some d → D' y a d) : Holds N' R' D' t where
  node y := by
    rw [ha.node]
    by_cases hy : y = x
    · subst hy
      rw [Function.update_self]
      exact hnode
    · rw [Function.update_of_ne hy]
      exact hN y hy (hn.node y)
  requests p hp := by
    obtain hp | ⟨b, hb, rfl⟩ := ha.requests p hp
    · exact hR _ _ (hn.requests p hp)
    · exact hsent b hb
  responses q hq := by
    obtain hq | ⟨y, a, d, he, hd, rfl⟩ := ha.responses q hq
    · exact hD _ _ _ (hn.responses q hq)
    · exact hreply y a d he hd
  pending p hp := by
    obtain hp | ⟨b, hb, rfl⟩ := ha.mem_pending p hp
    · exact hR _ _ (hn.pending p hp)
    · exact hsent b hb

omit [DecidableEq ι] [DecidableEq α] [DecidableEq δ] in
lemma Holds.mono (hn : Holds N R D n) (hN : ∀ y s, N y s → N' y s) (hR : ∀ y a, R y a → R' y a)
    (hD : ∀ y a d, D y a d → D' y a d) : Holds N' R' D' n where
  node y := hN y _ (hn.node y)
  requests p hp := hR _ _ (hn.requests p hp)
  responses q hq := hD _ _ _ (hn.responses q hq)
  pending p hp := hR _ _ (hn.pending p hp)

/-- The conditions may depend on the state of the whole net, if the step keeps them. -/
theorem Holds.of_step_of_kept (hn : Holds N R D n) (h : step P n e = some t) (hN : ∀ y s, N y s → N' y s)
    (hR : ∀ y a, R y a → R' y a) (hD : ∀ y a d, D y a d → D' y a d)
    (hreact : ∀ x r, Reacts P n e x r → P.live (n.node x) → Adds n e x r t →
      N' x r.node ∧ (∀ b ∈ r.sent, R' x b) ∧ ∀ y a d, e = .request y a → r.reply = some d → D' y a d) :
    Holds N' R' D' t := by
  obtain hq | ⟨x, r, hr, hlive, ha⟩ := step_cases h
  · exact (hn.of_quiet hq).mono hN hR hD
  · obtain ⟨hnode, hsent, hreply⟩ := hreact x r hr hlive ha
    exact hn.of_adds ha (fun y _ hy => hN y _ hy) hR hD hnode hsent hreply

/-- The same with conditions that do not change, for every step. -/
theorem Holds.of_step (hn : Holds N R D n) (h : step P n e = some t)
    (hreact : ∀ x r, Reacts P n e x r → P.live (n.node x) → N x r.node ∧ (∀ b ∈ r.sent, R x b) ∧
      ∀ y a d, e = .request y a → r.reply = some d → D y a d) : Holds N R D t := by
  obtain hq | ⟨x, r, hr, hlive, ha⟩ := step_cases h
  · exact hn.of_quiet hq
  · obtain ⟨hnode, hsent, hreply⟩ := hreact x r hr hlive
    exact hn.of_adds ha (fun y _ hy => hy) (fun y a ha => ha) (fun y a d hd => hd) hnode hsent hreply

/-! ### Messages that stay in flight -/

lemma mem_requests_of_step {p : ι × α} (h : step P n e = some t) (hp : p ∈ n.requests)
    (hreq : e ≠ .request p.1 p.2) (hlose : e ≠ .loseRequest p.1 p.2) : p ∈ t.requests := by
  cases e with
  | input x c =>
    simp only [step, Option.ite_none_right_eq_some, Option.some_inj] at h
    obtain ⟨-, rfl⟩ := h
    exact List.mem_append_left _ hp
  | request x a =>
    simp only [step, Option.ite_none_right_eq_some, Option.some_inj] at h
    obtain ⟨-, rfl⟩ := h
    apply List.mem_append_left
    refine (List.mem_erase_of_ne ?_).mpr hp
    rintro rfl
    exact hreq rfl
  | response x a d =>
    simp only [step, Option.ite_none_right_eq_some] at h
    obtain ⟨-, h⟩ := h
    split_ifs at h <;> cases h
    · exact List.mem_append_left _ hp
    · exact hp
  | timeout x a =>
    simp only [step, Option.ite_none_right_eq_some, Option.some_inj] at h
    obtain ⟨-, rfl⟩ := h
    exact List.mem_append_left _ hp
  | repeatRequest x a =>
    simp only [step, Option.ite_none_right_eq_some, Option.some_inj] at h
    obtain ⟨-, rfl⟩ := h
    exact List.mem_cons_of_mem _ hp
  | repeatResponse x a d =>
    simp only [step, Option.ite_none_right_eq_some, Option.some_inj] at h
    obtain ⟨-, rfl⟩ := h
    exact hp
  | loseRequest x a =>
    simp only [step, Option.ite_none_right_eq_some, Option.some_inj] at h
    obtain ⟨-, rfl⟩ := h
    refine (List.mem_erase_of_ne ?_).mpr hp
    rintro rfl
    exact hlose rfl
  | loseResponse x a d =>
    simp only [step, Option.ite_none_right_eq_some, Option.some_inj] at h
    obtain ⟨-, rfl⟩ := h
    exact hp

lemma mem_responses_of_step {q : ι × α × δ} (h : step P n e = some t) (hq : q ∈ n.responses)
    (hres : e ≠ .response q.1 q.2.1 q.2.2) (hlose : e ≠ .loseResponse q.1 q.2.1 q.2.2) : q ∈ t.responses := by
  cases e with
  | input x c =>
    simp only [step, Option.ite_none_right_eq_some, Option.some_inj] at h
    obtain ⟨-, rfl⟩ := h
    exact hq
  | request x a =>
    simp only [step, Option.ite_none_right_eq_some, Option.some_inj] at h
    obtain ⟨-, rfl⟩ := h
    exact List.mem_append_left _ hq
  | response x a d =>
    simp only [step, Option.ite_none_right_eq_some] at h
    obtain ⟨-, h⟩ := h
    have hkept : q ∈ n.responses.erase (x, a, d) := by
      refine (List.mem_erase_of_ne ?_).mpr hq
      rintro rfl
      exact hres rfl
    split_ifs at h <;> cases h <;> exact hkept
  | timeout x a =>
    simp only [step, Option.ite_none_right_eq_some, Option.some_inj] at h
    obtain ⟨-, rfl⟩ := h
    exact hq
  | repeatRequest x a =>
    simp only [step, Option.ite_none_right_eq_some, Option.some_inj] at h
    obtain ⟨-, rfl⟩ := h
    exact hq
  | repeatResponse x a d =>
    simp only [step, Option.ite_none_right_eq_some, Option.some_inj] at h
    obtain ⟨-, rfl⟩ := h
    exact List.mem_cons_of_mem _ hq
  | loseRequest x a =>
    simp only [step, Option.ite_none_right_eq_some, Option.some_inj] at h
    obtain ⟨-, rfl⟩ := h
    exact hq
  | loseResponse x a d =>
    simp only [step, Option.ite_none_right_eq_some, Option.some_inj] at h
    obtain ⟨-, rfl⟩ := h
    refine (List.mem_erase_of_ne ?_).mpr hq
    rintro rfl
    exact hlose rfl

omit [DecidableEq δ] in
lemma mem_settle {ps : List (ι × α)} {p : ι × α} (hp : p ∈ ps) (hres : ∀ d, e ≠ .response p.1 p.2 d)
    (htimeout : e ≠ .timeout p.1 p.2) : p ∈ e.settle ps := by
  cases e with
  | response x a d =>
    refine (List.mem_erase_of_ne ?_).mpr hp
    rintro rfl
    exact hres d rfl
  | timeout x a =>
    refine (List.mem_erase_of_ne ?_).mpr hp
    rintro rfl
    exact htimeout rfl
  | _ => exact hp

lemma mem_pending_of_step {p : ι × α} (h : step P n e = some t) (hp : p ∈ n.pending)
    (hres : ∀ d, e ≠ .response p.1 p.2 d) (htimeout : e ≠ .timeout p.1 p.2) : p ∈ t.pending := by
  obtain hq | ⟨x, r, -, -, ha⟩ := step_cases h
  · rw [hq.pending]
    exact hp
  · rw [ha.pending]
    exact List.mem_append_left _ (mem_settle hp hres htimeout)

lemma adds_of_request {a : α} (h : step P n (.request x a) = some t) :
    (x, a) ∈ n.requests ∧ Adds n (.request x a : Event ι α δ γ) (P.dest a) (P.onRequest (n.node (P.dest a)) a) t := by
  have hm : (x, a) ∈ n.requests := by
    simp only [step, Option.ite_none_right_eq_some] at h
    exact h.1.1
  exact ⟨hm, ((Reacts.request hm).adds h).2⟩

lemma adds_of_response {a : α} {d : δ} (h : step P n (.response x a d) = some t) (hp : (x, a) ∈ n.pending) :
    (x, a, d) ∈ n.responses ∧ Adds n (.response x a d : Event ι α δ γ) x (P.onResponse (n.node x) a d) t := by
  have hm : (x, a, d) ∈ n.responses := by
    simp only [step, Option.ite_none_right_eq_some] at h
    exact h.1.1
  exact ⟨hm, ((Reacts.response hm hp).adds h).2⟩

/-- A response that nobody waits for changes no node. -/
lemma node_of_unawaited {a : α} {d : δ} (h : step P n (.response x a d) = some t) (hp : (x, a) ∉ n.pending) :
    t.node = n.node := by
  simp only [step, if_neg hp, Option.ite_none_right_eq_some, Option.some_inj] at h
  obtain ⟨-, rfl⟩ := h
  rfl

/-- A handled request is answered with what its handler replies. -/
lemma mem_responses_of_reply {a : α} {d : δ} (h : step P n (.request x a) = some t)
    (hd : (P.onRequest (n.node (P.dest a)) a).reply = some d) : (x, a, d) ∈ t.responses := by
  simp only [step, Option.ite_none_right_eq_some, Option.some_inj] at h
  obtain ⟨-, rfl⟩ := h
  apply List.mem_append_right
  rw [hd]
  exact List.mem_singleton_self _

/-- A request that is awaited, with itself or a reply to it in flight. -/
structure Underway (n : Net ι σ α δ) (x : ι) (a : α) : Prop where
  pending : (x, a) ∈ n.pending
  inFlight : (x, a) ∈ n.requests ∨ ∃ d, (x, a, d) ∈ n.responses

/-- Where nothing of it is lost and it is replied to, a request is under way until a response to it
is handled. -/
theorem Underway.step {a : α} (hu : Underway n x a) (h : step P n e = some t) (hlose : e ≠ .loseRequest x a)
    (hlost : ∀ d, e ≠ .loseResponse x a d) (htimeout : e ≠ .timeout x a)
    (hreply : e = .request x a → (P.onRequest (n.node (P.dest a)) a).reply.isSome) :
    Underway t x a ∨ ∃ d, e = .response x a d := by
  by_cases hres : ∃ d, e = .response x a d
  · exact Or.inr hres
  · have hnot : ∀ d, e ≠ .response x a d := fun d he => hres ⟨d, he⟩
    refine Or.inl ⟨mem_pending_of_step h hu.pending hnot htimeout, ?_⟩
    obtain hreq | ⟨d, hd⟩ := hu.inFlight
    · by_cases he : e = .request x a
      · obtain ⟨d, hd⟩ := Option.isSome_iff_exists.mp (hreply he)
        rw [he] at h
        exact Or.inr ⟨d, mem_responses_of_reply h hd⟩
      · exact Or.inl (mem_requests_of_step h hreq he hlose)
    · exact Or.inr ⟨d, mem_responses_of_step h hd (hnot d) (hlost d)⟩

omit [DecidableEq δ] in
/-- A request that was just sent is under way. -/
lemma Adds.underway {b : α} (ha : Adds n e x r t) (hb : b ∈ r.sent) : Underway t x b where
  pending := by
    rw [ha.pending]
    exact List.mem_append_right _ (List.mem_map_of_mem hb)
  inFlight := Or.inl (ha.sent b hb)

end Exchange
