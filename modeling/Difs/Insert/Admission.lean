import Difs.Insert.Network

/-!
# Admission of inserts

An insert command is accepted when the find for its key comes back empty. The manifest that a
later find would see is only stored when the client has announced the object and the node has
fetched the manifest, so two commands for a key are kept apart only if nothing is under way
for the key when a find does not see its manifest.
-/

namespace Difs

open EventRun Exchange WriteHandle

variable {L : NameLibrary} {sha1 : String → String}

/-- The hash that a find asks for, and the number of its command. -/
def InsertInterest.asked : InsertInterest L → Option (String × ℕ)
  | .write (.find _ hash _ _ interest _) => some (hash, interest)
  | _ => none

def checkedHash (sha1 : String → String) (parameter : RepoCommandParameter L) : Option String :=
  parameter.name.getLast?.map (fun difsKey => sha1 (checkedText difsKey))

/-- The range of a command does not start after its end. -/
def RepoCommandParameter.Ranged (parameter : RepoCommandParameter L) : Prop :=
  parameter.hasEndBlockId →
    (if parameter.hasStartBlockId then parameter.startBlockId else 0) ≤ parameter.endBlockId

instance (parameter : RepoCommandParameter L) : Decidable parameter.Ranged := by
  unfold RepoCommandParameter.Ranged
  infer_instance

/-- The commands of a node whose finds are among the pending requests. -/
def awaited (pending : List (String × InsertInterest L)) (x : String) : List ℕ :=
  pending.filterMap (fun p => if p.1 = x then p.2.asked.map Prod.snd else none)

def InsertNode.answered (s : InsertNode L sha1) : List ℕ := s.answers.map Answer.interest

/-- A command has passed its check: the empty reply to its find is on the way and awaited, or
the command has been accepted. -/
def Passed (n : InsertNet L sha1) (hash x : String) (k : ℕ) : Prop :=
  (∃ q ∈ n.responses, q.1 = x ∧ q.2.2 = .empty ∧ (x, q.2.1) ∈ n.pending ∧ q.2.1.asked = some (hash, k)) ∨
    ∃ b ∈ (n.node x).answers, b.interest = k ∧ b.response.code = 100 ∧ checkedHash sha1 b.parameter = some hash

instance (n : InsertNet L sha1) (hash x : String) (k : ℕ) : Decidable (Passed n hash x k) :=
  inferInstanceAs (Decidable (_ ∨ _))

/-- Commands arrive at the nodes of the cluster, with a key that has a node and a range. When
a find is handled and the manifest is not there, no other command for its hash has passed its
check. No find times out. -/
def OneAtATime (nodes : List String) (n : InsertNet L sha1) : InsertEvent L → Prop
  | .input x (.insert parameter) => x ∈ nodes ∧ parameter.Ranged ∧
      ((checkedHash sha1 parameter).bind (n.node x).keySpace.getManifestStorage).isSome
  | .request x (.write (.find repo hash _ _ interest _)) =>
      (n.node repo).manifests.hasManifest hash = false →
        ∀ y ∈ nodes, ∀ k < (n.node y).received.length, Passed n hash y k → y = x ∧ k = interest
  | .timeout _ (.write (.find _ _ _ _ _ _)) => False
  | _ => True

instance (nodes : List String) (n : InsertNet L sha1) (e : InsertEvent L) : Decidable (OneAtATime nodes n e) := by
  unfold OneAtATime
  split <;> infer_instance

/-- Of the commands for one key at most one is accepted and every other is told that there is
a manifest. Each command is answered once its find is, and once only. -/
structure OneAccepted (n : InsertNet L sha1) : Prop where
  own : ∀ x, ∀ a ∈ (n.node x).answers, (n.node x).received[a.interest]? = some a.parameter
  one : ∀ x y, ∀ a ∈ (n.node x).answers, ∀ b ∈ (n.node y).answers,
    a.parameter.name.getLast? = b.parameter.name.getLast? → a.response.code = 100 → b.response.code = 100 →
      x = y ∧ a.interest = b.interest
  others : ∀ x, ∀ a ∈ (n.node x).answers,
    a.response.code = 100 ∨ a.response = negativeReply "Manifest already exists" 403
  once : ∀ x, (awaited n.pending x ++ (n.node x).answered).Perm (List.range (n.node x).received.length)

/-! ### The handlers -/

section Handlers

variable {w : WriteHandle L} {parameter : RepoCommandParameter L} {processId : UInt64} {now : ℕ}
  {s : InsertNode L sha1} {a : InsertInterest L}

lemma asked_eq_some {hash : String} {k : ℕ} (h : a.asked = some (hash, k)) :
    ∃ repo processId lifetime parameter, a = .write (.find repo hash processId lifetime k parameter) := by
  unfold InsertInterest.asked at h
  split at h
  · obtain ⟨rfl, rfl⟩ := Prod.mk.inj (Option.some_inj.mp h)
    exact ⟨_, _, _, _, rfl⟩
  · cases h

/-- A command whose key has a node asks that node for the manifest. -/
lemma handleInsertCommand_sent {keySpace : KeySpaceHandle} (k : ℕ)
    (h : ((checkedHash sha1 parameter).bind keySpace.getManifestStorage).isSome) :
    ∃ repo hash, checkedHash sha1 parameter = some hash ∧
      (w.handleInsertCommand sha1 keySpace k parameter).sent =
        [.find repo hash parameter.processId w.mInterestLifetime k parameter] := by
  unfold handleInsertCommand
  unfold checkedHash at h ⊢
  cases hlast : parameter.name.getLast? with
  | none => simp [hlast] at h
  | some difsKey =>
    rw [hlast, Option.map_some, Option.bind_some] at h
    obtain ⟨repo, hrepo⟩ := Option.isSome_iff_exists.mp h
    refine ⟨repo, _, rfl, ?_⟩
    dsimp only
    rw [hrepo]

lemma onFindResponse_found :
    (w.onFindResponse true parameter processId now).done = some (negativeReply "Manifest already exists" 403) := rfl

lemma onFindResponse_accepts (w : WriteHandle L) (processId : UInt64) (now : ℕ) (hp : parameter.Ranged) :
    ∃ response, (w.onFindResponse false parameter processId now).done = some response ∧ response.code = 100 := by
  have hdone : (w.onFindResponse false parameter processId now).done =
      if parameter.hasStartBlockId || parameter.hasEndBlockId then
        (w.processSegmentedInsertCommand parameter processId now).done
      else (w.processSingleInsertCommand parameter processId).done := by
    simp only [onFindResponse, Bool.false_eq_true, if_false]
    split_ifs <;> rfl
  rw [hdone]
  split_ifs with hseg
  · unfold processSegmentedInsertCommand
    by_cases hend : parameter.hasEndBlockId
    · simp only [if_pos hend, if_neg (UInt64.not_lt.mpr (hp hend))]
      exact ⟨_, rfl, rfl⟩
    · simp only [if_neg hend]
      exact ⟨_, rfl, rfl⟩
  · exact ⟨_, rfl, rfl⟩

lemma onFindResponse_answers (hp : parameter.Ranged) (content : InsertContent) (k : ℕ) :
    ∃ response, (s.onFindResponse content k parameter).node.answers = s.answers ++ [⟨k, parameter, response⟩] ∧
      (content = .empty ∧ response.code = 100 ∨ response = negativeReply "Manifest already exists" 403) := by
  unfold InsertNode.onFindResponse
  by_cases hc : content = .empty
  · obtain ⟨response, hdone, hcode⟩ := onFindResponse_accepts s.write (s.random s.draws) (s.clock s.draws) hp
    refine ⟨response, ?_, Or.inl ⟨hc, hcode⟩⟩
    simp [hc, hdone]
  · refine ⟨_, ?_, Or.inr rfl⟩
    simp [hc, onFindResponse_found]

lemma onFindResponse_sent (found : Bool) :
    ∀ b ∈ (w.onFindResponse found parameter processId now).sent, (InsertInterest.write b).asked = none := by
  unfold onFindResponse processSegmentedInsertCommand processSingleInsertCommand segInit
  dsimp only
  split_ifs <;> simp [InsertInterest.asked]

lemma onDataValidated_sent (keySpace : KeySpaceHandle) (nodePrefix : Option (List String)) (json : Option InfoJson) :
    ∀ b ∈ (w.onDataValidated sha1 keySpace nodePrefix json processId now).sent,
      (InsertInterest.write b).asked = none := by
  have hsent : ∀ w : WriteHandle L, ∀ b ∈ (w.writeManifest sha1 keySpace processId).sent,
      (InsertInterest.write b).asked = none := by
    intro w
    unfold writeManifest
    dsimp only
    split <;> simp [InsertInterest.asked]
  unfold onDataValidated
  split
  · simp
  · split
    · simp
    · dsimp only
      split_ifs <;> first
        | exact hsent _
        | simp

lemma onCommand_insert (h : ((checkedHash sha1 parameter).bind s.keySpace.getManifestStorage).isSome) :
    ∃ repo hash, checkedHash sha1 parameter = some hash ∧
      (s.onCommand (.insert parameter)).sent =
        [.write (.find repo hash parameter.processId s.write.mInterestLifetime s.received.length parameter)] := by
  obtain ⟨repo, hash, hhash, hsent⟩ := handleInsertCommand_sent (w := s.write) s.received.length h
  refine ⟨repo, hash, hhash, ?_⟩
  unfold InsertNode.onCommand
  dsimp only
  rw [hsent]
  rfl

/-- A handler that receives and answers no insert command. -/
structure Unanswering (s : InsertNode L sha1) (r : InsertNode.Result L sha1) : Prop where
  received : r.node.received = s.received
  answers : r.node.answers = s.answers
  sent : ∀ b ∈ r.sent, b.asked = none

lemma unanswering_of_sent_nil {r : InsertNode.Result L sha1} (hreceived : r.node.received = s.received)
    (hanswers : r.node.answers = s.answers) (hsent : r.sent = []) : Unanswering s r :=
  ⟨hreceived, hanswers, by simp [hsent]⟩

lemma unanswering_expire : Unanswering s (s.onCommand (.expire processId)) := unanswering_of_sent_nil rfl rfl rfl

lemma handleFindCommand_unanswering (hash : String) : Unanswering s (s.handleFindCommand hash) := by
  unfold InsertNode.handleFindCommand
  split <;> exact unanswering_of_sent_nil rfl rfl rfl

lemma unanswering_onRequest : Unanswering s (s.onRequest a) := by
  unfold InsertNode.onRequest
  split
  · exact handleFindCommand_unanswering _
  · exact unanswering_of_sent_nil rfl rfl rfl
  · refine ⟨rfl, rfl, ?_⟩
    simp [InsertNode.handleCreateCommand, InsertInterest.asked]
  · exact unanswering_of_sent_nil rfl rfl rfl

lemma onInfoValidated_unanswering (content : InsertContent) : Unanswering s (s.onInfoValidated content processId) := by
  unfold InsertNode.onInfoValidated
  split
  · exact unanswering_of_sent_nil rfl rfl rfl
  · split_ifs
    · split
      · split <;> exact unanswering_of_sent_nil rfl rfl rfl
      · exact unanswering_of_sent_nil rfl rfl rfl
    · exact unanswering_of_sent_nil rfl rfl rfl

lemma unanswering_onResponse (content : InsertContent) (ha : a.asked = none) :
    Unanswering s (s.onResponse a content) := by
  unfold InsertNode.onResponse
  split
  · cases ha
  · refine ⟨rfl, rfl, ?_⟩
    intro b hb
    obtain ⟨c, hc, rfl⟩ := List.mem_map.mp hb
    exact onDataValidated_sent _ _ _ c hc
  · exact unanswering_of_sent_nil rfl rfl rfl
  · exact onInfoValidated_unanswering _

lemma unanswering_onTimeout : Unanswering s (s.onTimeout a) := by
  unfold InsertNode.onTimeout
  split <;> exact unanswering_of_sent_nil rfl rfl rfl

/-- The find of a hash comes back empty only where the manifest is not stored. -/
lemma onRequest_empty {hash : String} {k : ℕ} (ha : a.asked = some (hash, k))
    (hr : (s.onRequest a).reply = some .empty) : s.manifests.hasManifest hash = false := by
  obtain ⟨repo, processId, lifetime, parameter, rfl⟩ := asked_eq_some ha
  unfold InsertNode.onRequest InsertNode.handleFindCommand ManifestStore.readManifest at hr
  unfold ManifestStore.hasManifest
  cases hl : s.manifests.files.lookup hash with
  | none => rfl
  | some json => cases hj : Manifest.fromJson json <;> simp [hl, hj] at hr

end Handlers

/-! ### Runs -/

section Runs

variable {nodes : List String} {n t : InsertNet L sha1} {e : InsertEvent L} {x y : String}
  {a : InsertInterest L} {r : InsertNode.Result L sha1} {hash : String} {k : ℕ}

lemma awaited_append (ps qs : List (String × InsertInterest L)) :
    awaited (ps ++ qs) x = awaited ps x ++ awaited qs x := List.filterMap_append

lemma awaited_eq_nil {bs : List (InsertInterest L)} (h : ∀ b ∈ bs, b.asked = none) :
    awaited (bs.map (fun b => (x, b))) y = [] := by
  unfold awaited
  rw [List.filterMap_eq_nil_iff]
  intro p hp
  obtain ⟨b, hb, rfl⟩ := List.mem_map.mp hp
  simp [h b hb]

lemma awaited_other {bs : List (InsertInterest L)} (h : x ≠ y) : awaited (bs.map (fun b => (x, b))) y = [] := by
  unfold awaited
  rw [List.filterMap_eq_nil_iff]
  intro p hp
  obtain ⟨b, hb, rfl⟩ := List.mem_map.mp hp
  exact if_neg h

lemma awaited_find {repo : String} {processId : UInt64} {lifetime : ℕ} {parameter : RepoCommandParameter L} :
    awaited ([InsertInterest.write (.find repo hash processId lifetime k parameter)].map (fun b => (x, b))) y =
      if x = y then [k] else [] := by
  unfold awaited
  split_ifs with h <;> simp [h, InsertInterest.asked]

lemma awaited_erase {ps : List (String × InsertInterest L)} {p : String × InsertInterest L} (hp : p ∈ ps) :
    (awaited ps y).Perm ((if p.1 = y then p.2.asked.map Prod.snd else none).toList ++ awaited (ps.erase p) y) := by
  have h := (List.perm_cons_erase hp).filterMap (fun p => if p.1 = y then p.2.asked.map Prod.snd else none)
  refine h.trans (List.Perm.of_eq ?_)
  rw [List.filterMap_cons]
  unfold awaited
  generalize (if p.1 = y then p.2.asked.map Prod.snd else none) = o
  cases o <;> rfl

lemma awaited_erase_of_none {ps : List (String × InsertInterest L)} {p : String × InsertInterest L}
    (hp : p ∈ ps) (ha : p.1 = y → p.2.asked = none) : (awaited (ps.erase p) y).Perm (awaited ps y) := by
  apply List.Perm.symm
  refine (awaited_erase hp).trans (List.Perm.of_eq ?_)
  split_ifs with hy
  · simp [ha hy]
  · simp

/-- All that a handler does to the commands of its node. -/
theorem commands_of_reacts (hc : OneAtATime nodes n e) (hr : Reacts (insertNetwork L sha1) n e x r) :
    (∃ parameter, e = .input x (.insert parameter) ∧ r = (n.node x).onCommand (.insert parameter)) ∨
    (∃ repo hash processId lifetime k parameter d,
      let find := InsertInterest.write (.find repo hash processId lifetime k parameter)
      e = .response x find d ∧ (x, find, d) ∈ n.responses ∧ (x, find) ∈ n.pending ∧
        r = (n.node x).onFindResponse d k parameter) ∨
    (Unanswering (n.node x) r ∧ ∀ y, (awaited (e.settle n.pending) y).Perm (awaited n.pending y)) := by
  cases hr with
  | input x c =>
    cases c with
    | insert parameter => exact Or.inl ⟨parameter, rfl, rfl⟩
    | expire processId => exact Or.inr (Or.inr ⟨unanswering_expire, fun _ => List.Perm.refl _⟩)
  | request hm => exact Or.inr (Or.inr ⟨unanswering_onRequest, fun _ => List.Perm.refl _⟩)
  | @response x a d hm hp =>
    cases ha : a.asked with
    | none =>
      exact Or.inr (Or.inr ⟨unanswering_onResponse d ha, fun _ => awaited_erase_of_none hp (fun _ => ha)⟩)
    | some c =>
      obtain ⟨repo, processId, lifetime, parameter, rfl⟩ := asked_eq_some ha
      exact Or.inr (Or.inl ⟨repo, c.1, processId, lifetime, c.2, parameter, d, rfl, hm, hp, rfl⟩)
  | @timeout x a hp =>
    have ha : a.asked = none := by
      cases ha : a.asked with
      | none => rfl
      | some c =>
        obtain ⟨repo, processId, lifetime, parameter, rfl⟩ := asked_eq_some ha
        exact absurd hc id
    exact Or.inr (Or.inr ⟨unanswering_onTimeout, fun _ => awaited_erase_of_none hp (fun _ => ha)⟩)

/-- A find belongs to a command that its node has received. -/
def Stems (nodes : List String) (n : InsertNet L sha1) (x : String) : InsertInterest L → Prop
  | .write (.find _ hash _ _ interest parameter) => x ∈ nodes ∧ parameter.Ranged ∧
      checkedHash sha1 parameter = some hash ∧ (n.node x).received[interest]? = some parameter
  | _ => True

def Accounts (sha1 : String → String) (nodes : List String) (x : String) (s : InsertNode L sha1) : Prop :=
  ∀ a ∈ s.answers, x ∈ nodes ∧ (checkedHash sha1 a.parameter).isSome ∧ s.received[a.interest]? = some a.parameter ∧
    (a.response.code = 100 ∨ a.response = negativeReply "Manifest already exists" 403)

/-- Of the commands for one hash at most one has passed its check. -/
structure AdmissionInv (nodes : List String) (n : InsertNet L sha1) : Prop where
  holds : Holds (Accounts sha1 nodes) (Stems nodes n) (fun x a _ => Stems nodes n x a) n
  once : ∀ x, (awaited n.pending x ++ (n.node x).answered).Perm (List.range (n.node x).received.length)
  one : ∀ hash x k y j, Passed n hash x k → Passed n hash y j → x = y ∧ k = j

lemma stems_of_asked (ha : a.asked = none) : Stems nodes n x a := by
  unfold Stems
  split
  · cases ha
  · trivial

lemma Stems.mono (h : Stems nodes n x a) (hr : (n.node x).received <+: (t.node x).received) : Stems nodes t x a := by
  unfold Stems at h ⊢
  split at h
  · obtain ⟨hx, hp, hhash, hk⟩ := h
    obtain ⟨l, hl⟩ := hr
    refine ⟨hx, hp, hhash, ?_⟩
    rw [← hl, List.getElem?_append_left (List.getElem?_eq_some_iff.mp hk).1, hk]
  · trivial

lemma Stems.lt (h : Stems nodes n x a) (ha : a.asked = some (hash, k)) :
    x ∈ nodes ∧ k < (n.node x).received.length := by
  obtain ⟨repo, processId, lifetime, parameter, rfl⟩ := asked_eq_some ha
  exact ⟨h.1, (List.getElem?_eq_some_iff.mp h.2.2.2).1⟩

lemma AdmissionInv.passed_lt (hn : AdmissionInv nodes n) (hp : Passed n hash x k) :
    x ∈ nodes ∧ k < (n.node x).received.length := by
  obtain ⟨q, hq, rfl, -, -, ha⟩ | ⟨b, hb, rfl, -, -⟩ := hp
  · exact (hn.holds.responses q hq).lt ha
  · obtain ⟨hx, -, hk, -⟩ := hn.holds.node x b hb
    exact ⟨hx, (List.getElem?_eq_some_iff.mp hk).1⟩

lemma asked_sent (hc : OneAtATime nodes n e) (hr : Reacts (insertNetwork L sha1) n e x r) (hb : a ∈ r.sent)
    (ha : a.asked = some (hash, k)) : k = (n.node x).received.length := by
  obtain ⟨parameter, rfl, rfl⟩ | ⟨_, _, _, _, _, _, _, -, -, -, rfl⟩ | ⟨hu, -⟩ := commands_of_reacts hc hr
  · obtain ⟨repo, hash', -, hsent⟩ := onCommand_insert hc.2.2
    rw [hsent, List.mem_singleton] at hb
    subst hb
    exact (Prod.mk.inj (Option.some_inj.mp ha)).2.symm
  · obtain ⟨c, hc, rfl⟩ := List.mem_map.mp hb
    rw [onFindResponse_sent _ c hc] at ha
    cases ha
  · rw [hu.sent a hb] at ha
    cases ha

lemma received_step (hc : OneAtATime nodes n e) (h : step (insertNetwork L sha1) n e = some t) (y : String) :
    (n.node y).received <+: (t.node y).received := by
  obtain hq | ⟨x, r, hr, -, ha⟩ := step_cases h
  · rw [hq.node]
  · rw [ha.node]
    by_cases hy : y = x
    · subst hy
      rw [Function.update_self]
      obtain ⟨parameter, -, rfl⟩ | ⟨_, _, _, _, _, _, _, -, -, -, rfl⟩ | ⟨hu, -⟩ := commands_of_reacts hc hr
      · exact List.prefix_append _ _
      · exact List.prefix_rfl
      · rw [hu.received]
    · rw [Function.update_of_ne hy]

namespace AdmissionInv

theorem accounts_step (hn : AdmissionInv nodes n) (hc : OneAtATime nodes n e)
    (hr : Reacts (insertNetwork L sha1) n e x r) : Accounts sha1 nodes x r.node := by
  obtain ⟨parameter, -, rfl⟩ | ⟨_, hash, _, _, k, parameter, d, -, -, hp, rfl⟩ | ⟨hu, -⟩ := commands_of_reacts hc hr
  · intro a ha
    obtain ⟨hx, hhash, hk, hcode⟩ := hn.holds.node x a ha
    refine ⟨hx, hhash, ?_, hcode⟩
    exact (List.getElem?_append_left (List.getElem?_eq_some_iff.mp hk).1).trans hk
  · obtain ⟨hx, hranged, hhash, hk⟩ := hn.holds.pending _ hp
    obtain ⟨response, hanswers, hresponse⟩ := onFindResponse_answers (s := n.node x) hranged d k
    intro a ha
    rw [hanswers] at ha
    obtain ha | ha := List.mem_append.mp ha
    · exact hn.holds.node x a ha
    · rw [List.mem_singleton.mp ha]
      exact ⟨hx, by simp [hhash], hk, hresponse.imp_left And.right⟩
  · intro a ha
    rw [hu.answers] at ha
    rw [hu.received]
    exact hn.holds.node x a ha

lemma stems_sent (hc : OneAtATime nodes n e) (hr : Reacts (insertNetwork L sha1) n e x r)
    (ht : t.node x = r.node) : ∀ b ∈ r.sent, Stems nodes t x b := by
  obtain ⟨parameter, rfl, rfl⟩ | ⟨_, _, _, _, _, _, _, -, -, -, rfl⟩ | ⟨hu, -⟩ := commands_of_reacts hc hr
  · obtain ⟨hx, hranged, hstorage⟩ := hc
    obtain ⟨repo, hash, hhash, hsent⟩ := onCommand_insert hstorage
    intro b hb
    rw [hsent, List.mem_singleton] at hb
    subst hb
    refine ⟨hx, hranged, hhash, ?_⟩
    rw [ht]
    exact List.getElem?_concat_length
  · intro b hb
    obtain ⟨c, hc, rfl⟩ := List.mem_map.mp hb
    exact stems_of_asked (onFindResponse_sent _ c hc)
  · intro b hb
    exact stems_of_asked (hu.sent b hb)

theorem holds_step (hn : AdmissionInv nodes n) (hc : OneAtATime nodes n e)
    (h : step (insertNetwork L sha1) n e = some t) :
    Holds (Accounts sha1 nodes) (Stems nodes t) (fun x a _ => Stems nodes t x a) t := by
  have hmono : ∀ x a, Stems nodes n x a → Stems nodes t x a := fun x a hs => hs.mono (received_step hc h x)
  obtain hq | ⟨x, r, hr, -, ha⟩ := step_cases h
  · have ht := hn.holds.of_quiet hq
    exact ⟨ht.node, fun p hp => hmono _ _ (ht.requests p hp), fun q hq => hmono _ _ (ht.responses q hq),
      fun p hp => hmono _ _ (ht.pending p hp)⟩
  · have hnode : t.node x = r.node := by rw [ha.node, Function.update_self]
    refine hn.holds.of_adds ha (fun _ _ hy => hy) hmono (fun y a _ => hmono y a) (hn.accounts_step hc hr)
      (stems_sent hc hr hnode) ?_
    rintro y a d rfl -
    cases hr with
    | request hm => exact hmono y a (hn.holds.requests _ hm)

lemma awaited_settle_of_ne (hc : OneAtATime nodes n e) (hr : Reacts (insertNetwork L sha1) n e x r) (hy : x ≠ y) :
    (awaited (e.settle n.pending) y).Perm (awaited n.pending y) := by
  obtain ⟨parameter, rfl, -⟩ | ⟨_, _, _, _, _, _, _, rfl, -, hp, -⟩ | ⟨-, hsettle⟩ := commands_of_reacts hc hr
  · exact List.Perm.refl _
  · exact awaited_erase_of_none hp (fun h => absurd h hy)
  · exact hsettle y

/-- A command is awaited until it is answered. -/
theorem once_step (hn : AdmissionInv nodes n) (hc : OneAtATime nodes n e)
    (h : step (insertNetwork L sha1) n e = some t) (y : String) :
    (awaited t.pending y ++ (t.node y).answered).Perm (List.range (t.node y).received.length) := by
  have hy := hn.once y
  obtain hq | ⟨x, r, hr, -, ha⟩ := step_cases h
  · rw [hq.node, hq.pending]
    exact hy
  · rw [ha.node, ha.pending, awaited_append]
    by_cases hyx : y = x
    · subst hyx
      rw [Function.update_self]
      obtain ⟨parameter, rfl, rfl⟩ | ⟨_, hash, _, _, k, parameter, d, rfl, -, hp, rfl⟩ | ⟨hu, hsettle⟩ :=
        commands_of_reacts hc hr
      · obtain ⟨-, -, hstorage⟩ := hc
        obtain ⟨repo, hash, -, hsent⟩ := onCommand_insert hstorage
        rw [hsent, awaited_find, if_pos rfl]
        change ((awaited n.pending y ++ [_]) ++ (n.node y).answered).Perm
          (List.range ((n.node y).received ++ [parameter]).length)
        rw [List.length_append, List.length_singleton, List.range_succ, List.append_assoc]
        refine (List.perm_append_comm.append_left _).trans ?_
        rw [← List.append_assoc]
        exact hy.append_right _
      · obtain ⟨-, hranged, -⟩ := hn.holds.pending _ hp
        obtain ⟨response, hanswers, -⟩ := onFindResponse_answers (s := n.node y) hranged d k
        have herase := awaited_erase (y := y) hp
        rw [if_pos rfl] at herase
        change (awaited n.pending y).Perm (k :: _) at herase
        have hsent : ∀ b ∈ ((n.node y).onFindResponse d k parameter).sent, b.asked = none := by
          intro b hb
          obtain ⟨c, hc, rfl⟩ := List.mem_map.mp hb
          exact onFindResponse_sent _ c hc
        rw [awaited_eq_nil hsent, List.append_nil, InsertNode.answered, hanswers, List.map_append, ← List.append_assoc]
        refine List.perm_append_comm.trans ?_
        exact (herase.symm.append_right _).trans hy
      · rw [awaited_eq_nil hu.sent, List.append_nil, InsertNode.answered, hu.answers, hu.received]
        exact ((hsettle y).append_right _).trans hy
    · rw [Function.update_of_ne hyx, awaited_other (Ne.symm hyx), List.append_nil]
      exact ((awaited_settle_of_ne hc hr (Ne.symm hyx)).append_right _).trans hy

lemma passed_of_accepted (hn : AdmissionInv nodes n) (hc : OneAtATime nodes n e)
    (hr : Reacts (insertNetwork L sha1) n e x r) {b : Answer L} (hb : b ∈ r.node.answers)
    (hcode : b.response.code = 100) (hhash : checkedHash sha1 b.parameter = some hash) :
    Passed n hash x b.interest := by
  obtain ⟨parameter, -, rfl⟩ | ⟨_, hash', _, _, k, parameter, d, -, hm, hp, rfl⟩ | ⟨hu, -⟩ := commands_of_reacts hc hr
  · exact Or.inr ⟨b, hb, rfl, hcode, hhash⟩
  · obtain ⟨-, hranged, hhash', -⟩ := hn.holds.pending _ hp
    obtain ⟨response, hanswers, hresponse⟩ := onFindResponse_answers (s := n.node x) hranged d k
    rw [hanswers] at hb
    obtain hb | hb := List.mem_append.mp hb
    · exact Or.inr ⟨b, hb, rfl, hcode, hhash⟩
    · rw [List.mem_singleton] at hb
      subst hb
      obtain ⟨rfl, -⟩ | rfl := hresponse
      · rw [hhash'] at hhash
        cases hhash
        exact Or.inl ⟨_, hm, rfl, rfl, hp, rfl⟩
      · cases hcode
  · rw [hu.answers] at hb
    exact Or.inr ⟨b, hb, rfl, hcode, hhash⟩

/-- A command passes its check only when a node handles its find and has no manifest. -/
theorem passed_of_step (hn : AdmissionInv nodes n) (hc : OneAtATime nodes n e)
    (h : step (insertNetwork L sha1) n e = some t) (hp : Passed t hash y k) :
    Passed n hash y k ∨ ∃ a, e = .request y a ∧ a.asked = some (hash, k) ∧
      (n.node a.destination).manifests.hasManifest hash = false := by
  obtain hq | ⟨x, r, hr, -, ha⟩ := step_cases h
  · unfold Passed at hp
    rw [hq.node, hq.pending] at hp
    refine Or.inl (hp.imp_left ?_)
    rintro ⟨q, hm, hrest⟩
    exact ⟨q, hq.responses q hm, hrest⟩
  · obtain ⟨⟨z, a, d⟩, hm, rfl, rfl, hpend, hasked⟩ | ⟨b, hb, rfl, hcode, hhash⟩ := hp
    · obtain hm | ⟨_, _, _, rfl, hreply, heq⟩ := ha.responses _ hm
      · obtain hpend | ⟨b, hb, heq⟩ := ha.mem_pending _ hpend
        · exact Or.inl (Or.inl ⟨_, hm, rfl, rfl, hpend, hasked⟩)
        · -- the find of a new command has no reply yet
          obtain ⟨rfl, rfl⟩ := Prod.mk.inj heq
          have hlt := ((hn.holds.responses _ hm).lt hasked).2
          have hk := asked_sent hc hr hb hasked
          omega
      · cases heq
        cases hr with
        | request hreq => exact Or.inr ⟨a, rfl, hasked, onRequest_empty hasked hreply⟩
    · left
      rw [ha.node] at hb
      by_cases hyx : y = x
      · subst hyx
        rw [Function.update_self] at hb
        exact hn.passed_of_accepted hc hr hb hcode hhash
      · rw [Function.update_of_ne hyx] at hb
        exact Or.inr ⟨b, hb, rfl, hcode, hhash⟩

theorem step (hn : AdmissionInv nodes n) (hc : OneAtATime nodes n e) (h : step (insertNetwork L sha1) n e = some t) :
    AdmissionInv nodes t := by
  refine ⟨hn.holds_step hc h, hn.once_step hc h, ?_⟩
  -- with one command past its check, no other find of the hash may be handled
  have hnew : ∀ hash x k y j a, e = .request y a → a.asked = some (hash, j) →
      (n.node a.destination).manifests.hasManifest hash = false → Passed n hash x k → x = y ∧ k = j := by
    rintro hash x k y j a rfl ha hlacks hp
    obtain ⟨repo, processId, lifetime, parameter, rfl⟩ := asked_eq_some ha
    obtain ⟨hx, hk⟩ := hn.passed_lt hp
    exact hc hlacks x hx k hk hp
  intro hash x k y j hx hy
  obtain hx | ⟨a, rfl, ha, hlacks⟩ := hn.passed_of_step hc h hx
  · obtain hy | ⟨b, rfl, hb, hlacks⟩ := hn.passed_of_step hc h hy
    · exact hn.one hash x k y j hx hy
    · exact hnew hash x k y j b rfl hb hlacks hx
  · obtain hy | ⟨b, heq, hb, -⟩ := hn.passed_of_step hc h hy
    · obtain ⟨rfl, rfl⟩ := hnew hash y j x k a rfl ha hlacks hy
      exact ⟨rfl, rfl⟩
    · cases heq
      rw [ha] at hb
      cases hb
      exact ⟨rfl, rfl⟩

theorem oneAccepted (hn : AdmissionInv nodes n) : OneAccepted n := by
  refine ⟨fun x a ha => (hn.holds.node x a ha).2.2.1, ?_, fun x a ha => (hn.holds.node x a ha).2.2.2, hn.once⟩
  intro x y a ha b hb hname hacode hbcode
  obtain ⟨hash, hhash⟩ := Option.isSome_iff_exists.mp (hn.holds.node x a ha).2.1
  apply hn.one hash
  · exact Or.inr ⟨a, ha, rfl, hacode, hhash⟩
  · refine Or.inr ⟨b, hb, rfl, hbcode, ?_⟩
    rw [← hhash, checkedHash, checkedHash, hname]

end AdmissionInv

/-- Nothing is under way and no command has been received. -/
structure Idle (n : InsertNet L sha1) : Prop where
  requests : n.requests = []
  responses : n.responses = []
  pending : n.pending = []
  answers : ∀ x, (n.node x).answers = []
  received : ∀ x, (n.node x).received = []

lemma Idle.admissionInv (hn : Idle n) : AdmissionInv nodes n := by
  refine ⟨⟨?_, ?_, ?_, ?_⟩, ?_, ?_⟩
  · intro x a ha
    simp [hn.answers] at ha
  · simp [hn.requests]
  · simp [hn.responses]
  · simp [hn.pending]
  · intro x
    simp [hn.pending, hn.answers, hn.received, awaited, InsertNode.answered]
  · intro hash x k y j hp
    simp [Passed, hn.responses, hn.answers] at hp

/-- If commands for a key are checked one at a time, one at most is accepted. -/
theorem one_accepted {es : List (InsertEvent L)} (hidle : Idle n)
    (hmeets : Meets (step (insertNetwork L sha1)) (OneAtATime nodes) n es)
    (hrun : run (step (insertNetwork L sha1)) n es = some t) : OneAccepted t := by
  have ht : AdmissionInv nodes t :=
    run_invariant (fun _ _ _ hn hc h => AdmissionInv.step hn hc h) hidle.admissionInv hmeets hrun
  exact ht.oneAccepted

end Runs

def filmFile : KeySpaceFile := [⟨"/a/repo", "0x00", "0x7f"⟩, ⟨"/b/repo", "0x80", "0xff"⟩]

def filmNode (nodePrefix : String) : InsertNode plainNames archiveDigest where
  keySpace := { KeySpaceHandle.create (nodePrefix ++ "/repo") "/a/repo" "node" "" (0, 0) with
    mKeySpaceFile := some filmFile }
  write := { mClusterNodePrefix := nodePrefix, mClusterPrefix := "repo", mRepoPrefix := nodePrefix ++ "/repo" }
  manifests := .empty
  random k := 7 + k.toUInt64

/-- Two nodes with one key-space file; the client is at `/film`. -/
def filmNet : InsertNet plainNames archiveDigest where
  node x := filmNode (if x = "/b/repo" then "/b" else "/a")

def insertFilm : RepoCommandParameter plainNames := { name := [film] }

def filmHash : String := "f1146b13f1fcbc375bd9c9ddf55e362c62e59b02"

def findFilm : InsertInterest plainNames := .write (.find "/b/repo" filmHash 0 4000 0 insertFilm)

def filmManifest : ManifestJson :=
  { name := "/film", hash := filmHash, startBlockId := 0, endBlockId := 0, storages := some [⟨"/a/repo", 0, 0⟩]
    segment := none }

def filmAnswer (response : RepoCommandResponse) : Answer plainNames := ⟨0, insertFilm, response⟩

def filmAccepted : RepoCommandResponse := { code := 100, processId := some 8, insertNum := some 0 }

/-- The second command arrives when the manifest of the first is stored. -/
def filmThenFilm : List (InsertEvent plainNames) :=
  let object := .write (.object insertFilm.name none 4000 8)
  let create := .write (.create "/b/repo" filmHash "/a" 4000 8)
  let info := .writeInfo "/a/repo" filmHash 8
  [.input "/a/repo" (.insert insertFilm), .request "/a/repo" findFilm, .response "/a/repo" findFilm .empty,
    .request "/a/repo" object, .response "/a/repo" object (.info ⟨"/film", filmHash, 0⟩),
    .request "/a/repo" create, .request "/b/repo" info, .response "/b/repo" info (.manifest filmManifest),
    .input "/b/repo" (.insert insertFilm), .request "/b/repo" findFilm,
    .response "/b/repo" findFilm (.manifest filmManifest)]

theorem film_inserted_once : ∃ t, run (step (insertNetwork plainNames archiveDigest)) filmNet filmThenFilm = some t ∧
    (t.node "/a/repo").answers = [filmAnswer filmAccepted] ∧
    (t.node "/b/repo").answers = [filmAnswer (negativeReply "Manifest already exists" 403)] ∧ OneAccepted t := by
  have hview : (run (step (insertNetwork plainNames archiveDigest)) filmNet filmThenFilm).map
      (fun t => ((t.node "/a/repo").answers, (t.node "/b/repo").answers)) =
        some ([filmAnswer filmAccepted], [filmAnswer (negativeReply "Manifest already exists" 403)]) := by
    decide +kernel
  have hmeets : Meets (step (insertNetwork plainNames archiveDigest)) (OneAtATime ["/a/repo", "/b/repo"])
      filmNet filmThenFilm := by decide +kernel
  obtain ⟨t, hrun, ht⟩ := Option.map_eq_some_iff.mp hview
  obtain ⟨ha, hb⟩ := Prod.mk.inj ht
  exact ⟨t, hrun, ha, hb, one_accepted ⟨rfl, rfl, rfl, fun _ => rfl, fun _ => rfl⟩ hmeets hrun⟩

/-- Both finds are handled before a manifest is stored. -/
def filmCrossesFilm : List (InsertEvent plainNames) :=
  [.input "/a/repo" (.insert insertFilm), .input "/b/repo" (.insert insertFilm),
    .request "/a/repo" findFilm, .request "/b/repo" findFilm,
    .response "/a/repo" findFilm .empty, .response "/b/repo" findFilm .empty]

theorem film_inserted_twice : (∀ x, (filmNet.node x).keySpace.mKeySpaceFile = some filmFile) ∧
    ∃ t, run (step (insertNetwork plainNames archiveDigest)) filmNet filmCrossesFilm = some t ∧
      (t.node "/a/repo").answers = [filmAnswer filmAccepted] ∧
      (t.node "/b/repo").answers = [filmAnswer filmAccepted] ∧ ¬ OneAccepted t := by
  have hview : (run (step (insertNetwork plainNames archiveDigest)) filmNet filmCrossesFilm).map
      (fun t => ((t.node "/a/repo").answers, (t.node "/b/repo").answers)) =
        some ([filmAnswer filmAccepted], [filmAnswer filmAccepted]) := by
    decide +kernel
  obtain ⟨t, hrun, ht⟩ := Option.map_eq_some_iff.mp hview
  obtain ⟨ha, hb⟩ := Prod.mk.inj ht
  refine ⟨fun x => rfl, t, hrun, ha, hb, ?_⟩
  intro hone
  have hsame := hone.one "/a/repo" "/b/repo" (filmAnswer filmAccepted) (by simp [ha]) (filmAnswer filmAccepted)
    (by simp [hb]) rfl rfl rfl
  exact absurd hsame.1 (by decide)

end Difs
