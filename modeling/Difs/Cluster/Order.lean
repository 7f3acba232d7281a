import Difs.Cluster.Snapshots

/-!
# The order of installs

A node installs whatever fetch reply arrives. It follows the order of publication as long as
no reply overtakes an earlier one on the way to the same node and no version text is used
twice.
-/

namespace Difs

open Exchange EventRun

variable {sha1 : String → String}

def versions (managerName : String) (n : Cluster sha1) : List String :=
  (n.node managerName).published.map Prod.fst

/-- The version of a fetch reply with a file that is under way to `x`. -/
def replyVersion (x : String) : String × Interest × Content → Option String
  | (y, .fetch _ version, .keySpaces _) => if y = x then some version else none
  | _ => none

def installEvent : ClusterEvent → Option (String × String)
  | .response x (.fetch _ version) (.keySpaces _) => some (x, version)
  | _ => none

/-- No reply with an earlier version is under way to the node that installs. -/
def NoOvertaking (managerName : String) (n : Cluster sha1) (e : ClusterEvent) : Prop :=
  ∀ p ∈ installEvent e, ∀ q ∈ n.responses, ∀ version ∈ replyVersion p.1 q,
    (versions managerName n).idxOf p.2 ≤ (versions managerName n).idxOf version

instance (managerName : String) (n : Cluster sha1) (e : ClusterEvent) : Decidable (NoOvertaking managerName n e) :=
  inferInstanceAs (Decidable (∀ p ∈ installEvent e, ∀ q ∈ n.responses, ∀ version ∈ replyVersion p.1 q, _ ≤ _))

/-- The counter of the versions has not wrapped at a command. -/
def CountsOn (managerName : String) (n : Cluster sha1) (e : ClusterEvent) : Prop :=
  e.isInput → (versions managerName n).length < 2 ^ 64

instance (managerName : String) (n : Cluster sha1) (e : ClusterEvent) : Decidable (CountsOn managerName n e) :=
  inferInstanceAs (Decidable (_ → _))

def InOrder (managerName : String) (n : Cluster sha1) (e : ClusterEvent) : Prop :=
  ToManager managerName n e ∧ CountsOn managerName n e ∧ NoOvertaking managerName n e

instance (managerName : String) (n : Cluster sha1) (e : ClusterEvent) : Decidable (InOrder managerName n e) :=
  inferInstanceAs (Decidable (_ ∧ _))

/-! ### Notices, fetches and replies under way -/

/-- Notices come from the manager; the manager itself fetches only versions it has left behind. -/
def Travels (managerName : String) (vs : List String) (current : String) (x : String) : Interest → Prop
  | .ver _ version => x = managerName ∧ version ∈ vs
  | .fetch p version => p = managerName ∧ (x = managerName → version ∈ vs ∧ version ≠ current)
  | _ => True

def Answers (managerName : String) (vs : List String) (x : String) (i : Interest) (d : Content) : Prop :=
  ∀ p version file, i = .fetch p version → d = .keySpaces file → x ≠ managerName ∧ version ∈ vs

/-- What holds of the manager and the messages as long as the counter has not wrapped. -/
structure Unwrapped (managerName : String) (n : Cluster sha1) : Prop where
  holds : Holds (fun _ s => s.handle.mManagerPrefix = managerName)
    (Travels managerName (versions managerName n) (n.node managerName).handle.mVersion)
    (Answers managerName (versions managerName n)) n
  numbered : Numbered (n.node managerName)
  few : (versions managerName n).length ≤ 2 ^ 64
  last : (versions managerName n).getLast? = some (n.node managerName).handle.mVersion

namespace Unwrapped

variable {managerName : String} {n t : Cluster sha1} {e : ClusterEvent}

lemma nodup (hn : Unwrapped managerName n) : (versions managerName n).Nodup :=
  hn.numbered.nodup (by simpa [versions] using hn.few)

lemma current_mem (hn : Unwrapped managerName n) : (n.node managerName).handle.mVersion ∈ versions managerName n :=
  List.mem_of_getLast? hn.last

/-- The manager keeps its version, or publishes a new one. -/
theorem manager_cases (hn : Unwrapped managerName n) (h : step (cluster sha1) n e = some t) :
    (versions managerName t = versions managerName n ∧
        (t.node managerName).handle.mVersion = (n.node managerName).handle.mVersion) ∨
      ∃ c file, e = .input managerName c ∧ Publishes (n.node managerName) (t.node managerName) file := by
  unfold versions
  obtain hq | ⟨x, r, hr, -, ha⟩ := step_cases h
  · exact Or.inl (by rw [hq.node]; exact ⟨rfl, rfl⟩)
  · rw [node_of_adds ha managerName]
    by_cases hx : managerName = x
    · rw [if_pos hx]
      subst hx
      obtain hs | ⟨y, p, version, file, -, rfl, hmem, -⟩ | ⟨c, file, he, hp⟩ := reacts_cases hr
      · exact Or.inl ⟨by rw [hs.published], hs.file.version⟩
      · exact absurd rfl (hn.holds.responses _ hmem p version file rfl rfl).1
      · exact Or.inr ⟨c, file, he, hp⟩
    · rw [if_neg hx]
      exact Or.inl ⟨rfl, rfl⟩

lemma fresh (hn : Unwrapped managerName n) (hlt : (versions managerName n).length < 2 ^ 64) {s : Node sha1}
    {file : KeySpaceFile} (hp : Publishes (n.node managerName) s file) :
    s.handle.mVersion ∉ versions managerName n := by
  have hs := hn.numbered.publishes hp
  unfold versions at hlt ⊢
  rw [List.length_map] at hlt
  have hnodup := hs.nodup (by rw [hp.published, List.length_append, List.length_singleton]; omega)
  rw [hp.published, List.map_append] at hnodup
  intro hmem
  exact (List.nodup_append.mp hnodup).2.2 _ hmem _ (List.mem_singleton_self _) rfl

lemma fresh_of_step (hn : Unwrapped managerName n) (hc : CountsOn managerName n e)
    (h : Exchange.step (cluster sha1) n e = some t) {version : String} (hv : version ∈ versions managerName n)
    (hne : version ≠ (n.node managerName).handle.mVersion) : version ≠ (t.node managerName).handle.mVersion := by
  obtain ⟨-, hcur⟩ | ⟨c, file, rfl, hp⟩ := hn.manager_cases h
  · rw [hcur]
    exact hne
  · intro heq
    exact hn.fresh (hc rfl) hp (heq ▸ hv)

lemma versions_mono (h : Exchange.step (cluster sha1) n e = some t) :
    ∀ v ∈ versions managerName n, v ∈ versions managerName t :=
  ((published_prefix_step h managerName).map Prod.fst).subset

lemma last_of_step (hn : Unwrapped managerName n) (h : Exchange.step (cluster sha1) n e = some t) :
    (versions managerName t).getLast? = some (t.node managerName).handle.mVersion := by
  obtain ⟨hvs, hcur⟩ | ⟨c, file, -, hp⟩ := hn.manager_cases h
  · rw [hvs, hcur]
    exact hn.last
  · unfold versions
    rw [hp.published, List.map_append]
    exact List.getLast?_concat

lemma few_of_step (hn : Unwrapped managerName n) (hc : CountsOn managerName n e)
    (h : Exchange.step (cluster sha1) n e = some t) : (versions managerName t).length ≤ 2 ^ 64 := by
  obtain ⟨hvs, -⟩ | ⟨c, file, rfl, hp⟩ := hn.manager_cases h
  · rw [hvs]
    exact hn.few
  · have hlt := hc rfl
    unfold versions at hlt ⊢
    rw [hp.published, List.map_append, List.length_append]
    exact hlt

lemma travels_mono (hn : Unwrapped managerName n) (hc : CountsOn managerName n e)
    (h : Exchange.step (cluster sha1) n e = some t) (x : String) (i : Interest)
    (hi : Travels managerName (versions managerName n) (n.node managerName).handle.mVersion x i) :
    Travels managerName (versions managerName t) (t.node managerName).handle.mVersion x i := by
  cases i with
  | ver y version => exact ⟨hi.1, versions_mono h version hi.2⟩
  | fetch p version =>
    refine ⟨hi.1, fun hx => ?_⟩
    obtain ⟨hv, hne⟩ := hi.2 hx
    exact ⟨versions_mono h version hv, hn.fresh_of_step hc h hv hne⟩
  | _ => trivial

lemma travels_sent (hn : Unwrapped managerName n) (hm : ToManager managerName n e) (hc : CountsOn managerName n e)
    (h : Exchange.step (cluster sha1) n e = some t) {x : String} {r : Reaction (Node sha1) Interest Content}
    (hr : Reacts (cluster sha1) n e x r) (ha : Adds n e x r t) (i : Interest) (hi : i ∈ r.sent) :
    Travels managerName (versions managerName t) (t.node managerName).handle.mVersion x i := by
  cases i with
  | ver y version =>
    obtain ⟨hv, hwhy⟩ := ver_sent hr hi
    have hx : x = managerName := by
      obtain ⟨c, file, rfl, -⟩ | ⟨y', v', hp⟩ := hwhy
      · exact hm
      · exact (hn.holds.pending _ hp).1
    have hnode := node_of_adds ha managerName
    rw [if_pos hx.symm] at hnode
    rw [hv, ← hnode]
    exact ⟨hx, List.mem_of_getLast? (hn.last_of_step h)⟩
  | fetch p version =>
    obtain ⟨hp, hwhy⟩ := fetch_sent hr hi
    refine ⟨hp.trans (hn.holds.node x), fun hx => ?_⟩
    obtain ⟨z, -, hz, hne⟩ | ⟨p', hp'⟩ := hwhy
    · have hv := (hn.holds.requests _ hz).2
      rw [hx] at hne
      exact ⟨versions_mono h version hv, hn.fresh_of_step hc h hv hne⟩
    · exact (hn.travels_mono hc h x _ (hn.holds.pending _ hp')).2 hx
  | _ => trivial

theorem step (hn : Unwrapped managerName n) (hm : ToManager managerName n e) (hc : CountsOn managerName n e)
    (h : Exchange.step (cluster sha1) n e = some t) : Unwrapped managerName t := by
  refine ⟨?_, numbered_step hn.numbered h, hn.few_of_step hc h, hn.last_of_step h⟩
  obtain hq | ⟨x, r, hr, -, ha⟩ := step_cases h
  · have hsame := hn.holds.of_quiet hq
    unfold versions at *
    rw [hq.node] at *
    exact hsame
  · refine hn.holds.of_adds ha (fun _ _ hy => hy) (hn.travels_mono hc h) ?_ ?_ (hn.travels_sent hm hc h hr ha) ?_
    · intro y i d hd p version file hi hfile
      obtain ⟨hy, hv⟩ := hd p version file hi hfile
      exact ⟨hy, versions_mono h version hv⟩
    · exact (manager_of_reacts hr).trans (hn.holds.node x)
    · intro y i d he hd p version file hi hfile
      subst he hi hfile
      cases hr with
      | request hmem =>
        obtain ⟨hv, -⟩ := reply_fetch (p := p) hd
        obtain ⟨rfl, hy⟩ := hn.holds.requests _ hmem
        refine ⟨fun heq => (hy heq).2 hv.symm, ?_⟩
        rw [← hv]
        exact versions_mono h _ hn.current_mem

end Unwrapped

/-! ### Installs -/

lemma idxOf_le_last {vs : List String} {last v : String} (hnodup : vs.Nodup) (hlast : vs.getLast? = some last)
    (hv : v ∈ vs) : vs.idxOf v ≤ vs.idxOf last := by
  obtain ⟨init, rfl⟩ := List.getLast?_eq_some_iff.mp hlast
  have hlt := List.idxOf_lt_length_iff.mpr hv
  have hnot : last ∉ init := fun hm => (List.nodup_append.mp hnodup).2.2 last hm last (List.mem_singleton_self _) rfl
  rw [List.idxOf_append_of_notMem hnot, List.idxOf_cons_self]
  rw [List.length_append, List.length_singleton] at hlt
  omega

/-- Earlier in the order of publication, or the same. -/
def NotLater (managerName : String) (n : Cluster sha1) (u v : String) : Prop :=
  (versions managerName n).idxOf u ≤ (versions managerName n).idxOf v

/-- Every node's installs are in order, and no reply under way to it is behind them. -/
structure Ordered (managerName : String) (n : Cluster sha1) : Prop where
  unwrapped : Unwrapped managerName n
  known : ∀ x, ∀ v ∈ (n.node x).installs, v ∈ versions managerName n
  sorted : ∀ x, (n.node x).installs.Pairwise (NotLater managerName n)
  ahead : ∀ x, ∀ u ∈ (n.node x).installs, ∀ q ∈ n.responses, ∀ v ∈ replyVersion x q, NotLater managerName n u v

lemma mem_replyVersion {x v : String} {q : String × Interest × Content} (h : v ∈ replyVersion x q) :
    ∃ p file, q = (x, .fetch p v, .keySpaces file) := by
  obtain ⟨y, i, d⟩ := q
  unfold replyVersion at h
  split at h
  · rename_i y' p version file heq
    cases heq
    by_cases hy : y = x
    · rw [if_pos hy, Option.mem_some_iff] at h
      exact ⟨p, file, by rw [hy, h]⟩
    · rw [if_neg hy] at h
      cases h
  · cases h

section Steps

variable {managerName : String} {n t : Cluster sha1} {e : ClusterEvent}

lemma notLater_step (h : step (cluster sha1) n e = some t) {u v : String} (hu : u ∈ versions managerName n)
    (hv : v ∈ versions managerName n) (huv : NotLater managerName n u v) : NotLater managerName t u v := by
  obtain ⟨rest, hrest⟩ := (published_prefix_step h managerName).map Prod.fst
  unfold NotLater versions at *
  rw [← hrest, List.idxOf_append_of_mem hu, List.idxOf_append_of_mem hv]
  exact huv

lemma reply_mem (hn : Unwrapped managerName n) {x v : String} {q : String × Interest × Content}
    (hq : q ∈ n.responses) (hv : v ∈ replyVersion x q) : v ∈ versions managerName n := by
  obtain ⟨p, file, rfl⟩ := mem_replyVersion hv
  exact (hn.holds.responses _ hq p v file rfl rfl).2

lemma reply_cases (hn : Unwrapped managerName n) (h : step (cluster sha1) n e = some t) {x v : String}
    {q : String × Interest × Content} (hq : q ∈ t.responses) (hv : v ∈ replyVersion x q) :
    q ∈ n.responses ∨
      (∃ z, e = .request z (.fetch managerName v)) ∧ v = (n.node managerName).handle.mVersion := by
  obtain hquiet | ⟨y, r, hr, -, ha⟩ := step_cases h
  · exact Or.inl (hquiet.responses q hq)
  · obtain hq | ⟨z, i, d, rfl, hd, rfl⟩ := ha.responses q hq
    · exact Or.inl hq
    · obtain ⟨p, file, heq⟩ := mem_replyVersion hv
      cases heq
      cases hr with
      | request hmem =>
        obtain ⟨hcur, -⟩ := reply_fetch (p := p) hd
        obtain ⟨rfl, -⟩ := hn.holds.requests _ hmem
        exact Or.inr ⟨⟨_, rfl⟩, hcur.symm⟩

lemma installs_cases (h : step (cluster sha1) n e = some t) (x : String) :
    (t.node x).installs = (n.node x).installs ∨
      ∃ p v file, installEvent e = some (x, v) ∧ (x, .fetch p v, .keySpaces file) ∈ n.responses ∧
        (t.node x).installs = (n.node x).installs ++ [v] := by
  obtain hq | ⟨y, r, hr, -, ha⟩ := step_cases h
  · exact Or.inl (by rw [hq.node])
  · rw [node_of_adds ha x]
    by_cases hx : x = y
    · rw [if_pos hx]
      subst hx
      obtain hs | ⟨y, p, v, file, rfl, rfl, hmem, hi⟩ | ⟨c, file, -, hp⟩ := reacts_cases hr
      · exact Or.inl hs.installs
      · exact Or.inr ⟨p, v, file, rfl, hmem, hi.installs⟩
      · exact Or.inl hp.installs
    · rw [if_neg hx]
      exact Or.inl rfl

theorem Ordered.step (hn : Ordered managerName n) (hc : InOrder managerName n e)
    (h : Exchange.step (cluster sha1) n e = some t) : Ordered managerName t := by
  obtain ⟨hm, hcount, hover⟩ := hc
  have hu := hn.unwrapped
  have hmono : ∀ v ∈ versions managerName n, v ∈ versions managerName t := Unwrapped.versions_mono h
  refine ⟨hu.step hm hcount h, ?_, ?_, ?_⟩
  · intro x v hv
    obtain heq | ⟨p, w, file, -, hmem, heq⟩ := installs_cases h x
    · rw [heq] at hv
      exact hmono v (hn.known x v hv)
    · rw [heq, List.mem_append, List.mem_singleton] at hv
      obtain hv | rfl := hv
      · exact hmono v (hn.known x v hv)
      · exact hmono v (hu.holds.responses _ hmem p v file rfl rfl).2
  · intro x
    have hold : (n.node x).installs.Pairwise (NotLater managerName t) := by
      refine (hn.sorted x).imp_of_mem ?_
      intro a b ha hb hab
      exact notLater_step h (hn.known x a ha) (hn.known x b hb) hab
    obtain heq | ⟨p, w, file, -, hmem, heq⟩ := installs_cases h x
    · rw [heq]
      exact hold
    · rw [heq, List.pairwise_append]
      refine ⟨hold, List.pairwise_singleton _ _, ?_⟩
      intro u hx v hv
      rw [List.mem_singleton.mp hv]
      have hw : w ∈ replyVersion x (x, Interest.fetch p w, Content.keySpaces file) := by simp [replyVersion]
      exact notLater_step h (hn.known x u hx) (reply_mem hu hmem hw) (hn.ahead x u hx _ hmem w hw)
  · intro x u hx q hq v hv
    obtain hqn | ⟨⟨z, rfl⟩, hcur⟩ := reply_cases hu h hq hv
    · have hvn := reply_mem hu hqn hv
      obtain heq | ⟨p, w, file, hinst, hmem, heq⟩ := installs_cases h x
      · rw [heq] at hx
        exact notLater_step h (hn.known x u hx) hvn (hn.ahead x u hx q hqn v hv)
      · rw [heq, List.mem_append, List.mem_singleton] at hx
        obtain hx | rfl := hx
        · exact notLater_step h (hn.known x u hx) hvn (hn.ahead x u hx q hqn v hv)
        · have hw : u ∈ replyVersion x (x, Interest.fetch p u, Content.keySpaces file) := by simp [replyVersion]
          exact notLater_step h (reply_mem hu hmem hw) hvn (hover (x, u) hinst q hqn v hv)
    · obtain heq | ⟨p, w, file, hinst, -, -⟩ := installs_cases h x
      · rw [heq] at hx
        have hux := hn.known x u hx
        rw [hcur]
        exact notLater_step h hux hu.current_mem (idxOf_le_last hu.nodup hu.last hux)
      · cases hinst

end Steps

/-! ### Runs from the start -/

section Runs

variable {managerName : String} {settings : String → Setting sha1} {n : Cluster sha1} {es : List ClusterEvent}

lemma unwrapped_start : Unwrapped managerName (start managerName settings) := by
  obtain ⟨file, hp, hv, -, -⟩ := published_start managerName settings
  have hvs : versions managerName (start managerName settings) = [versionText 0] := by
    unfold versions
    rw [hp]
    rfl
  refine ⟨⟨?_, by simp [start], by simp [start], by simp [start]⟩, numbered_start, by rw [hvs]; decide, ?_⟩
  · intro x
    by_cases hx : x = managerName
    · simp [start, Setting.boot, KeySpaceHandle.create, KeySpaceHandle.initKeySpaceFile,
        KeySpaceHandle.nextVersion, hx]
    · rw [start_other hx]
  · rw [hvs, hv]
    rfl

lemma installs_start (x : String) : ((start managerName settings).node x).installs = [] := by
  by_cases hx : x = managerName
  · obtain ⟨h, -, hnode⟩ := start_manager managerName settings
    rw [hx, hnode]
    rfl
  · rw [start_other hx]
    rfl

lemma ordered_start : Ordered managerName (start managerName settings) := by
  refine ⟨unwrapped_start, ?_, ?_, ?_⟩
  · intro x v hv
    rw [installs_start] at hv
    cases hv
  · intro x
    rw [installs_start]
    exact List.Pairwise.nil
  · intro x u hu
    rw [installs_start] at hu
    cases hu

/-- Without overtaking replies every node installs versions in the order of publication. -/
theorem installs_in_order (hc : Meets (step (cluster sha1)) (InOrder managerName) (start managerName settings) es)
    (hrun : run (step (cluster sha1)) (start managerName settings) es = some n) (x : String) :
    (n.node x).installs.Pairwise (NotLater managerName n) :=
  (run_invariant (fun _ _ _ hn hc h => Ordered.step hn hc h) ordered_start hc hrun).sorted x

end Runs

instance (managerName : String) (n : Cluster sha1) (u v : String) : Decidable (NotLater managerName n u v) :=
  inferInstanceAs (Decidable (_ ≤ _))

abbrev firstFile : KeySpaceFile := [⟨"/m", "0x00", "0x7f"⟩, ⟨"/a", "0x80", "0xff"⟩]

abbrev secondFile : KeySpaceFile := [⟨"/m", "0x00", "0x3f"⟩, ⟨"/a", "0x80", "0xff"⟩, ⟨"/b", "0x40", "0x7f"⟩]

/-- Two joins whose notices `/a` answers with two fetches; both replies are under way. -/
def twoFetches : List ClusterEvent :=
  [.input "/m" (.addNode "/m" "/a"), .request "/m" (.ver "/a" "v1"), .request "/a" (.fetch "/m" "v1"),
    .input "/m" (.addNode "/m" "/b"), .request "/m" (.ver "/a" "v2"), .request "/a" (.fetch "/m" "v2")]

def inTurn : List ClusterEvent :=
  twoFetches ++ [.response "/a" (.fetch "/m" "v1") (.keySpaces firstFile),
    .response "/a" (.fetch "/m" "v2") (.keySpaces secondFile)]

theorem installs_in_turn : ∃ n : Cluster id,
    run (step (cluster id)) (start "/m" exampleSettings) inTurn = some n ∧
      (n.node "/a").installs = ["v1", "v2"] ∧ (n.node "/a").installs.Pairwise (NotLater "/m" n) := by
  have hc : Meets (step (cluster id)) (InOrder "/m") (start "/m" exampleSettings) inTurn := by decide
  obtain ⟨n, hrun, hi⟩ : ∃ n : Cluster id, run (step (cluster id)) (start "/m" exampleSettings) inTurn = some n ∧
      (n.node "/a").installs = ["v1", "v2"] := ⟨_, rfl, by decide⟩
  exact ⟨n, hrun, hi, installs_in_order hc hrun "/a"⟩

/-- The replies cross: `/a` ends with the older file. -/
def crossed : List ClusterEvent :=
  twoFetches ++ [.response "/a" (.fetch "/m" "v2") (.keySpaces secondFile),
    .response "/a" (.fetch "/m" "v1") (.keySpaces firstFile)]

theorem crossed_not_in_order : ∃ n : Cluster id,
    run (step (cluster id)) (start "/m" exampleSettings) crossed = some n ∧
      Meets (step (cluster id)) (ToManager "/m") (start "/m" exampleSettings) crossed ∧
      (n.node "/a").installs = ["v2", "v1"] ∧ versions "/m" n = ["v0", "v1", "v2"] ∧
      ¬ (n.node "/a").installs.Pairwise (NotLater "/m" n) :=
  ⟨_, rfl, by decide, by decide, by decide, by decide⟩

end Difs
