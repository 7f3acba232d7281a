import Difs.Delete.ManifestLast

/-!
# The answers to deletions

A command that has no Interest outstanding should have answered its own Interest once, and left no
entry of it in the process map. It has exactly where its Interests were answered well and its
manifest was found: `onTimeout` and a refusal reply to the Interest that was sent instead of
the one received, and only the two good ends erase the process. A command without a key space, and
one whose manifest does not parse or names no storage, throws with its entry made.
-/

namespace Difs

open EventRun Threads DeleteHandle

variable {L : NameLibrary} {sha1 : String → String}

def DeleteCommand.interest : DeleteCommand L sha1 → L.Name
  | .delete interest _ _ _ => interest
  | .deleteManifest interest _ _ _ _ => interest

/-- The response to the own Interest of a command: with `done` for a delete, under the name of the
Interest received for a delete-manifest. -/
def DeleteCommand.answer? (a : ℕ) : DeleteCommand L sha1 → DeleteOutput L → Option DeleteResponse
  | .delete _ _ _ _, .done response => some response
  | .deleteManifest interest _ _ _ _, .reply (.received (some received)) response =>
    if received = ⟨a, interest⟩ then some response else none
  | _, _ => none

def DeleteCommand.answers (a : ℕ) (c : DeleteCommand L sha1) (records : List (DeleteRecord L)) : List DeleteResponse :=
  (records.filterMap LogRecord.output?).filterMap (c.answer? a)

/-- Answered once and cleaned up. -/
structure DeletionSettled (h : DeleteHandle L) (a : ℕ) (c : DeleteCommand L sha1)
    (records : List (DeleteRecord L)) : Prop where
  answered : (c.answers a records).length = 1
  cleaned : ¬ EntryOf h c.processId ⟨a, c.interest⟩

def DeletionsSettled
    (s : System (DeleteHandle L) (DeleteCommand L sha1) (DeleteInterest L) DeleteAnswer (DeleteOutput L)) :
    Prop :=
  ∀ a c, s.commands[a]? = some c → s.pendingOf a = [] → DeletionSettled s.node a c (s.thread a)

/-! ### Handlers that throw -/

/-- What the handler of a command has done when it throws. It has made the entry of its process, and
has filled it in where it is the front of an empty list of storages that is taken. -/
def DeleteHandle.entryMade (h : DeleteHandle L) (number : ℕ) : DeleteCommand L sha1 → DeleteHandle L
  | .delete interest _ processId _ =>
    h.setProcess processId { h.process processId with interest := some ⟨number, interest⟩ }
  | .deleteManifest interest parameter manifests random _ =>
    let process := { h.process random with interest := some ⟨number, interest⟩ }
    match manifests.readManifest (parameterHash parameter) with
    | .ok (some m) =>
      h.setProcess random
        { process with repos := m.mRepos, name := L.ofUri m.mName, hash := parameterHash parameter }
    | _ => h.setProcess random process

/-- The process with the handle. An exception ends it. -/
structure DeleteProcess (L : NameLibrary) (sha1 : String → String) where
  system : System (DeleteHandle L) (DeleteCommand L sha1) (DeleteInterest L) DeleteAnswer (DeleteOutput L)
  threw : Bool := false

def deleteStep (p : DeleteProcess L sha1) (e : Event (DeleteCommand L sha1) (DeleteInterest L) DeleteAnswer) :
    Option (DeleteProcess L sha1) :=
  if p.threw then none
  else
    match step (deleteHandle L sha1) p.system e, e with
    | some s, _ => some { system := s }
    | none, .command c =>
      some {
        system := { p.system with
          node := p.system.node.entryMade p.system.commands.length c
          commands := p.system.commands ++ [c] }
        threw := true }
    | none, .ends _ _ _ => none

/-- A handle that has seen nothing yet. -/
def deleteStart (L : NameLibrary) (sha1 : String → String) (lifetime : ℕ) : DeleteProcess L sha1 where
  system := { node := { mInterestLifetime := lifetime } }

/-! ### What goes well -/

/-- The Interest of a delete gets an answer, that of a delete-manifest one with a code of at most 400. -/
def EndsWell : DeleteInterest L → Option DeleteAnswer → Prop
  | .deleteManifest _ _ _ _ _, d => d ≠ none
  | .deleteData _ _ _ _ _ _ _ _, d => ¬ Refused d

/-- A delete has a node to ask, a delete-manifest finds a manifest with storages, and Interests end well. -/
def Succeeds : Event (DeleteCommand L sha1) (DeleteInterest L) DeleteAnswer → Prop
  | .command (.delete _ name _ keySpace) => keySpace.getManifestStorage (sha1 (deleteText name)) ≠ none
  | .command (.deleteManifest _ parameter manifests _ _) =>
    ∃ m, manifests.readManifest (parameterHash parameter) = .ok (some m) ∧ m.mRepos ≠ []
  | .ends _ k d => EndsWell k d

section Answers

variable {h : DeleteHandle L} {a : ℕ} {c : DeleteCommand L sha1} {calls : List (DeleteInterest L)}
  {records walk : List (DeleteRecord L)} {parameter : DeleteParameter L} {name : L.Name} {random : UInt64}
  {repos : List Repo} {k : DeleteInterest L} {d : Option DeleteAnswer}

/-- A walk answers nothing. -/
lemma Walk.answers (hw : Walk parameter name random repos walk) (rest : List (DeleteRecord L)) :
    c.answers a (walk ++ rest) = c.answers a rest := by
  unfold DeleteCommand.answers
  rw [List.filterMap_append, hw.outputs, List.nil_append]

lemma Walk.endsWell (hw : Walk parameter name random repos walk) (hm : .ended k d ∈ walk) : EndsWell k d := by
  have hrefused := hw.answered hm
  induction hw with
  | nil => cases hm
  | snoc hw repo newProcessId lifetime hcode ih =>
    obtain hm | hm := List.mem_append.mp hm
    · exact ih hm
    · simp only [List.mem_cons, List.not_mem_nil, or_false, reduceCtorEq, LogRecord.ended.injEq, false_or] at hm
      rw [hm.1]
      exact hrefused

/-- A command is settled when its calls have ended well. -/
lemma DeleteThread.settled (ht : DeleteThread h a c [] records) (hc : Succeeds (.command c))
    (hended : ∀ k d, .ended k d ∈ records → EndsWell k d) : DeletionSettled h a c records := by
  cases c with
  | delete interest name processId keySpace =>
    cases ht with
    | answered hk answer response hp => exact ⟨rfl, hp⟩
    | @unanswered k hk response =>
      have hwell : EndsWell k none := by
        apply hended
        simp
      obtain ⟨repo, lifetime, -, rfl⟩ := hk
      exact (hwell rfl).elim
  | deleteManifest interest parameter manifests random newProcessId =>
    cases ht with
    | notFound response hm =>
      obtain ⟨m, hfound, -⟩ := hc
      rw [hm] at hfound
      cases hfound
    | deleted response hm hw hp =>
      refine ⟨?_, hp⟩
      rw [hw.answers]
      simp [DeleteCommand.answers, DeleteCommand.answer?, LogRecord.output?]
    | @refused m repos walk repo k newProcessId lifetime answer response hm hw hk hcode =>
      have hwell : EndsWell k (some answer) := by
        apply hended
        simp
      subst hk
      refine (hwell ?_).elim
      intro answer' hanswer
      cases hanswer
      exact hcode
    | @unanswered m repos walk repo k newProcessId lifetime response hm hw hk =>
      have hwell : EndsWell k none := by
        apply hended
        simp
      subst hk
      refine (hwell ?_).elim
      intro answer hanswer
      cases hanswer

/-- A command one of whose calls has not ended well has none pending, and has not answered its own
Interest. -/
lemma DeleteThread.not_settled (ht : DeleteThread h a c calls records) (hended : .ended k d ∈ records)
    (hfail : ¬ EndsWell k d) : calls = [] ∧ c.answers a records = [] := by
  cases c with
  | delete interest name processId keySpace =>
    cases ht with
    | asked hk => simp at hended
    | unanswered hk response => exact ⟨rfl, rfl⟩
    | answered hk answer response hp =>
      simp only [List.mem_cons, List.not_mem_nil, or_false, reduceCtorEq, LogRecord.ended.injEq, false_or] at hended
      obtain ⟨rfl, rfl⟩ := hended
      obtain ⟨repo, lifetime, -, rfl⟩ := hk
      exact (hfail (Option.some_ne_none answer)).elim
  | deleteManifest interest parameter manifests random newProcessId =>
    cases ht with
    | notFound response hm => simp at hended
    | refused response hm hw hk hcode =>
      rw [hw.answers]
      exact ⟨rfl, rfl⟩
    | unanswered response hm hw hk =>
      rw [hw.answers]
      exact ⟨rfl, rfl⟩
    | walking hm hrepos hw hk hp => exact (hfail (hw.endsWell (by simpa using hended))).elim
    | deleted response hm hw hp => exact (hfail (hw.endsWell (by simpa using hended))).elim

/-- A command that is settled, as far as it has nothing to wait for, has found what it needs. -/
lemma succeeds_of_step {s t : System (DeleteHandle L) (DeleteCommand L sha1) (DeleteInterest L) DeleteAnswer
    (DeleteOutput L)} (hstep : step (deleteHandle L sha1) s (.command c) = some t) (hs : Threaded DeleteThread s)
    (ht : DeletionsSettled t) : Succeeds (.command c) := by
  obtain ⟨b, hstep⟩ := step_eq_some_iff.mp hstep
  cases hstep with
  | @command _ r hr =>
    cases c with
    | delete interest name processId keySpace =>
      obtain ⟨repo, hrepo, -⟩ := Option.map_eq_some_iff.mp hr
      exact fun hnone => absurd (hrepo.symm.trans hnone) (Option.some_ne_none repo)
    | deleteManifest interest parameter manifests random newProcessId =>
      change s.node.handleDeleteManifestCommand _ parameter manifests random newProcessId = some r at hr
      unfold DeleteHandle.handleDeleteManifestCommand at hr
      cases hm : manifests.readManifest (parameterHash parameter) with
      | error error => simp [hm] at hr
      | ok found =>
        cases found with
        | some m =>
          simp only [hm] at hr
          obtain ⟨repo, left, hleft, -⟩ := deleteData_eq_some hr
          rw [process_setProcess_self] at hleft
          exact ⟨m, hm, List.ne_nil_of_mem (hleft ▸ List.mem_cons_self)⟩
        | none =>
          -- the command has nothing to wait for, and its entry stays
          simp only [hm, Option.some_inj] at hr
          subst hr
          have hsettled := ht s.commands.length _ List.getElem?_concat_length ?_
          · exact absurd ⟨_, mProcesses_setProcess_self _, rfl⟩ hsettled.cleaned
          · rw [pendingOf_absorb_self]
            exact (List.append_nil _).trans (ofNumber_eq_nil hs.pending)

lemma onCommand_of_succeeds (h : DeleteHandle L) (a : ℕ) (hc : Succeeds (.command c)) :
    ∃ r, (deleteHandle L sha1).onCommand h a c = some r := by
  cases c with
  | delete interest name processId keySpace =>
    obtain ⟨repo, hrepo⟩ := Option.ne_none_iff_exists'.mp hc
    exact ⟨_, Option.map_eq_some_iff.mpr ⟨repo, hrepo, rfl⟩⟩
  | deleteManifest interest parameter manifests random newProcessId =>
    obtain ⟨m, hm, hne⟩ := hc
    obtain ⟨repo, repos, hrepos⟩ := List.exists_cons_of_ne_nil hne
    change ∃ r, h.handleDeleteManifestCommand ⟨a, interest⟩ parameter manifests random newProcessId = some r
    unfold DeleteHandle.handleDeleteManifestCommand DeleteHandle.deleteData
    simp only [hm, process_setProcess_self, hrepos]
    exact ⟨_, rfl⟩

/-! ### Runs of the process -/

section Process

variable {s t : System (DeleteHandle L) (DeleteCommand L sha1) (DeleteInterest L) DeleteAnswer (DeleteOutput L)}
  {p q : DeleteProcess L sha1} {e : Event (DeleteCommand L sha1) (DeleteInterest L) DeleteAnswer}
  {es : List (Event (DeleteCommand L sha1) (DeleteInterest L) DeleteAnswer)}

lemma deleteStep_of_step (h : step (deleteHandle L sha1) s e = some t) :
    deleteStep { system := s } e = some { system := t } := by
  simp [deleteStep, h]

/-- The handlers run, or that of a command throws. -/
lemma deleteStep_cases (h : deleteStep p e = some q) : p.threw = false ∧
    (step (deleteHandle L sha1) p.system e = some q.system ∧ q.threw = false ∨
      ∃ c, e = .command c ∧ step (deleteHandle L sha1) p.system e = none ∧ q.threw = true ∧ q.system =
        { p.system with
          node := p.system.node.entryMade p.system.commands.length c
          commands := p.system.commands ++ [c] }) := by
  simp only [deleteStep, Option.ite_none_left_eq_some, Bool.not_eq_true] at h
  obtain ⟨hthrew, h⟩ := h
  refine ⟨hthrew, ?_⟩
  cases hstep : step (deleteHandle L sha1) p.system e with
  | some t =>
    rw [hstep] at h
    cases h
    exact Or.inl ⟨rfl, rfl⟩
  | none =>
    rw [hstep] at h
    cases e with
    | command c =>
      cases h
      exact Or.inr ⟨c, rfl, rfl, rfl, rfl⟩
    | ends a k d => cases h

/-- Only commands throw: whatever is pending can end in each of its ways. -/
theorem deleteStep_ends {a : ℕ} {k : DeleteInterest L} (hp : p.threw = false) (hk : (a, k) ∈ p.system.pending)
    (d : Option DeleteAnswer) : ∃ q, deleteStep p (.ends a k d) = some q := by
  have hr : ∃ r, (deleteHandle L sha1).onEnd p.system.node k d = some r := by
    cases d with
    | none => exact ⟨_, rfl⟩
    | some answer =>
      cases k with
      | deleteManifest repo hash processId lifetime repoParameter => exact ⟨_, rfl⟩
      | deleteData repo name startBlockId endBlockId newProcessId lifetime repoParameter processId =>
        simp only [deleteHandle, onDeleteDataCommandResponse]
        split_ifs with hcode hrepos
        · exact ⟨_, rfl⟩
        · exact ⟨_, rfl⟩
        · obtain ⟨repo, repos, hcons⟩ := List.exists_cons_of_length_pos (Nat.pos_of_ne_zero hrepos)
          simp only [DeleteHandle.deleteData, process_setProcess_self, hcons]
          exact ⟨_, rfl⟩
  obtain ⟨r, hr⟩ := hr
  have hstep := step_eq_some_iff.mpr ⟨a, .ends (mem_ofNumber.mpr hk) hr⟩
  simp only [deleteStep, hp, hstep, Bool.false_eq_true, if_false]
  exact ⟨_, rfl⟩

/-- As long as nothing has thrown, the handle has run. -/
lemma run_of_not_threw (hrun : run deleteStep p es = some q) (hq : q.threw = false) :
    run (step (deleteHandle L sha1)) p.system es = some q.system := by
  induction es using List.reverseRecOn generalizing q with
  | nil =>
    cases hrun
    rfl
  | append_singleton es e ih =>
    obtain ⟨u, hu, hstep⟩ := run_snoc_eq_some.mp hrun
    obtain ⟨hthrew, ⟨hnext, -⟩ | ⟨c, -, -, hq', -⟩⟩ := deleteStep_cases hstep
    · exact run_snoc_eq_some.mpr ⟨u.system, ih hu hthrew, hnext⟩
    · rw [hq] at hq'
      cases hq'

lemma run_deleteStep (hrun : run (step (deleteHandle L sha1)) s es = some t) :
    run deleteStep { system := s } es = some { system := t } := by
  induction es generalizing s with
  | nil =>
    cases hrun
    rfl
  | cons e es ih =>
    obtain ⟨u, hu, hut⟩ := run_cons_eq_some.mp hrun
    exact run_cons_eq_some.mpr ⟨_, deleteStep_of_step hu, ih hut⟩

lemma meets_deleteStep {C : System (DeleteHandle L) (DeleteCommand L sha1) (DeleteInterest L) DeleteAnswer
      (DeleteOutput L) → Event (DeleteCommand L sha1) (DeleteInterest L) DeleteAnswer → Prop}
    (hrun : run (step (deleteHandle L sha1)) s es = some t) (h : Meets (step (deleteHandle L sha1)) C s es) :
    Meets deleteStep (fun p e => C p.system e) { system := s } es := by
  rw [meets_iff] at h ⊢
  rintro ds e us q rfl hq
  obtain ⟨u, hu, -⟩ := run_append_eq_some.mp hrun
  obtain rfl := Option.some.inj ((run_deleteStep hu).symm.trans hq)
  exact h ds e us u rfl hu

lemma meets_of_deleteStep {C : System (DeleteHandle L) (DeleteCommand L sha1) (DeleteInterest L) DeleteAnswer
      (DeleteOutput L) → Event (DeleteCommand L sha1) (DeleteInterest L) DeleteAnswer → Prop}
    (h : Meets deleteStep (fun p e => C p.system e) { system := s } es) :
    Meets (step (deleteHandle L sha1)) C s es := by
  induction es generalizing s with
  | nil => trivial
  | cons e es ih => exact ⟨h.1, fun t ht => ih (h.2 _ (deleteStep_of_step ht))⟩

/-- A command that throws has nothing to wait for, and is not answered. -/
lemma not_settled_of_threw {c : DeleteCommand L sha1} {node : DeleteHandle L} (hs : Threaded DeleteThread s) :
    ¬ DeletionsSettled { s with node := node, commands := s.commands ++ [c] } := by
  intro h
  have hpending : System.pendingOf { s with node := node, commands := s.commands ++ [c] } s.commands.length = [] :=
    ofNumber_eq_nil hs.pending
  have hthread : System.thread { s with node := node, commands := s.commands ++ [c] } s.commands.length = [] :=
    ofNumber_eq_nil hs.log
  have hanswered := (h _ c List.getElem?_concat_length hpending).answered
  rw [hthread] at hanswered
  cases hanswered

/-- Where every command succeeds nothing throws. -/
lemma not_threw_of_succeeds (hp : p.threw = false) (hrun : run deleteStep p es = some q)
    (hall : ∀ e ∈ es, Succeeds e) : q.threw = false := by
  induction es using List.reverseRecOn generalizing q with
  | nil =>
    cases hrun
    exact hp
  | append_singleton es e ih =>
    obtain ⟨u, hu, hstep⟩ := run_snoc_eq_some.mp hrun
    obtain ⟨-, ⟨-, hq⟩ | ⟨c, rfl, hnone, -, -⟩⟩ := deleteStep_cases hstep
    · exact hq
    · have hc : Succeeds (.command c) := hall _ (by simp)
      obtain ⟨r, hr⟩ := onCommand_of_succeeds u.system.node u.system.commands.length hc
      rw [step_eq_some_iff.mpr ⟨_, .command hr⟩] at hnone
      cases hnone

/-- In a run in which ids are fresh, every command is settled as soon as it has nothing pending if
and only if all goes well. -/
theorem deletions_settled_iff {lifetime : ℕ} (hrun : run deleteStep (deleteStart L sha1 lifetime) es = some p)
    (hfresh : Meets deleteStep (fun p e => ComesApart ApartDeletions p.system e) (deleteStart L sha1 lifetime) es) :
    (∀ ds q, ds <+: es → run deleteStep (deleteStart L sha1 lifetime) ds = some q → DeletionsSettled q.system) ↔
      ∀ e ∈ es, Succeeds e := by
  have hthreads : ∀ ds q, ds <+: es → run deleteStep (deleteStart L sha1 lifetime) ds = some q → q.threw = false →
      Threaded DeleteThread q.system := by
    intro ds q hds hq hthrew
    exact deleteThreads_run (run_of_not_threw hq hthrew) (meets_of_deleteStep (hfresh.of_isPrefix hds))
  constructor
  · intro hall e he
    obtain ⟨ds, us, rfl⟩ := List.append_of_mem he
    obtain ⟨u, hu, hus⟩ := run_append_eq_some.mp hrun
    obtain ⟨v, huv, -⟩ := run_cons_eq_some.mp hus
    have hpre : ds ++ [e] <+: ds ++ e :: us := ⟨us, by simp⟩
    have hv := run_snoc_eq_some.mpr ⟨u, hu, huv⟩
    have hsettled := hall _ v hpre hv
    obtain ⟨hthrew, ⟨hstep, hv'⟩ | ⟨c, rfl, -, -, hsystem⟩⟩ := deleteStep_cases huv
    · cases e with
      | command c => exact succeeds_of_step hstep (hthreads ds u (List.prefix_append _ _) hu hthrew) hsettled
      | ends a k d =>
        have hvthreads := hthreads _ v hpre hv hv'
        have hended := ended_of_ends hstep
        have hc := List.getElem?_eq_getElem (hvthreads.log _ (mem_ofNumber.mp hended))
        by_contra hfail
        obtain ⟨hcalls, hanswers⟩ := (hvthreads.thread a _ hc).not_settled hended hfail
        have hone := (hsettled a _ hc hcalls).answered
        rw [hanswers] at hone
        cases hone
    · rw [hsystem] at hsettled
      exact absurd hsettled (not_settled_of_threw (hthreads ds u (List.prefix_append _ _) hu hthrew))
  · intro hall ds q hpre hq
    have hthrew := not_threw_of_succeeds rfl hq (fun e he => hall e (hpre.subset he))
    have hq' := run_of_not_threw hq hthrew
    intro a c hc hpending
    have hthread := (hthreads ds q hpre hq hthrew).thread a c hc
    rw [hpending] at hthread
    apply hthread.settled
    · have hcommands : q.system.commands = ds.filterMap Event.command? := commands_run hq'
      rw [hcommands] at hc
      obtain ⟨e, he, hec⟩ := List.mem_filterMap.mp (List.mem_of_getElem? hc)
      cases e with
      | command c' =>
        cases hec
        exact hall _ (hpre.subset he)
      | ends _ _ _ => cases hec
    · intro k d hended
      exact hall _ (hpre.subset (ended_run rfl hq' hended))

end Process

end Answers

def deleteFilm : DeleteCommand plainNames archiveDigest := .delete [plainComponent "delete"] [film] 5 exampleKeySpace

def askFilm : DeleteInterest plainNames :=
  .deleteManifest "/a/repo" (archiveDigest "/film") 5 4000 ⟨[film], some 5⟩

/-- Two deletes with one process id and a delete-manifest overlap, and all goes well. -/
def filmSettled : List (Event (DeleteCommand plainNames archiveDigest) (DeleteInterest plainNames) DeleteAnswer) :=
  [.command deleteFilm, .command deleteFilm, .command (deleteFilmManifest 7), .ends 1 askFilm (some ⟨200, 0⟩),
    .ends 2 (deleteFilmData "/a/repo" 0 3 7) (some ⟨200, 11⟩), .ends 0 askFilm (some ⟨404, 0⟩),
    .ends 2 (deleteFilmData "/b/repo" 4 9 7) (some ⟨200, 11⟩)]

theorem film_deletions_settled :
    ∃ p, run deleteStep (deleteStart plainNames archiveDigest 4000) filmSettled = some p ∧
      ∀ ds q, ds <+: filmSettled → run deleteStep (deleteStart plainNames archiveDigest 4000) ds = some q →
        DeletionsSettled q.system := by
  have hends : (run (step (deleteHandle plainNames archiveDigest)) { node := { mInterestLifetime := 4000 } }
      filmSettled).map (fun s => s.pending) = some [] := by decide +kernel
  obtain ⟨s, hrun, -⟩ := Option.map_eq_some_iff.mp hends
  have hcommands : s.commands = [deleteFilm, deleteFilm, deleteFilmManifest 7] := commands_run hrun
  have hdistinct : s.commands.Pairwise ApartDeletions := by
    rw [hcommands]
    simp [deleteFilm, deleteFilmManifest, ApartDeletions, DeleteCommand.processId]
  have hgood : ∀ answer : DeleteAnswer, answer.code ≤ 400 → ¬ Refused (some answer) := by
    intro answer hcode hrefused
    have hlt := hrefused answer rfl
    omega
  have hmeets := meets_deleteStep hrun (meets_fresh hrun hdistinct)
  refine ⟨_, run_deleteStep hrun, (deletions_settled_iff (run_deleteStep hrun) hmeets).mpr ?_⟩
  have hasked : Succeeds (.command deleteFilm) := by
    change exampleKeySpace.getManifestStorage (archiveDigest (deleteText [film])) ≠ none
    decide +kernel
  have hfound : Succeeds (.command (deleteFilmManifest 7)) := by
    change ∃ m, archiveStore.readManifest (parameterHash ⟨filmHashName, some 5⟩) = .ok (some m) ∧ m.mRepos ≠ []
    have hrepos : (archiveStore.readManifest (parameterHash (⟨filmHashName, some 5⟩ : DeleteParameter plainNames))).map
        (fun found => found.map (fun m => decide (m.mRepos ≠ []))) = .ok (some true) := by decide +kernel
    cases hm : archiveStore.readManifest (parameterHash (⟨filmHashName, some 5⟩ : DeleteParameter plainNames)) with
    | error error => simp [hm, Except.map] at hrepos
    | ok found =>
      cases found with
      | none => simp [hm, Except.map] at hrepos
      | some m => exact ⟨m, rfl, by simpa [hm, Except.map] using hrepos⟩
  intro e he
  simp only [filmSettled, List.mem_cons, List.not_mem_nil, or_false] at he
  obtain rfl | rfl | rfl | rfl | rfl | rfl | rfl := he
  · exact hasked
  · exact hasked
  · exact hfound
  · exact Option.some_ne_none _
  · exact hgood _ (by decide)
  · exact Option.some_ne_none _
  · exact hgood _ (by decide)

/-- A delete whose Interest times out, and a delete-manifest of a manifest that is not stored. -/
def filmUnsettled : List (Event (DeleteCommand plainNames archiveDigest) (DeleteInterest plainNames) DeleteAnswer) :=
  [.command deleteFilm, .ends 0 askFilm none,
    .command (.deleteManifest manifestInterest ⟨filmHashName, some 5⟩ .empty 7 11)]

/-- A node that has not got the key space yet. -/
def joiningNode : KeySpaceHandle := KeySpaceHandle.create "/b/repo" "/a/repo" "node" "/a/repo" (0, 0)

/-- The first was not answered through `done` but under the name of its own outgoing Interest. Both leave
their entries. A delete at a node that has not got the key space yet throws with its entry made. -/
theorem film_deletions_unsettled :
    (∃ p, run deleteStep (deleteStart plainNames archiveDigest 4000) filmUnsettled = some p ∧
      p.system.pending = [] ∧
      p.system.thread 0 = [.call askFilm, .ended askFilm none,
        .output (.reply (.outgoing askFilm) (negativeReply 405 "Deletion Failed"))] ∧
      EntryOf p.system.node 5 ⟨0, [plainComponent "delete"]⟩ ∧ EntryOf p.system.node 7 ⟨1, manifestInterest⟩ ∧
      ¬ DeletionsSettled p.system) ∧
    ∃ p, run deleteStep (deleteStart plainNames archiveDigest 4000)
        [.command (.delete [plainComponent "delete"] [film] 5 joiningNode)] = some p ∧
      p.threw = true ∧ p.system.log = [] ∧ EntryOf p.system.node 5 ⟨0, [plainComponent "delete"]⟩ ∧
      ¬ DeletionsSettled p.system := by
  constructor
  · have hview : (run (step (deleteHandle plainNames archiveDigest)) { node := { mInterestLifetime := 4000 } }
        filmUnsettled).map (fun s => decide (s.pending = [] ∧
          s.thread 0 = [.call askFilm, .ended askFilm none,
            .output (.reply (.outgoing askFilm) (negativeReply 405 "Deletion Failed"))] ∧
          (s.node.mProcesses 5).map DeleteHandle.ProcessInfo.interest = some (some ⟨0, [plainComponent "delete"]⟩) ∧
          (s.node.mProcesses 7).map DeleteHandle.ProcessInfo.interest =
            some (some ⟨1, manifestInterest⟩))) = some true := by decide +kernel
    obtain ⟨s, hrun, hs⟩ := Option.map_eq_some_iff.mp hview
    obtain ⟨hpending, hthread, hdelete, hmanifest⟩ := of_decide_eq_true hs
    have hentry := Option.map_eq_some_iff.mp hdelete
    refine ⟨_, run_deleteStep hrun, hpending, hthread, hentry, Option.map_eq_some_iff.mp hmanifest, ?_⟩
    intro hall
    have hcommands := commands_run hrun
    have hc : s.commands[0]? = some deleteFilm := by
      rw [hcommands]
      rfl
    have hcalls : s.pendingOf 0 = [] := by
      unfold System.pendingOf
      rw [hpending]
      rfl
    exact (hall 0 deleteFilm hc hcalls).cleaned hentry
  · have hview : (run deleteStep (deleteStart plainNames archiveDigest 4000)
        [.command (.delete [plainComponent "delete"] [film] 5 joiningNode)]).map (fun p =>
          decide (p.threw = true ∧ p.system.log = [] ∧
            (p.system.node.mProcesses 5).map DeleteHandle.ProcessInfo.interest =
              some (some ⟨0, [plainComponent "delete"]⟩))) = some true := by decide +kernel
    obtain ⟨p, hrun, hp⟩ := Option.map_eq_some_iff.mp hview
    obtain ⟨hthrew, hlog, hentry⟩ := of_decide_eq_true hp
    refine ⟨p, hrun, hthrew, hlog, Option.map_eq_some_iff.mp hentry, ?_⟩
    obtain ⟨q, hq, hqp⟩ := run_cons_eq_some.mp hrun
    cases hqp
    obtain ⟨-, ⟨-, hran⟩ | ⟨c, -, -, -, hsystem⟩⟩ := deleteStep_cases hq
    · rw [hthrew] at hran
      cases hran
    · rw [hsystem]
      exact not_settled_of_threw (threaded_start _)

end Difs
