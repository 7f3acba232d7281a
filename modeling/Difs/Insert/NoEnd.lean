import Difs.Insert.Segments

/-!
# The timer of an insert without an end

A process without an end runs out of time at its `noEndTime`, which a check moves on. The FinalBlockId
of a segment changes nothing in that.
-/

namespace Difs

open EventRun WriteHandle

variable {L : NameLibrary} {sha1 : String → String}

/-- The handler of the event looks at the clock after the time has run out. -/
def SegmentEvent.Late (noEndTime : ℕ) : SegmentEvent → Prop
  | .segment _ now => noEndTime < now
  | .check now => noEndTime < now
  | _ => False

instance (noEndTime : ℕ) : (e : SegmentEvent) → Decidable (e.Late noEndTime)
  | .segment _ now => Nat.decLt noEndTime now
  | .check now => Nat.decLt noEndTime now
  | .segmentTimeout => .isFalse id
  | .deleteProcess => .isFalse id

/-- A segment with a FinalBlockId has been received; `final` says which segments have one. -/
def FinalReceived (final : UInt64 → Bool) (events : List SegmentEvent) : Prop :=
  ∃ segmentNo now, .segment segmentNo now ∈ events ∧ final segmentNo

def Insertion.withCode (n : Insertion L sha1) (processId : UInt64) (code : ℕ) : Insertion L sha1 :=
  match n.handle.mProcesses processId with
  | none => n
  | some process =>
    { n with
      handle := n.handle.setProcess processId { process with response := { process.response with code := code } } }

/-- The event sets the code of the process: it is `code` afterwards, whatever it was before. -/
def SetsCode (object : UInt64 → Data L) (processId : UInt64) (code : ℕ) (n : Insertion L sha1)
    (e : SegmentEvent) : Prop :=
  ∀ before, ∃ n' process, segmentStep object processId (n.withCode processId before) e = some n' ∧
    n'.handle.mProcesses processId = some process ∧ process.response.code = code

/-- Once a FinalBlockId was received, nothing in the run sets the code to 405. -/
def FinalEndsTimer (object : UInt64 → Data L) (processId : UInt64) (final : UInt64 → Bool) (n : Insertion L sha1)
    (events : List SegmentEvent) : Prop :=
  ∀ done e t, done ++ [e] <+: events → run (segmentStep object processId) n done = some t →
    FinalReceived final done → ¬ SetsCode object processId 405 t e

/-- A check in time moves the deadline on. -/
def nextDeadline (noEndTimeout noEndTime : ℕ) : SegmentEvent → ℕ
  | .check now => if now > noEndTime then noEndTime else now + noEndTimeout
  | _ => noEndTime

def deadline (noEndTimeout start : ℕ) (events : List SegmentEvent) : ℕ :=
  events.foldl (nextDeadline noEndTimeout) (start + noEndTimeout)

/-- Segments and checks after a FinalBlockId come before the deadline, as long as the process is there. -/
def InTimeAfterFinal (final : UInt64 → Bool) (noEndTimeout start : ℕ) (events : List SegmentEvent) : Prop :=
  ∀ done e, done ++ [e] <+: events → FinalReceived final done → .deleteProcess ∉ done →
    ¬ e.Late (deadline noEndTimeout start done)

/-! ### One event -/

section Step

variable {object : UInt64 → Data L} {processId : UInt64} {n n' : Insertion L sha1} {e : SegmentEvent}
  {process : ProcessInfo L}

/-- A process without an end counts the segment, and it has the code 405 when it is late. -/
theorem segmentStep_open (hstep : segmentStep object processId n e = some n')
    (hp : n.handle.mProcesses processId = some process) (hend : process.response.endBlockId = none)
    (hdelete : e ≠ .deleteProcess) : n'.handle.mNoEndTimeout = n.handle.mNoEndTimeout ∧
      ∃ process', n'.handle.mProcesses processId = some process' ∧ process'.response.endBlockId = none ∧
        process'.noEndTime = nextDeadline n.handle.mNoEndTimeout process.noEndTime e ∧
        process'.response.code = if e.Late process.noEndTime then 405 else process.response.code := by
  cases e with
  | segment segmentNo now =>
    have hopen : (process.response.countInsert (n.store.insertData (object segmentNo)).2).endBlockId = none := by
      rw [endBlockId_countInsert, hend]
    have hcode := code_countInsert process.response (n.store.insertData (object segmentNo)).2
    by_cases hlate : process.noEndTime < now
    · rw [if_pos (show (SegmentEvent.segment segmentNo now).Late process.noEndTime from hlate)]
      unfold segmentStep onSegmentData at hstep
      simp only [hp] at hstep
      rw [if_pos (Option.isNone_iff_eq_none.mpr hopen), if_pos hlate] at hstep
      cases hstep
      exact ⟨rfl, _, mProcesses_setProcess _, hopen, rfl, rfl⟩
    · rw [if_neg (show ¬ (SegmentEvent.segment segmentNo now).Late process.noEndTime from hlate)]
      unfold segmentStep onSegmentData at hstep
      simp only [hp] at hstep
      rw [if_pos (Option.isNone_iff_eq_none.mpr hopen), if_neg hlate] at hstep
      cases hstep
      exact ⟨rfl, _, mProcesses_setProcess _, hopen, rfl, hcode⟩
  | segmentTimeout =>
    cases hstep
    exact ⟨rfl, process, hp, hend, rfl, rfl⟩
  | check now =>
    by_cases hlate : process.noEndTime < now
    · rw [if_pos (show (SegmentEvent.check now).Late process.noEndTime from hlate)]
      unfold segmentStep handleCheckCommand extendNoEndTime at hstep
      simp only [hp, gt_iff_lt, if_pos hlate] at hstep
      rw [if_pos (Option.isNone_iff_eq_none.mpr hend)] at hstep
      cases hstep
      exact ⟨rfl, _, mProcesses_setProcess _, hend, (if_pos hlate).symm, rfl⟩
    · rw [if_neg (show ¬ (SegmentEvent.check now).Late process.noEndTime from hlate)]
      unfold segmentStep handleCheckCommand extendNoEndTime at hstep
      simp only [hp, gt_iff_lt, if_neg hlate] at hstep
      rw [if_pos (Option.isNone_iff_eq_none.mpr hend)] at hstep
      cases hstep
      exact ⟨rfl, _, mProcesses_setProcess _, hend, (if_neg hlate).symm, rfl⟩
  | deleteProcess => exact absurd rfl hdelete

/-- A process with an end has no timer. -/
theorem segmentStep_ended (hstep : segmentStep object processId n e = some n')
    (hp : n.handle.mProcesses processId = some process) (hend : process.response.endBlockId.isSome)
    (hdelete : e ≠ .deleteProcess) : ∃ process', n'.handle.mProcesses processId = some process' ∧
      process'.response.endBlockId.isSome ∧
      (process'.response.code = 200 ∨ process'.response.code = process.response.code) := by
  cases e with
  | segment segmentNo now =>
    cases hstep
    have hended : (process.response.countInsert (n.store.insertData (object segmentNo)).2).endBlockId.isSome := by
      rw [endBlockId_countInsert]
      exact hend
    by_cases hc : CompletesRange n.store process (object segmentNo)
    · obtain ⟨process', hm, -, -, hresponse⟩ := onSegmentData_completes now hp hc
      refine ⟨process', ?_, ?_, Or.inl ?_⟩
      · exact (congrFun hm processId).trans (Function.update_self ..)
      · rw [hresponse]
        exact hended
      · rw [hresponse]
    · obtain ⟨process', hm, -, -, hresponse⟩ := onSegmentData_open now hp hc
      have hcounted := hresponse.resolve_right (fun hnone => by simp [hnone.1] at hend)
      refine ⟨process', ?_, ?_, Or.inr ?_⟩
      · exact (congrFun hm processId).trans (Function.update_self ..)
      · rw [hcounted]
        exact hended
      · rw [hcounted, code_countInsert]
  | segmentTimeout =>
    cases hstep
    exact ⟨process, hp, hend, Or.inr rfl⟩
  | check now =>
    unfold segmentStep handleCheckCommand at hstep
    simp only [hp] at hstep
    rw [if_neg (ne_true_of_eq_false (Option.isNone_eq_false_iff.mpr hend))] at hstep
    cases hstep
    exact ⟨process, hp, hend, Or.inr rfl⟩
  | deleteProcess => exact absurd rfl hdelete

/-- Where there is no process, or where it is deleted, none is left. -/
lemma segmentStep_gone (hstep : segmentStep object processId n e = some n')
    (hp : n.handle.mProcesses processId = none ∨ e = .deleteProcess) :
    n'.handle.mNoEndTimeout = n.handle.mNoEndTimeout ∧ n'.handle.mProcesses processId = none := by
  cases e with
  | segment segmentNo now =>
    have hnone := hp.resolve_right nofun
    unfold segmentStep at hstep
    simp only [onSegmentData_none hnone] at hstep
    cases hstep
    exact ⟨rfl, hnone⟩
  | segmentTimeout =>
    cases hstep
    exact ⟨rfl, hp.resolve_right nofun⟩
  | check now =>
    have hnone := hp.resolve_right nofun
    unfold segmentStep handleCheckCommand at hstep
    simp only [hnone] at hstep
    cases hstep
    exact ⟨rfl, hnone⟩
  | deleteProcess =>
    cases hstep
    exact ⟨rfl, Function.update_self _ _ _⟩

lemma exists_segmentStep (object : UInt64 → Data L) (processId : UInt64) (n : Insertion L sha1) (e : SegmentEvent) :
    ∃ n', segmentStep object processId n e = some n' := by
  cases e <;> exact ⟨_, rfl⟩

lemma mProcesses_withCode (hp : n.handle.mProcesses processId = some process) (code : ℕ) :
    (n.withCode processId code).handle.mProcesses processId =
      some { process with response := { process.response with code := code } } := by
  unfold Insertion.withCode
  rw [hp]
  exact mProcesses_setProcess _

lemma withCode_of_none (hp : n.handle.mProcesses processId = none) (code : ℕ) : n.withCode processId code = n := by
  unfold Insertion.withCode
  rw [hp]

/-- Only a late segment or check sets the code to 405, and only where the process has no end. -/
theorem setsCode_iff : SetsCode object processId 405 n e ↔ ∃ process, n.handle.mProcesses processId = some process ∧
    process.response.endBlockId = none ∧ e.Late process.noEndTime := by
  constructor
  · intro h
    obtain ⟨n', process', hstep, hp', hcode⟩ := h 0
    have hleft : ¬ ((n.withCode processId 0).handle.mProcesses processId = none ∨ e = .deleteProcess) := by
      intro hgone
      rw [(segmentStep_gone hstep hgone).2] at hp'
      cases hp'
    obtain ⟨hsome, hdelete⟩ := not_or.mp hleft
    cases hp : n.handle.mProcesses processId with
    | none =>
      rw [withCode_of_none hp] at hsome
      exact absurd hp hsome
    | some process =>
      cases hend : process.response.endBlockId with
      | none =>
        obtain ⟨-, q, hq, -, -, hset⟩ := segmentStep_open hstep (mProcesses_withCode hp 0) hend hdelete
        rw [hq, Option.some_inj] at hp'
        refine ⟨process, rfl, hend, ?_⟩
        by_contra hlate
        rw [← hp', hset, if_neg hlate] at hcode
        cases hcode
      | some endBlockId =>
        have hsome : process.response.endBlockId.isSome := Option.isSome_of_eq_some hend
        obtain ⟨q, hq, -, hset⟩ := segmentStep_ended hstep (mProcesses_withCode hp 0) hsome hdelete
        rw [hq, Option.some_inj] at hp'
        rw [hp', hcode] at hset
        obtain hset | hset := hset <;> cases hset
  · rintro ⟨process, hp, hend, hlate⟩ code
    have hdelete : e ≠ .deleteProcess := by
      rintro rfl
      exact hlate
    obtain ⟨t, hstep⟩ := exists_segmentStep object processId (n.withCode processId code) e
    obtain ⟨-, q, hq, -, -, hset⟩ := segmentStep_open hstep (mProcesses_withCode hp code) hend hdelete
    refine ⟨t, q, hstep, hq, ?_⟩
    rw [hset]
    exact if_pos hlate

end Step

/-! ### A run -/

section Run

variable {object : UInt64 → Data L} {processId : UInt64} {n n' t : Insertion L sha1} {e : SegmentEvent}
  {done events : List SegmentEvent} {noEndTimeout start : ℕ} {h : WriteHandle L} {parameter : RepoCommandParameter L}
  {now : ℕ} {store : DataStore L sha1}

lemma deadline_snoc (noEndTimeout start : ℕ) (done : List SegmentEvent) (e : SegmentEvent) :
    deadline noEndTimeout start (done ++ [e]) = nextDeadline noEndTimeout (deadline noEndTimeout start done) e :=
  List.foldl_concat ..

lemma exists_run (object : UInt64 → Data L) (processId : UInt64) (n : Insertion L sha1) (events : List SegmentEvent) :
    ∃ t, run (segmentStep object processId) n events = some t := by
  induction events generalizing n with
  | nil => exact ⟨n, rfl⟩
  | cons e events ih =>
    obtain ⟨n', hn'⟩ := exists_segmentStep object processId n e
    obtain ⟨t, ht⟩ := ih n'
    exact ⟨t, run_cons_eq_some.mpr ⟨n', hn', ht⟩⟩

/-- The process has the deadline of the events so far, or it is gone. -/
structure Timed (processId : UInt64) (noEndTimeout start : ℕ) (done : List SegmentEvent)
    (n : Insertion L sha1) : Prop where
  mNoEndTimeout : n.handle.mNoEndTimeout = noEndTimeout
  gone : .deleteProcess ∈ done → n.handle.mProcesses processId = none
  timed : .deleteProcess ∉ done → ∃ process, n.handle.mProcesses processId = some process ∧
    process.response.endBlockId = none ∧ process.noEndTime = deadline noEndTimeout start done

lemma Timed.snoc (hn : Timed processId noEndTimeout start done n) (hstep : segmentStep object processId n e = some n') :
    Timed processId noEndTimeout start (done ++ [e]) n' := by
  by_cases hgone : .deleteProcess ∈ done ∨ e = .deleteProcess
  · obtain ⟨htimeout, hnone⟩ := segmentStep_gone hstep (hgone.imp_left hn.gone)
    constructor
    · rw [htimeout, hn.mNoEndTimeout]
    · intro _
      exact hnone
    · intro hdelete
      rw [List.mem_append, List.mem_singleton] at hdelete
      exact absurd (hgone.imp_right Eq.symm) hdelete
  · obtain ⟨hdone, hdelete⟩ := not_or.mp hgone
    obtain ⟨process, hp, hend, htime⟩ := hn.timed hdone
    obtain ⟨htimeout, process', hp', hend', htime', -⟩ := segmentStep_open hstep hp hend hdelete
    constructor
    · rw [htimeout, hn.mNoEndTimeout]
    · intro hmem
      rw [List.mem_append, List.mem_singleton] at hmem
      exact absurd (hmem.imp_right Eq.symm) hgone
    · intro _
      refine ⟨process', hp', hend', ?_⟩
      rw [htime', deadline_snoc, htime, hn.mNoEndTimeout]

lemma timed_run (hn : Timed processId noEndTimeout start [] n)
    (hrun : run (segmentStep object processId) n events = some t) : Timed processId noEndTimeout start events t := by
  have hC : Meets (segmentStep object processId) (fun _ _ => True) n events :=
    meets_iff.mpr (fun _ _ _ _ _ _ => trivial)
  exact run_induction hn (fun _ _ _ _ _ hu _ hstep => hu.snoc hstep) hC hrun

/-- A process that has an end keeps it. -/
def Ended (processId : UInt64) (n : Insertion L sha1) : Prop :=
  ∀ process, n.handle.mProcesses processId = some process → process.response.endBlockId.isSome

lemma Ended.step (hn : Ended processId n) (hstep : segmentStep object processId n e = some n') :
    Ended processId n' := by
  intro process' hp'
  by_cases hgone : n.handle.mProcesses processId = none ∨ e = .deleteProcess
  · rw [(segmentStep_gone hstep hgone).2] at hp'
    cases hp'
  · obtain ⟨hsome, hdelete⟩ := not_or.mp hgone
    obtain ⟨process, hp⟩ := Option.ne_none_iff_exists'.mp hsome
    obtain ⟨q, hq, hended, -⟩ := segmentStep_ended hstep hp (hn process hp) hdelete
    rw [hq, Option.some_inj] at hp'
    rwa [← hp']

/-- An insert without an end keeps the end of a process that its id has already. -/
lemma accepted_noEnd (h : WriteHandle L) (hend : parameter.hasEndBlockId = false) (processId : UInt64) (now : ℕ)
    (store : DataStore L sha1) : ∃ process, (accepted h parameter processId now store).handle.mProcesses processId =
        some process ∧ process.response.endBlockId = (h.process processId).response.endBlockId ∧
      process.noEndTime = now + h.mNoEndTimeout ∧
      (accepted h parameter processId now store).handle.mNoEndTimeout = h.mNoEndTimeout := by
  unfold accepted processSegmentedInsertCommand segInit
  simp only [hend, Bool.false_eq_true, if_false, process_setProcess]
  exact ⟨_, mProcesses_setProcess _, rfl, rfl, rfl⟩

lemma ended_accepted (hend : parameter.hasEndBlockId = false)
    (hsome : (h.process processId).response.endBlockId.isSome) :
    Ended processId (accepted h parameter processId now store) := by
  obtain ⟨process, hp, hkept, -, -⟩ := accepted_noEnd h hend processId now store
  intro q hq
  rw [hp, Option.some_inj] at hq
  rw [← hq, hkept]
  exact hsome

lemma timed_accepted (hend : parameter.hasEndBlockId = false)
    (hnone : (h.process processId).response.endBlockId = none) :
    Timed processId h.mNoEndTimeout now [] (accepted h parameter processId now store) := by
  obtain ⟨process, hp, hkept, htime, htimeout⟩ := accepted_noEnd h hend processId now store
  constructor
  · exact htimeout
  · intro hmem
    exact absurd hmem List.not_mem_nil
  · intro _
    exact ⟨process, hp, hkept.trans hnone, htime⟩

/-- A FinalBlockId ends the timer in a run exactly when nothing comes late after it, or when the id
is that of a process with an end. -/
theorem final_ends_timer_iff (h : WriteHandle L) (hend : parameter.hasEndBlockId = false) (processId : UInt64) (now : ℕ)
    (store : DataStore L sha1) (object : UInt64 → Data L) (final : UInt64 → Bool) (events : List SegmentEvent) :
    FinalEndsTimer object processId final (accepted h parameter processId now store) events ↔
      (h.process processId).response.endBlockId.isSome ∨ InTimeAfterFinal final h.mNoEndTimeout now events := by
  by_cases hsome : (h.process processId).response.endBlockId.isSome
  · refine iff_of_true ?_ (Or.inl hsome)
    intro done e t _ hrun _ hsets
    have hended : Ended processId t :=
      reachable_invariant (fun _ _ _ hu hstep => Ended.step hu hstep) (ended_accepted hend hsome) ⟨done, hrun⟩
    obtain ⟨q, hq, hnone, -⟩ := setsCode_iff.mp hsets
    have hq := hended q hq
    rw [hnone] at hq
    cases hq
  · have hstart : Timed processId h.mNoEndTimeout now [] (accepted h parameter processId now store) :=
      timed_accepted hend (Option.not_isSome_iff_eq_none.mp hsome)
    rw [or_iff_right hsome]
    constructor
    · intro hends done e hprefix hfinal hdelete hlate
      obtain ⟨t, hrun⟩ := exists_run object processId (accepted h parameter processId now store) done
      obtain ⟨q, hq, hnone, hdeadline⟩ := (timed_run hstart hrun).timed hdelete
      apply hends done e t hprefix hrun hfinal
      rw [setsCode_iff]
      refine ⟨q, hq, hnone, ?_⟩
      rw [hdeadline]
      exact hlate
    · intro hin done e t hprefix hrun hfinal hsets
      obtain ⟨q, hq, hnone, hlate⟩ := setsCode_iff.mp hsets
      have htimed := timed_run hstart hrun
      have hdelete : .deleteProcess ∉ done := by
        intro hmem
        rw [htimed.gone hmem] at hq
        cases hq
      obtain ⟨q', hq', -, hdeadline⟩ := htimed.timed hdelete
      rw [hq, Option.some_inj] at hq'
      rw [hq', hdeadline] at hlate
      exact hin done e hprefix hfinal hdelete hlate

end Run

/-- An insert of the frames whose last one is not known. -/
def insertOpenFrames : RepoCommandParameter plainNames := { name := [film], hasStartBlockId := true }

/-- The frame that has a FinalBlockId. -/
def lastFrame (segmentNo : UInt64) : Bool := segmentNo = 1

/-- A check keeps the process in time until the other frame comes. -/
def framesChecked : List SegmentEvent := [.segment 1 5, .check 9000, .segment 0 18000]

theorem frames_in_time : FinalEndsTimer frame 7 lastFrame
    (accepted exampleHandle insertOpenFrames 7 0 ({} : DataStore plainNames frameDigest)) framesChecked := by
  apply (final_ends_timer_iff exampleHandle rfl 7 0 {} frame lastFrame framesChecked).mpr
  right
  intro done e hprefix _ _
  have hinits : ∀ before ∈ framesChecked.inits, ∀ last ∈ before.getLast?,
      ¬ last.Late (deadline 10000 0 before.dropLast) := by
    decide
  have hlast := hinits (done ++ [e]) ((List.mem_inits _ _).mpr hprefix) e List.getLast?_concat
  rwa [List.dropLast_concat] at hlast

/-- The other frame comes after the deadline. -/
theorem frame_out_of_time : ¬ ∀ (h : WriteHandle plainNames) (parameter : RepoCommandParameter plainNames)
    (processId : UInt64) (now : ℕ) (store : DataStore plainNames frameDigest) (object : UInt64 → Data plainNames)
    (final : UInt64 → Bool) (events : List SegmentEvent), parameter.hasEndBlockId = false →
      FinalEndsTimer object processId final (accepted h parameter processId now store) events := by
  intro h
  have hends := h exampleHandle insertOpenFrames 7 0 {} frame lastFrame [.segment 1 5, .segment 0 10001] rfl
  have hlate : ((run (segmentStep frame 7)
      (accepted exampleHandle insertOpenFrames 7 0 ({} : DataStore plainNames frameDigest))
        [.segment 1 5]).bind (fun t => t.handle.mProcesses 7)).any
        (fun process => process.response.endBlockId = none ∧ process.noEndTime < 10001) = true := by
    decide +kernel
  obtain ⟨process, hprocess, hprocess'⟩ := (Option.any_eq_true _ _).mp hlate
  obtain ⟨t, hrun, hp⟩ := Option.bind_eq_some_iff.mp hprocess
  obtain ⟨hnone, htime⟩ := of_decide_eq_true hprocess'
  have hfinal : FinalReceived lastFrame [.segment 1 5] := ⟨1, 5, List.mem_singleton_self _, rfl⟩
  apply hends [.segment 1 5] (.segment 0 10001) t List.prefix_rfl hrun hfinal
  exact setsCode_iff.mpr ⟨process, hp, hnone, htime⟩

end Difs
