import Difs.Insert.WriteNode

/-!
# Finding what was inserted

A get asks the node of the manifest, so an object is found only if its manifest was created
there. The single insert builds the manifest when its client announces the object and never
reaches the code 200; the segmented insert reaches it and builds no manifest.
-/

namespace Difs

open EventRun WriteHandle

variable {L : NameLibrary} {sha1 : String → String}

/-- The manifest of a process was built from the announcement of its object. -/
structure BuiltFor (n : WriteNode L sha1) (processId : UInt64) (process : ProcessInfo L) (b : BuiltManifest L) :
    Prop where
  built : b ∈ n.built
  id : b.processId = processId
  object : n.objects processId = some b.object
  manifest : process.manifest = some b.manifest

/-- Every insert with the code 200 has its manifest built and its create sent. -/
def CompletedFindable (n : WriteNode L sha1) : Prop :=
  ∀ processId process, n.handle.mProcesses processId = some process → process.response.code = 200 →
    ∃ b, BuiltFor n processId process b ∧ CreateSent n b

/-- A segment does not make up the number of its insert's range. -/
def NoneCompletes (n : WriteNode L sha1) : WriteEvent L → Prop
  | .segment processId data _ =>
    ∀ process, n.handle.mProcesses processId = some process → ¬ CompletesRange n.store process data
  | _ => True

instance (n : WriteNode L sha1) : DecidablePred (NoneCompletes n)
  | .segment processId data _ =>
    decidable_of_iff (∀ process ∈ n.handle.mProcesses processId, ¬ CompletesRange n.store process data) Iff.rfl
  | .keySpace _ | .insert _ _ | .data _ _ _ _ _ | .timeout _ | .segmentTimeout _ | .check _ _ | .info _
  | .deleteProcess _ => isTrue trivial

section Runs

variable {n t : WriteNode L sha1} {e : WriteEvent L}

/-! ### Codes -/

lemma process_update {processId : UInt64} {v : Option (ProcessInfo L)}
    (h : t.handle.mProcesses = Function.update n.handle.mProcesses processId v) (x : UInt64) :
    t.handle.process x = if x = processId then v.getD {} else n.handle.process x := by
  unfold WriteHandle.process
  rw [h, Function.update_apply]
  split <;> rfl

lemma process_same (h : t.handle.mProcesses = n.handle.mProcesses) (x : UInt64) :
    t.handle.process x = n.handle.process x := by
  unfold WriteHandle.process
  rw [h]

/-- No insert has the code 200. -/
def NoneCompleted (n : WriteNode L sha1) : Prop := ∀ processId, (n.handle.process processId).response.code ≠ 200

lemma NoneCompleted.process {processId : UInt64} {process : ProcessInfo L} (hn : NoneCompleted n)
    (hp : n.handle.mProcesses processId = some process) : process.response.code ≠ 200 := by
  have hcode := hn processId
  rwa [process_eq hp] at hcode

lemma NoneCompleted.findable (hn : NoneCompleted n) : CompletedFindable n :=
  fun _ _ hp hcode => absurd hcode (hn.process hp)

lemma NoneCompleted.update {processId : UInt64} {v : Option (ProcessInfo L)} (hn : NoneCompleted n)
    (hm : t.handle.mProcesses = Function.update n.handle.mProcesses processId v)
    (hv : (v.getD {}).response.code ≠ 200) : NoneCompleted t := by
  intro x
  rw [process_update hm]
  split
  · exact hv
  · exact hn x

/-- Only a segment that makes up the number of its range sets the code 200. -/
lemma NoneCompleted.step (hn : NoneCompleted n) (hc : NoneCompletes n e) (h : writeStep n e = some t) :
    NoneCompleted t := by
  cases writeStep_change h with
  | same records processes =>
    intro x
    rw [process_same processes]
    exact hn x
  | deleted processId records processes => exact hn.update processes (fun hcode => by cases hcode)
  | kept processId process process' records hp keeps processes =>
    exact hn.update processes (fun hcode => hn.process hp (keeps.code hcode))
  | started processId object process' objects built sent started drawn awaits processes =>
    apply hn.update processes
    rw [Option.getD_some, started.code]
    decide
  | announced process process' b objects built sent create hp notSent nowSent response awaits announcement processes =>
    apply hn.update processes
    rw [Option.getD_some, response]
    exact hn.process hp
  | completed processId data now process process' segment records hp completes manifest manifestSent endBlockId
      processes =>
    rw [segment] at hc
    exact absurd completes (hc process hp)

/-! ### Ids that are drawn once -/

/-- A process that awaits or has a manifest inserts no range, and one that is completed does. -/
structure IdApart (n : WriteNode L sha1) (processId : UInt64) (process : ProcessInfo L) : Prop where
  fresh : n.objects processId = none →
    process.response.endBlockId = none ∧ process.manifest = none ∧ processId ∉ n.awaited
  awaits : processId ∈ n.awaited → process.response.endBlockId = none
  built : process.manifest.isSome → process.response.endBlockId = none
  completed : process.response.code = 200 → process.response.endBlockId.isSome

def IdsApart (n : WriteNode L sha1) : Prop := ∀ processId, IdApart n processId (n.handle.process processId)

lemma IdsApart.process {processId : UInt64} {process : ProcessInfo L} (hn : IdsApart n)
    (hp : n.handle.mProcesses processId = some process) : IdApart n processId process := by
  have hold := hn processId
  rwa [process_eq hp] at hold

lemma IdApart.of_same {processId : UInt64} {process process' : ProcessInfo L} (hn : IdApart n processId process)
    (hobjects : t.objects processId = n.objects processId) (hawaited : processId ∈ t.awaited → processId ∈ n.awaited)
    (hmanifest : process'.manifest = process.manifest)
    (hstop : process'.response.endBlockId = process.response.endBlockId)
    (hcode : process'.response.code = 200 → process.response.endBlockId.isSome) : IdApart t processId process' := by
  constructor
  · intro h
    rw [hobjects] at h
    obtain ⟨hend, hm, hnot⟩ := hn.fresh h
    exact ⟨hstop.trans hend, hmanifest.trans hm, fun hx => hnot (hawaited hx)⟩
  · intro h
    exact hstop.trans (hn.awaits (hawaited h))
  · intro h
    rw [hmanifest] at h
    exact hstop.trans (hn.built h)
  · intro h
    rw [hstop]
    exact hcode h

lemma idApart_default {processId : UInt64} (hawaited : n.objects processId = none → processId ∉ n.awaited) :
    IdApart n processId {} :=
  ⟨fun h => ⟨rfl, rfl, hawaited h⟩, fun _ => rfl, fun _ => rfl, fun h => (by cases h)⟩

/-- A step that sets one process leaves the ids of the others apart. -/
lemma idsApart_update {processId : UInt64} {v : Option (ProcessInfo L)} (hn : IdsApart n)
    (hm : t.handle.mProcesses = Function.update n.handle.mProcesses processId v)
    (hobjects : ∀ x, x ≠ processId → t.objects x = n.objects x)
    (hawaited : ∀ x, x ≠ processId → x ∈ t.awaited → x ∈ n.awaited) (hv : IdApart t processId (v.getD {})) :
    IdsApart t := by
  intro x
  rw [process_update hm]
  split
  · rename_i hx
    rw [hx]
    exact hv
  · rename_i hx
    exact (hn x).of_same (hobjects x hx) (hawaited x hx) rfl rfl (hn x).completed

lemma SameRecords.idsApart {processId : UInt64} {v : Option (ProcessInfo L)} (records : SameRecords n t)
    (hn : IdsApart n) (hm : t.handle.mProcesses = Function.update n.handle.mProcesses processId v)
    (hv : IdApart t processId (v.getD {})) : IdsApart t :=
  idsApart_update hn hm (fun x _ => congrFun records.objects x) (fun _ _ hx => records.awaited hx) hv

/-- A process under an id that is drawn for the first time. -/
lemma IdApart.started {processId : UInt64} {object : L.Name} {process process' : ProcessInfo L}
    (hold : IdApart n processId process) (hdrawn : n.objects processId = none)
    (hobjects : t.objects = Function.update n.objects processId (some object)) (hstarted : Started process process')
    (hawaits : processId ∈ t.awaited → processId ∈ n.awaited ∨
      process'.response.endBlockId = process.response.endBlockId) : IdApart t processId process' := by
  obtain ⟨hstop, hmanifest, hnot⟩ := hold.fresh hdrawn
  constructor
  · intro hnone
    rw [hobjects, Function.update_self] at hnone
    cases hnone
  · intro hmem
    obtain hmem | hsame := hawaits hmem
    · exact absurd hmem hnot
    · exact hsame.trans hstop
  · intro hsome
    rw [hstarted.manifest, hmanifest] at hsome
    cases hsome
  · intro hcode
    rw [hstarted.code] at hcode
    cases hcode

/-- A process that is answered with its announcement was started for an object, and has no end. -/
lemma IdApart.announced {processId : UInt64} {process process' : ProcessInfo L} (hold : IdApart n processId process)
    (hmem : processId ∈ n.awaited) (hobjects : t.objects = n.objects)
    (hresponse : process'.response = process.response) : IdApart t processId process' := by
  have hend : process'.response.endBlockId = none := (congrArg _ hresponse).trans (hold.awaits hmem)
  constructor
  · intro hnone
    rw [hobjects] at hnone
    exact absurd hmem (hold.fresh hnone).2.2
  · exact fun _ => hend
  · exact fun _ => hend
  · intro hcode
    rw [hresponse] at hcode ⊢
    exact hold.completed hcode

/-- The announcement that arrives was awaited. -/
lemma awaited_of_announcement {name : L.Name} {nodePrefix : Option (List String)} {lifetime now : ℕ}
    {processId drawn : UInt64} {content : WriteContent} {valid : Bool}
    (h : writeStep n (.data (.object name nodePrefix lifetime processId) content valid drawn now) = some t) :
    processId ∈ n.awaited := by
  unfold writeStep at h
  dsimp only at h
  split at h
  · rename_i hi
    exact List.mem_filterMap.mpr ⟨_, hi, rfl⟩
  · cases h

lemma idsApart_step (hn : IdsApart n) (hc : DrawnOnce n e) (h : writeStep n e = some t) : IdsApart t := by
  cases writeStep_change h with
  | same records processes =>
    intro x
    rw [process_same processes]
    exact (hn x).of_same (congrFun records.objects x) (fun hx => records.awaited hx) rfl rfl (hn x).completed
  | deleted processId records processes =>
    apply records.idsApart hn processes
    apply idApart_default
    intro hobjects hx
    rw [records.objects] at hobjects
    exact ((hn processId).fresh hobjects).2.2 (records.awaited hx)
  | kept processId process process' records hp keeps processes =>
    have hold := hn.process hp
    apply records.idsApart hn processes
    exact hold.of_same (congrFun records.objects processId) (fun hx => records.awaited hx) keeps.manifest
      keeps.endBlockId (fun hcode => hold.completed (keeps.code hcode))
  | started processId object process' objects built sent started drawn awaits processes =>
    refine idsApart_update hn processes ?_ ?_ ?_
    · intro x hx
      rw [objects, Function.update_of_ne hx]
    · intro x hx hmem
      exact (awaits x hmem).resolve_right (fun hnew => hx hnew.1)
    · exact (hn processId).started (drawn hc) objects started (fun hmem => (awaits processId hmem).imp_right And.right)
  | announced process process' b objects built sent create hp notSent nowSent response awaits announcement processes =>
    obtain ⟨name, nodePrefix, lifetime, content, valid, drawn, now, rfl⟩ := announcement
    have hmem := awaited_of_announcement h
    apply idsApart_update hn processes (fun x _ => congrFun objects x) (fun x _ hx => awaits hx)
    exact (hn.process hp).announced hmem objects response
  | completed processId data now process process' segment records hp completes manifest manifestSent endBlockId
      processes =>
    have hold := hn.process hp
    have hstop : process.response.endBlockId.isSome := by
      rw [← endBlockId_countInsert process.response (n.store.insertData data).2]
      exact completes.1
    apply records.idsApart hn processes
    exact hold.of_same (congrFun records.objects processId) (fun hx => records.awaited hx) manifest endBlockId
      (fun _ => hstop)

variable {keySpace : KeySpaceHandle} {settings : WriteHandle L} {store : DataStore L sha1} {es : List (WriteEvent L)}

/-- Where no id is drawn twice no completed insert has a manifest. -/
theorem completed_unfindable (hmeets : Meets writeStep DrawnOnce (writeStart keySpace settings store) es)
    (hrun : run writeStep (writeStart keySpace settings store) es = some t) {processId : UInt64}
    {process : ProcessInfo L} (hp : t.handle.mProcesses processId = some process)
    (hcode : process.response.code = 200) : process.manifest = none := by
  have hstart : IdsApart (writeStart keySpace settings store) := fun x =>
    idApart_default (fun _ hx => absurd hx List.not_mem_nil)
  have ht : IdsApart t := run_invariant (fun _ _ _ hn hc h => idsApart_step hn hc h) hstart hmeets hrun
  have hx := ht.process hp
  by_contra hsome
  have hend := hx.built (Option.isSome_iff_ne_none.mpr hsome)
  have hstop := hx.completed hcode
  rw [hend] at hstop
  cases hstop

/-- In every run in which no id is drawn twice the completed inserts can be found exactly when there are
none: no segment makes up the number of its range. -/
theorem completed_findable_iff (hmeets : Meets writeStep DrawnOnce (writeStart keySpace settings store) es)
    (hrun : run writeStep (writeStart keySpace settings store) es = some t) :
    (∀ ds u, ds <+: es → run writeStep (writeStart keySpace settings store) ds = some u → CompletedFindable u) ↔
      Meets writeStep NoneCompletes (writeStart keySpace settings store) es := by
  constructor
  · intro hall
    rw [meets_iff]
    rintro ds e us n rfl hn
    cases e with
    | segment processId data now =>
      intro process hp hcompletes
      -- the state after the segment has a process with the code 200, and so one without a manifest
      obtain ⟨n', hn', hrest⟩ := run_append_eq_some.mp hrun
      obtain rfl := Option.some.inj (hn.symm.trans hn')
      obtain ⟨u, hstep, -⟩ := run_cons_eq_some.mp hrest
      obtain ⟨-, process', hm, -, hcode⟩ := segment_completes hstep hp hcompletes
      have hp' : u.handle.mProcesses processId = some process' := by rw [hm, Function.update_self]
      have hpre : ds ++ [.segment processId data now] <+: ds ++ .segment processId data now :: us := ⟨us, by simp⟩
      have hu := run_snoc_eq_some.mpr ⟨n, hn, hstep⟩
      obtain ⟨b, hb, -⟩ := hall _ u hpre hu processId process' hp' hcode
      have hnone := completed_unfindable (hmeets.of_isPrefix hpre) hu hp' hcode
      rw [hb.manifest] at hnone
      cases hnone
    | _ => trivial
  · intro hnone ds u hds hu
    have hstart : NoneCompleted (writeStart keySpace settings store) := fun _ hcode => by cases hcode
    have hcompleted : NoneCompleted u :=
      run_invariant (fun _ _ _ hn hc h => hn.step hc h) hstart (hnone.of_isPrefix hds) hu
    exact hcompleted.findable

end Runs

def filmStart : WriteNode plainNames insertDigest := writeStart exampleKeySpace exampleHandle {}

/-- The single insert of the film, up to its first segment, and the first of two segments of a range. -/
def announceFilm : List (WriteEvent plainNames) :=
  let parameter : RepoCommandParameter plainNames := { name := [film] }
  let range : RepoCommandParameter plainNames :=
    { name := [film], hasStartBlockId := true, hasEndBlockId := true, endBlockId := 1 }
  [.insert 0 parameter, .data (.find "/a/repo" (insertDigest "/film") 0 4000 0 parameter) .empty true 7 0,
    .insert 1 range, .data (.object [film] none 4000 7) (.info ⟨"/film", insertDigest "/film", 0⟩) true 0 0,
    .data (.find "/a/repo" (insertDigest "/film") 0 4000 1 range) .empty true 8 0, .segment 7 (frame 0) 0,
    .segment 8 (frame 0) 0]

/-- The code 200 would come with the other segment. -/
theorem film_findable : ∃ t, run writeStep filmStart announceFilm = some t ∧
    WriteInterest.create "/a/repo" (insertDigest "/film") "/a" 4000 7 ∈ t.sent ∧
    (t.handle.process 8).response.insertNum = some 1 ∧
    ∀ ds u, ds <+: announceFilm → run writeStep filmStart ds = some u → CompletedFindable u := by
  have hmeets : Meets writeStep DrawnOnce filmStart announceFilm ∧
      Meets writeStep NoneCompletes filmStart announceFilm := by decide +kernel
  have hview : (run writeStep filmStart announceFilm).map (fun t =>
      decide (WriteInterest.create "/a/repo" (insertDigest "/film") "/a" 4000 7 ∈ t.sent ∧
        (t.handle.process 8).response.insertNum = some 1)) = some true := by decide +kernel
  obtain ⟨t, hrun, ht⟩ := Option.map_eq_some_iff.mp hview
  obtain ⟨hsent, hnum⟩ := of_decide_eq_true ht
  exact ⟨t, hrun, hsent, hnum, (completed_findable_iff hmeets.1 hrun).mpr hmeets.2⟩

/-- The segmented insert of the film with one segment. -/
def insertFilmRange : List (WriteEvent plainNames) :=
  let parameter : RepoCommandParameter plainNames := { name := [film], hasStartBlockId := true, hasEndBlockId := true }
  [.insert 0 parameter, .data (.find "/a/repo" (insertDigest "/film") 0 4000 0 parameter) .empty true 7 0,
    .segment 7 (frame 0) 0]

/-- The insert has the code 200, there is no manifest and no create was sent. -/
theorem film_range_not_findable : ∃ t process, run writeStep filmStart insertFilmRange = some t ∧
    t.handle.mProcesses 7 = some process ∧ process.response.code = 200 ∧ process.manifest = none ∧
    t.sent = [.find "/a/repo" (insertDigest "/film") 0 4000 0
      { name := [film], hasStartBlockId := true, hasEndBlockId := true }] ∧ ¬ CompletedFindable t := by
  have hview : (run writeStep filmStart insertFilmRange).map (fun t =>
      ((t.handle.mProcesses 7).map (fun process => (process.response.code, process.manifest)), t.sent)) =
        some (some (200, none), [.find "/a/repo" (insertDigest "/film") 0 4000 0
          { name := [film], hasStartBlockId := true, hasEndBlockId := true }]) := by decide +kernel
  obtain ⟨t, hrun, ht⟩ := Option.map_eq_some_iff.mp hview
  obtain ⟨hprocess, hsent⟩ := Prod.mk.inj ht
  obtain ⟨process, hp, hcode⟩ := Option.map_eq_some_iff.mp hprocess
  obtain ⟨hcode, hmanifest⟩ := Prod.mk.inj hcode
  refine ⟨t, process, hrun, hp, hcode, hmanifest, hsent, ?_⟩
  intro h
  obtain ⟨b, hb, -⟩ := h 7 process hp hcode
  have hsome := hb.manifest
  rw [hmanifest] at hsome
  cases hsome

end Difs
