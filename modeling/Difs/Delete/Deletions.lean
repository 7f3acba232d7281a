import Difs.Delete.DeleteHandle

/-!
# The threads of deletions

What a command of the delete handle has sent, seen answered and put out, at every point of a run
in which several commands overlap. The process of a delete-manifest under way is apart from those
of all others under way; deletes may share theirs, and then only the entry of the process is at
stake, not the thread.
-/

namespace Difs

open EventRun Threads DeleteHandle

variable {L : NameLibrary} {sha1 : String → String}

abbrev DeleteRecord (L : NameLibrary) := LogRecord (DeleteInterest L) DeleteAnswer (DeleteOutput L)

/-- The Interest that asks a storage to delete its blocks. -/
def dataInterest (parameter : DeleteParameter L) (name : L.Name) (processId : UInt64) (repo : Repo)
    (newProcessId : UInt64) (lifetime : ℕ) : DeleteInterest L :=
  .deleteData repo.name name (UInt64.ofInt repo.start) (UInt64.ofInt repo.stop) newProcessId lifetime parameter
    processId

/-- The records of storages that were asked in turn, each answered with a code of at most 400. -/
inductive Walk (parameter : DeleteParameter L) (name : L.Name) (processId : UInt64) :
    List Repo → List (DeleteRecord L) → Prop where
  | nil : Walk parameter name processId [] []
  | snoc {repos : List Repo} {records : List (DeleteRecord L)} {answer : DeleteAnswer}
      (hw : Walk parameter name processId repos records) (repo : Repo) (newProcessId : UInt64) (lifetime : ℕ)
      (hcode : answer.code ≤ 400) :
    Walk parameter name processId (repos ++ [repo])
      (records ++ [.call (dataInterest parameter name processId repo newProcessId lifetime),
        .ended (dataInterest parameter name processId repo newProcessId lifetime) (some answer)])

lemma Walk.outputs {parameter : DeleteParameter L} {name : L.Name} {processId : UInt64} {repos : List Repo}
    {records : List (DeleteRecord L)} (hw : Walk parameter name processId repos records) :
    records.filterMap LogRecord.output? = [] := by
  induction hw with
  | nil => rfl
  | snoc hw repo newProcessId lifetime hcode ih =>
    rw [List.filterMap_append, ih]
    rfl

/-- The entry of a process holds that Interest. -/
def EntryOf (h : DeleteHandle L) (processId : UInt64) (interest : ReceivedInterest L) : Prop :=
  ∃ process, h.mProcesses processId = some process ∧ process.interest = some interest

/-- The Interest of a delete for the node of the manifest. -/
def AsksManifest (sha1 : String → String) (name : L.Name) (processId : UInt64) (keySpace : KeySpaceHandle)
    (k : DeleteInterest L) : Prop :=
  ∃ repo lifetime, keySpace.getManifestStorage (sha1 (deleteText name)) = some repo ∧
    k = .deleteManifest repo (sha1 (deleteText name)) processId lifetime ⟨name, some processId⟩

/-- A delete has asked, was answered, or was not. -/
inductive AskThread (sha1 : String → String) (h : DeleteHandle L) (me : ReceivedInterest L) (name : L.Name)
    (processId : UInt64) (keySpace : KeySpaceHandle) : List (DeleteInterest L) → List (DeleteRecord L) → Prop where
  | asked {k : DeleteInterest L} (hk : AsksManifest sha1 name processId keySpace k) :
    AskThread sha1 h me name processId keySpace [k] [.call k]
  | answered {k : DeleteInterest L} (hk : AsksManifest sha1 name processId keySpace k) (answer : DeleteAnswer)
      (response : DeleteResponse) (hp : ¬ EntryOf h processId me) :
    AskThread sha1 h me name processId keySpace []
      [.call k, .ended k (some answer), .output (.done response)]
  | unanswered {k : DeleteInterest L} (hk : AsksManifest sha1 name processId keySpace k) (response : DeleteResponse) :
    AskThread sha1 h me name processId keySpace []
      [.call k, .ended k none, .output (.reply (.outgoing k) response)]

/-- A delete-manifest finds no manifest, or walks through the storages until all were asked, one
refused or one did not answer. -/
inductive WalkThread (h : DeleteHandle L) (me : ReceivedInterest L) (parameter : DeleteParameter L)
    (manifests : ManifestStore sha1) (random : UInt64) : List (DeleteInterest L) → List (DeleteRecord L) → Prop where
  | notFound (response : DeleteResponse) (hm : manifests.readManifest (parameterHash parameter) = .ok none) :
    WalkThread h me parameter manifests random [] [.output (.reply (.received (some me)) response)]
  | walking {m : Manifest} {repos rest : List Repo} {walk : List (DeleteRecord L)} {repo : Repo} {k : DeleteInterest L}
      {newProcessId : UInt64} {lifetime : ℕ} (hm : manifests.readManifest (parameterHash parameter) = .ok (some m))
      (hrepos : m.mRepos = repos ++ repo :: rest) (hw : Walk parameter (L.ofUri m.mName) random repos walk)
      (hk : k = dataInterest parameter (L.ofUri m.mName) random repo newProcessId lifetime)
      (hp : h.mProcesses random = some ⟨some me, rest, L.ofUri m.mName, parameterHash parameter⟩) :
    WalkThread h me parameter manifests random [k] (walk ++ [.call k])
  | deleted {m : Manifest} {walk : List (DeleteRecord L)} (response : DeleteResponse)
      (hm : manifests.readManifest (parameterHash parameter) = .ok (some m))
      (hw : Walk parameter (L.ofUri m.mName) random m.mRepos walk) (hp : ¬ EntryOf h random me) :
    WalkThread h me parameter manifests random [] (walk ++ [.output (.reply (.received (some me)) response),
      .output (.deleteManifest (parameterHash parameter))])
  | refused {m : Manifest} {repos : List Repo} {walk : List (DeleteRecord L)} {repo : Repo} {k : DeleteInterest L}
      {newProcessId : UInt64} {lifetime : ℕ} {answer : DeleteAnswer} (response : DeleteResponse)
      (hm : manifests.readManifest (parameterHash parameter) = .ok (some m))
      (hw : Walk parameter (L.ofUri m.mName) random repos walk)
      (hk : k = dataInterest parameter (L.ofUri m.mName) random repo newProcessId lifetime)
      (hcode : 400 < answer.code) :
    WalkThread h me parameter manifests random [] (walk ++ [.call k, .ended k (some answer),
      .output (.reply (.outgoing k) response)])
  | unanswered {m : Manifest} {repos : List Repo} {walk : List (DeleteRecord L)} {repo : Repo} {k : DeleteInterest L}
      {newProcessId : UInt64} {lifetime : ℕ} (response : DeleteResponse)
      (hm : manifests.readManifest (parameterHash parameter) = .ok (some m))
      (hw : Walk parameter (L.ofUri m.mName) random repos walk)
      (hk : k = dataInterest parameter (L.ofUri m.mName) random repo newProcessId lifetime) :
    WalkThread h me parameter manifests random [] (walk ++ [.call k, .ended k none,
      .output (.reply (.outgoing k) response)])

def DeleteThread (h : DeleteHandle L) (a : ℕ) (c : DeleteCommand L sha1) (calls : List (DeleteInterest L))
    (records : List (DeleteRecord L)) : Prop :=
  match c with
  | .delete interest name processId keySpace =>
    AskThread sha1 h ⟨a, interest⟩ name processId keySpace calls records
  | .deleteManifest interest parameter manifests random _ =>
    WalkThread h ⟨a, interest⟩ parameter manifests random calls records

/-- The key of a command in the process map. -/
def DeleteCommand.processId : DeleteCommand L sha1 → UInt64
  | .delete _ _ processId _ => processId
  | .deleteManifest _ _ _ random _ => random

/-- Two deletes may have one process id; a random id is no other's. -/
def ApartDeletions : DeleteCommand L sha1 → DeleteCommand L sha1 → Prop
  | .delete _ _ _ _, .delete _ _ _ _ => True
  | c, c' => c.processId ≠ c'.processId

/-! ### What a handler does to the processes -/

/-- A handler of command `b` touches one process, and brings in no Interest but that of `b`. -/
structure Touches (h : DeleteHandle L) (b : ℕ) (processId : UInt64) (t : DeleteHandle L) : Prop where
  other : ∀ q, q ≠ processId → t.mProcesses q = h.mProcesses q
  entry : ∀ i, EntryOf t processId i → i.number = b ∨ EntryOf h processId i

section Touches

variable {h t u : DeleteHandle L} {b : ℕ} {processId : UInt64} {i : ReceivedInterest L} {r : DeleteReaction L}

lemma Touches.trans (h1 : Touches h b processId t) (h2 : Touches t b processId u) : Touches h b processId u where
  other q hq := (h2.other q hq).trans (h1.other q hq)
  entry i hi := by
    obtain hb | hi := h2.entry i hi
    · exact Or.inl hb
    · exact h1.entry i hi

lemma entryOf_process (hi : (h.process processId).interest = some i) : EntryOf h processId i := by
  unfold DeleteHandle.process at hi
  cases hp : h.mProcesses processId with
  | none => simp [hp] at hi
  | some process =>
    rw [hp, Option.getD_some] at hi
    exact ⟨process, hp, hi⟩

lemma mProcesses_setProcess_self (process : DeleteHandle.ProcessInfo L) :
    (h.setProcess processId process).mProcesses processId = some process := Function.update_self ..

lemma process_setProcess_self (process : DeleteHandle.ProcessInfo L) :
    (h.setProcess processId process).process processId = process := by
  unfold DeleteHandle.process
  rw [mProcesses_setProcess_self, Option.getD_some]

lemma touches_setProcess {process : DeleteHandle.ProcessInfo L}
    (hp : ∀ i, process.interest = some i → i.number = b ∨ EntryOf h processId i) :
    Touches h b processId (h.setProcess processId process) where
  other q hq := Function.update_of_ne hq ..
  entry i hi := by
    obtain ⟨process', hp', hi⟩ := hi
    rw [mProcesses_setProcess_self, Option.some_inj] at hp'
    exact hp i (hp' ▸ hi)

lemma touches_eraseProcess : Touches h b processId (h.eraseProcess processId) where
  other q hq := Function.update_of_ne hq ..
  entry i hi := by
    obtain ⟨process, hp, -⟩ := hi
    have hnone : (h.eraseProcess processId).mProcesses processId = none := Function.update_self ..
    rw [hnone] at hp
    cases hp

lemma not_entryOf_eraseProcess : ¬ EntryOf (h.eraseProcess processId) processId i := by
  rintro ⟨process, hp, -⟩
  have hnone : (h.eraseProcess processId).mProcesses processId = none := Function.update_self ..
  rw [hnone] at hp
  cases hp

lemma touches_process : Touches h b processId (h.setProcess processId (h.process processId)) :=
  touches_setProcess (fun _ hi => Or.inr (entryOf_process hi))

/-- The front of the storages left is asked, and dropped from the process. -/
lemma deleteData_eq_some {parameter : DeleteParameter L} {newProcessId : UInt64}
    (hr : h.deleteData parameter processId newProcessId = some r) :
    ∃ repo repos, (h.process processId).repos = repo :: repos ∧
      r = { node := h.setProcess processId { h.process processId with repos := repos }
            calls := [dataInterest parameter (h.process processId).name processId repo newProcessId
              h.mInterestLifetime] } := by
  unfold DeleteHandle.deleteData at hr
  cases hrepos : (h.process processId).repos with
  | nil => simp [hrepos] at hr
  | cons repo repos =>
    simp only [hrepos, Option.some_inj] at hr
    exact ⟨repo, repos, rfl, hr.symm⟩

lemma touches_deleteData {parameter : DeleteParameter L} {newProcessId : UInt64}
    (hr : h.deleteData parameter processId newProcessId = some r) : Touches h b processId r.node := by
  obtain ⟨repo, repos, -, rfl⟩ := deleteData_eq_some hr
  exact touches_setProcess (fun i hi => Or.inr (entryOf_process hi))

lemma touches_onCommand {c : DeleteCommand L sha1} (hr : (deleteHandle L sha1).onCommand h b c = some r) :
    Touches h b c.processId r.node := by
  cases c with
  | delete interest name processId keySpace =>
    obtain ⟨repo, -, rfl⟩ := Option.map_eq_some_iff.mp hr
    apply touches_setProcess
    intro i hi
    cases hi
    exact Or.inl rfl
  | deleteManifest interest parameter manifests random newProcessId =>
    change h.handleDeleteManifestCommand ⟨b, interest⟩ parameter manifests random newProcessId = some r at hr
    unfold DeleteHandle.handleDeleteManifestCommand at hr
    have hme : ∀ process : DeleteHandle.ProcessInfo L, process.interest = some ⟨b, interest⟩ →
        Touches h b random (h.setProcess random process) := by
      intro process hprocess
      apply touches_setProcess
      intro i hi
      rw [hprocess] at hi
      cases hi
      exact Or.inl rfl
    cases hm : manifests.readManifest (parameterHash parameter) with
    | error _ => simp [hm] at hr
    | ok found =>
      cases found with
      | none =>
        simp only [hm, Option.some_inj] at hr
        subst hr
        apply hme
        rfl
      | some m =>
        simp only [hm] at hr
        refine (hme _ ?_).trans (touches_deleteData hr)
        rfl

lemma touches_onEnd {k : DeleteInterest L} {d : Option DeleteAnswer} (hr : (deleteHandle L sha1).onEnd h k d = some r) :
    Touches h b k.processId r.node := by
  cases d with
  | none =>
    cases hr
    exact touches_process
  | some answer =>
    cases k with
    | deleteManifest repo hash processId lifetime parameter =>
      cases hr
      exact touches_eraseProcess
    | deleteData repo name startBlockId endBlockId newProcessId lifetime parameter processId =>
      simp only [deleteHandle, DeleteHandle.onDeleteDataCommandResponse] at hr
      split_ifs at hr
      · cases hr
        exact touches_process
      · cases hr
        exact touches_process.trans touches_eraseProcess
      · exact touches_process.trans (touches_deleteData hr)

end Touches

/-! ### The threads are kept -/

section Threads

variable {h t : DeleteHandle L} {a b : ℕ} {c c' : DeleteCommand L sha1} {calls : List (DeleteInterest L)}
  {records : List (DeleteRecord L)} {r : DeleteReaction L} {k : DeleteInterest L} {d : Option DeleteAnswer}
  {me : ReceivedInterest L} {parameter : DeleteParameter L} {manifests : ManifestStore sha1} {random : UInt64}

lemma ApartDeletions.symm (hap : ApartDeletions c c') : ApartDeletions c' c := by
  cases c with
  | delete _ _ _ _ =>
    cases c' with
    | delete _ _ _ _ => trivial
    | deleteManifest _ _ _ _ _ => exact Ne.symm hap
  | deleteManifest _ _ _ _ _ =>
    cases c' with
    | delete _ _ _ _ => exact Ne.symm hap
    | deleteManifest _ _ _ _ _ => exact Ne.symm hap

lemma EntryOf.congr {processId : UInt64} (hsame : t.mProcesses processId = h.mProcesses processId) :
    EntryOf t processId me ↔ EntryOf h processId me := by
  unfold EntryOf
  rw [hsame]

/-- An Interest that is not in the entry of its process does not come back. -/
lemma not_entryOf_frame {processId q : UInt64} (hp : ¬ EntryOf h processId me) (htouch : Touches h b q t)
    (hb : me.number ≠ b) : ¬ EntryOf t processId me := by
  intro hentry
  by_cases hq : processId = q
  · subst hq
    obtain hnumber | hold := htouch.entry _ hentry
    · exact hb hnumber
    · exact hp hold
  · exact hp ((EntryOf.congr (htouch.other _ hq)).mp hentry)

/-- What another command does to its process does not disturb a thread. -/
lemma DeleteThread.frame (ht : DeleteThread h a c calls records) (htouch : Touches h b c'.processId t) (hab : a ≠ b)
    (hap : calls ≠ [] → ApartDeletions c c') : DeleteThread t a c calls records := by
  cases c with
  | delete interest name processId keySpace =>
    cases ht with
    | asked hk => exact .asked hk
    | unanswered hk response => exact .unanswered hk response
    | answered hk answer response hp => exact .answered hk answer response (not_entryOf_frame hp htouch hab)
  | deleteManifest interest parameter manifests random newProcessId =>
    cases ht with
    | notFound response hm => exact .notFound response hm
    | deleted response hm hw hp => exact .deleted response hm hw (not_entryOf_frame hp htouch hab)
    | refused response hm hw hk hcode => exact .refused response hm hw hk hcode
    | unanswered response hm hw hk => exact .unanswered response hm hw hk
    | walking hm hrepos hw hk hp =>
      have hne : random ≠ c'.processId := by
        have hap := hap (List.cons_ne_nil _ _)
        cases c' with
        | delete _ _ _ _ => exact hap
        | deleteManifest _ _ _ _ _ => exact hap
      exact .walking hm hrepos hw hk ((htouch.other random hne).trans hp)

/-- The callbacks of a command are bound to its process. -/
lemma DeleteThread.processId_of_mem (ht : DeleteThread h a c calls records) (hk : k ∈ calls) :
    k.processId = c.processId := by
  cases c with
  | delete interest name processId keySpace =>
    cases ht with
    | asked hasks =>
      obtain ⟨repo, lifetime, -, rfl⟩ := hasks
      cases List.mem_singleton.mp hk
      rfl
    | _ => cases hk
  | deleteManifest interest parameter manifests random newProcessId =>
    cases ht with
    | walking _ _ _ hdata _ =>
      cases List.mem_singleton.mp hk
      rw [hdata]
      rfl
    | _ => cases hk

/-- The Interest that `deleteData` sends continues the walk. -/
lemma walkThread_deleteData {m : Manifest} {repos rest : List Repo} {walk : List (DeleteRecord L)}
    {newProcessId : UInt64} (hm : manifests.readManifest (parameterHash parameter) = .ok (some m))
    (hrepos : m.mRepos = repos ++ rest) (hw : Walk parameter (L.ofUri m.mName) random repos walk)
    (hp : h.process random = ⟨some me, rest, L.ofUri m.mName, parameterHash parameter⟩)
    (hr : h.deleteData parameter random newProcessId = some r) :
    WalkThread r.node me parameter manifests random r.calls (walk ++ r.records) := by
  obtain ⟨repo, left, hleft, rfl⟩ := deleteData_eq_some hr
  rw [hp] at hleft
  cases hleft
  apply WalkThread.walking hm hrepos hw
  · rw [hp]
  · rw [mProcesses_setProcess_self, hp]

lemma deleteThread_onCommand (hr : (deleteHandle L sha1).onCommand h a c = some r) :
    DeleteThread r.node a c r.calls r.records := by
  cases c with
  | delete interest name processId keySpace =>
    obtain ⟨repo, hrepo, rfl⟩ := Option.map_eq_some_iff.mp hr
    exact .asked ⟨repo, _, hrepo, rfl⟩
  | deleteManifest interest parameter manifests random newProcessId =>
    change h.handleDeleteManifestCommand ⟨a, interest⟩ parameter manifests random newProcessId = some r at hr
    unfold DeleteHandle.handleDeleteManifestCommand at hr
    cases hm : manifests.readManifest (parameterHash parameter) with
    | error _ => simp [hm] at hr
    | ok found =>
      cases found with
      | none =>
        simp only [hm, Option.some_inj] at hr
        subst hr
        exact .notFound _ hm
      | some m =>
        simp only [hm] at hr
        exact walkThread_deleteData hm (List.nil_append _).symm .nil (process_setProcess_self _) hr

lemma askThread_onEnd {name : L.Name} {processId : UInt64} {keySpace : KeySpaceHandle}
    (hk : AsksManifest sha1 name processId keySpace k) (hr : (deleteHandle L sha1).onEnd h k d = some r) :
    AskThread sha1 r.node me name processId keySpace r.calls (.call k :: .ended k d :: r.records) := by
  obtain ⟨repo, lifetime, hrepo, rfl⟩ := hk
  cases d with
  | none =>
    cases hr
    exact .unanswered ⟨repo, lifetime, hrepo, rfl⟩ _
  | some answer =>
    cases hr
    exact .answered ⟨repo, lifetime, hrepo, rfl⟩ answer _ not_entryOf_eraseProcess

/-- The end of a delete-data: no answer, a refusal, the last storage or one before. -/
lemma walkThread_onEnd {m : Manifest} {repos rest : List Repo} {walk : List (DeleteRecord L)} {repo : Repo}
    {newProcessId : UInt64} {lifetime : ℕ} (hm : manifests.readManifest (parameterHash parameter) = .ok (some m))
    (hrepos : m.mRepos = repos ++ repo :: rest) (hw : Walk parameter (L.ofUri m.mName) random repos walk)
    (hk : k = dataInterest parameter (L.ofUri m.mName) random repo newProcessId lifetime)
    (hp : h.mProcesses random = some ⟨some me, rest, L.ofUri m.mName, parameterHash parameter⟩)
    (hr : (deleteHandle L sha1).onEnd h k d = some r) :
    WalkThread r.node me parameter manifests random r.calls (walk ++ (.call k :: .ended k d :: r.records)) := by
  have hprocess : h.process random = ⟨some me, rest, L.ofUri m.mName, parameterHash parameter⟩ := by
    unfold DeleteHandle.process
    rw [hp, Option.getD_some]
  cases d with
  | none =>
    subst hk
    cases hr
    exact .unanswered _ hm hw rfl
  | some answer =>
    have hend : h.onDeleteDataCommandResponse k answer parameter random = some r := by
      rw [← hr, hk]
      rfl
    unfold DeleteHandle.onDeleteDataCommandResponse at hend
    simp only [hprocess] at hend
    split_ifs at hend with hcode hrest
    · cases hend
      exact .refused _ hm hw hk hcode
    · rw [List.length_eq_zero_iff] at hrest
      subst hrest
      cases hend
      have hall := hw.snoc repo newProcessId lifetime (not_lt.mp hcode)
      rw [← hrepos] at hall
      have hdeleted : WalkThread ((h.setProcess random ⟨some me, [], L.ofUri m.mName,
          parameterHash parameter⟩).eraseProcess random) me parameter manifests random [] _ :=
        .deleted (positiveReply parameter 200 1) hm hall not_entryOf_eraseProcess
      rw [List.append_assoc, ← hk] at hdeleted
      exact hdeleted
    · have hall := hw.snoc repo newProcessId lifetime (not_lt.mp hcode)
      have hnext := walkThread_deleteData hm (by rw [hrepos, List.append_assoc]; rfl) hall
        (process_setProcess_self _) hend
      rw [List.append_assoc, ← hk] at hnext
      exact hnext

lemma keeps_deleteThread :
    Keeps (deleteHandle L sha1) (fun c calls c' => calls ≠ [] → ApartDeletions c c') DeleteThread where
  command _ _ _ _ hr := deleteThread_onCommand hr
  ends h a c calls records k d r ht hk hr := by
    cases c with
    | delete interest name processId keySpace =>
      cases ht with
      | asked hasks =>
        cases List.mem_singleton.mp hk
        rw [List.erase_cons_head]
        exact askThread_onEnd hasks hr
      | _ => cases hk
    | deleteManifest interest parameter manifests random newProcessId =>
      cases ht with
      | walking hm hrepos hw hdata hp =>
        cases List.mem_singleton.mp hk
        rw [List.erase_cons_head, List.append_assoc]
        exact walkThread_onEnd hm hrepos hw hdata hp hr
      | _ => cases hk
  frameCommand _ _ _ _ _ _ _ _ hab hap ht hr := ht.frame (touches_onCommand hr) hab.ne hap
  frameEnds _ _ _ _ _ b _ _ _ _ _ _ hab hap ht ht' hk hr := by
    have htouch := touches_onEnd (b := b) hr
    rw [ht'.processId_of_mem hk] at htouch
    exact ht.frame htouch hab hap

/-- However many commands overlap, each has its own thread. -/
theorem deleteThreads_run {node : DeleteHandle L}
    {es : List (Event (DeleteCommand L sha1) (DeleteInterest L) DeleteAnswer)}
    {s : System (DeleteHandle L) (DeleteCommand L sha1) (DeleteInterest L) DeleteAnswer (DeleteOutput L)}
    (hrun : run (step (deleteHandle L sha1)) { node := node } es = some s)
    (hfresh : Meets (step (deleteHandle L sha1)) (ComesApart ApartDeletions) { node := node } es) :
    Threaded DeleteThread s :=
  Threaded.run_fresh keeps_deleteThread (fun _ _ => ApartDeletions.symm) hrun hfresh

end Threads

end Difs
