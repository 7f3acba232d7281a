import Difs.Delete.BlockRange
import Difs.Delete.ManifestLast
import Difs.Lib.Federation

/-!
# Deletions in a cluster

The delete handles of the nodes call each other: a delete asks the node of the manifest with a
delete-manifest, and that node asks the storages with delete-datas. A client that is told 200 has
its object deleted at all of these nodes, and nothing is deleted but what clients asked for.
-/

namespace Difs

open EventRun Threads CountedLoop DeleteHandle Federation

/-- What the delete handle of a node reads and changes. The manifest directory is `manifests`. -/
structure DeleteStore (L : NameLibrary) (sha1 : String → String) where
  keySpace : KeySpaceHandle
  manifests : ManifestStore sha1
  datas : FsStorage L sha1 := {}

/-- The name of the signed Interest that arrives, random ids, and how long a loop over blocks goes on. -/
structure DeleteDrawn (L : NameLibrary) where
  interest : L.Name := []
  random : UInt64 := 0
  newProcessId : UInt64 := 0
  fuel : ℕ := 0

structure DeleteInput (L : NameLibrary) where
  interest : L.Name
  name : L.Name
  processId : UInt64

def DeleteInterest.destination {L : NameLibrary} : DeleteInterest L → String
  | .deleteManifest repo _ _ _ _ => repo
  | .deleteData repo _ _ _ _ _ _ _ => repo

section Service

variable (L : NameLibrary) (sha1 : String → String)

/-- The Interests as they arrive. A delete-data is answered at once with the code of its response. -/
def DeleteStore.onCall (store : DeleteStore L sha1) (d : DeleteDrawn L) :
    DeleteInterest L → Option (DeleteCommand L sha1 ⊕ DeleteStore L sha1 × ℕ)
  | .deleteManifest _ hash processId _ _ =>
    some (.inl (.deleteManifest d.interest ⟨L.ofUri hash, some processId⟩ store.manifests d.random d.newProcessId))
  | .deleteData _ name startBlockId endBlockId newProcessId _ _ _ =>
    (handleDeleteDataCommand deleteStored d.fuel store.datas
      { name := name, processId := some newProcessId, startBlockId := some startBlockId
        endBlockId := some endBlockId }).map
      (fun outcome => .inr ({ store with datas := outcome.store }, outcome.response.code))

def deleteService : Service String (DeleteHandle L) (DeleteCommand L sha1) (DeleteInterest L) DeleteAnswer
    (DeleteOutput L) (DeleteStore L sha1) ℕ (DeleteDrawn L) (DeleteInput L) where
  handlers := deleteHandle L sha1
  dest := DeleteInterest.destination
  onInput store c := .delete c.interest c.name c.processId store.keySpace
  onCall store k d := store.onCall L sha1 d k
  answer code d := ⟨code, d.newProcessId⟩
  effect store
    | .deleteManifest hash => { store with manifests := store.manifests.eraseManifest hash }
    | _ => store
  reply?
    | .reply (.received (some interest)) response => some (interest.number, response.code)
    | _ => none

end Service

abbrev DeleteNet (L : NameLibrary) (sha1 : String → String) :=
  Net String (DeleteHandle L) (DeleteCommand L sha1) (DeleteInterest L) DeleteAnswer (DeleteOutput L)
    (DeleteStore L sha1) ℕ

abbrev DeleteEvent (L : NameLibrary) := Federation.Event String (DeleteInterest L) ℕ (DeleteDrawn L) (DeleteInput L)

/-- No command has arrived yet. -/
def deletionsStart {L : NameLibrary} {sha1 : String → String} (lifetime : String → ℕ)
    (store : String → DeleteStore L sha1) : DeleteNet L sha1 where
  system x := { node := { mInterestLifetime := lifetime x } }
  store := store

variable {L : NameLibrary} {sha1 : String → String}

/-! ### Blocks -/

section Blocks

variable {s : FsStorage L sha1} {p : DeleteDataParameter L} {start stop : UInt64} {fuel : ℕ}
  {outcome : DeleteDataOutcome (FsStorage L sha1)}

/-- A range that is refused leaves the store, any other leaves nothing under the names of its blocks. -/
lemma handled_cases (hstart : p.startBlockId = some start) (hstop : p.endBlockId = some stop)
    (h : handleDeleteDataCommand deleteStored fuel s p = some outcome) :
    (outcome.store = s ∧ outcome.response.code = 403) ∨
      ∀ path, outcome.store.file path =
        if ∃ i, start ≤ i ∧ i ≤ stop ∧ path = blockPath sha1 p.name i then none else s.file path := by
  by_cases hle : start ≤ stop
  · refine Or.inr (fun path => ?_)
    rw [outcome_of_handled hstart hstop hle h]
    have hfile : (afterRange deleteStored s p.name start stop).store.file path =
        if ∃ i ∈ upTo start stop, path = blockPath sha1 p.name i then none else s.file path := foldl_file
    change (afterRange deleteStored s p.name start stop).store.file path = _
    rw [hfile]
    simp only [mem_upTo, and_assoc]
  · refine Or.inl ?_
    unfold handleDeleteDataCommand at h
    simp only [hstart, hstop] at h
    rw [if_pos (UInt64.not_le.mp hle)] at h
    cases h
    exact ⟨rfl, rfl⟩

end Blocks

/-! ### What the stores keep -/

/-- Deletions take away, and change no key space. -/
structure Shrunk (s₀ s : DeleteStore L sha1) : Prop where
  keySpace : s.keySpace = s₀.keySpace
  manifests : ∀ key json, s.manifests.files.lookup key = some json → s₀.manifests.files.lookup key = some json
  datas : ∀ path d, s.datas.file path = some d → s₀.datas.file path = some d

/-- What a good answer to a delete-data says of the store it came from. -/
def RangeGone : DeleteInterest L → ℕ → DeleteStore L sha1 → Prop
  | .deleteManifest _ _ _ _ _, _, _ => False
  | .deleteData _ name startBlockId endBlockId _ _ _ _, code, s =>
    code ≤ 400 → ∀ i, startBlockId ≤ i → i ≤ endBlockId → s.datas.file (blockPath sha1 name i) = none

def ManifestGone : DeleteOutput L → DeleteStore L sha1 → Prop
  | .deleteManifest hash, s => s.manifests.files.lookup hash = none
  | _, _ => True

section Keeping

variable {s₀ s t : DeleteStore L sha1} {k : DeleteInterest L} {code : ℕ} {o : DeleteOutput L}

lemma RangeGone.of_shrunk (h : RangeGone k code s) (hst : Shrunk s t) : RangeGone k code t := by
  cases k with
  | deleteManifest repo hash processId lifetime repoParameter => exact h
  | deleteData repo name startBlockId endBlockId newProcessId lifetime repoParameter processId =>
    intro hcode i hstart hstop
    have hgone := h hcode i hstart hstop
    by_contra hfile
    obtain ⟨d, hd⟩ := Option.ne_none_iff_exists'.mp hfile
    rw [hst.datas _ d hd] at hgone
    cases hgone

lemma ManifestGone.of_shrunk (h : ManifestGone o s) (hst : Shrunk s t) : ManifestGone o t := by
  cases o with
  | deleteManifest hash =>
    by_contra hfile
    obtain ⟨json, hjson⟩ := Option.ne_none_iff_exists'.mp hfile
    have hgone : s.manifests.files.lookup hash = none := h
    rw [hst.manifests hash json hjson] at hgone
    cases hgone
  | done response => trivial
  | reply interest response => trivial

lemma Shrunk.trans (hs : Shrunk s₀ s) (ht : Shrunk s t) : Shrunk s₀ t where
  keySpace := ht.keySpace.trans hs.keySpace
  manifests key json h := hs.manifests key json (ht.manifests key json h)
  datas path d h := hs.datas path d (ht.datas path d h)

lemma shrunk_effect : Shrunk s ((deleteService L sha1).effect s o) := by
  cases o with
  | deleteManifest hash =>
    refine ⟨rfl, ?_, fun _ _ h => h⟩
    intro key json h
    change (s.manifests.eraseManifest hash).files.lookup key = some json at h
    rw [ManifestStore.lookup_eraseManifest] at h
    split_ifs at h
    exact h
  | done response => exact ⟨rfl, fun _ _ h => h, fun _ _ h => h⟩
  | reply interest response => exact ⟨rfl, fun _ _ h => h, fun _ _ h => h⟩

lemma manifestGone_effect : ManifestGone o ((deleteService L sha1).effect s o) := by
  cases o with
  | deleteManifest hash =>
    change (s.manifests.eraseManifest hash).files.lookup hash = none
    rw [ManifestStore.lookup_eraseManifest, if_pos rfl]
  | done response => trivial
  | reply interest response => trivial

/-- A delete-data is what is served at once. -/
lemma served_eq {d : DeleteDrawn L} (h : (deleteService L sha1).onCall s k d = some (.inr (t, code))) :
    ∃ repo name startBlockId endBlockId newProcessId lifetime repoParameter processId,
      k = .deleteData repo name startBlockId endBlockId newProcessId lifetime repoParameter processId ∧
      t.keySpace = s.keySpace ∧ t.manifests = s.manifests ∧ (code = 403 ∧ t.datas = s.datas ∨
        ∀ path, t.datas.file path = if ∃ i, startBlockId ≤ i ∧ i ≤ endBlockId ∧ path = blockPath sha1 name i
          then none else s.datas.file path) := by
  cases k with
  | deleteManifest repo hash processId lifetime repoParameter => cases h
  | deleteData repo name startBlockId endBlockId newProcessId lifetime repoParameter processId =>
    obtain ⟨outcome, houtcome, heq⟩ := Option.map_eq_some_iff.mp h
    cases heq
    refine ⟨_, _, _, _, _, _, _, _, rfl, rfl, rfl, ?_⟩
    obtain ⟨hstore, hcode⟩ | hfile := handled_cases rfl rfl houtcome
    · exact Or.inl ⟨hcode, hstore⟩
    · exact Or.inr hfile

lemma shrunk_served {d : DeleteDrawn L} (h : (deleteService L sha1).onCall s k d = some (.inr (t, code))) :
    Shrunk s t ∧ RangeGone k code t := by
  obtain ⟨repo, name, startBlockId, endBlockId, newProcessId, lifetime, repoParameter, processId, rfl, hkeySpace,
    hmanifests, ⟨hcode, hdatas⟩ | hfile⟩ := served_eq h
  · refine ⟨⟨hkeySpace, fun _ _ h => hmanifests ▸ h, fun _ _ h => hdatas ▸ h⟩, ?_⟩
    intro hle
    omega
  · refine ⟨⟨hkeySpace, fun _ _ h => hmanifests ▸ h, ?_⟩, ?_⟩
    · intro path d hd
      rw [hfile] at hd
      split_ifs at hd
      exact hd
    · intro _ i hstart hstop
      rw [hfile, if_pos ⟨i, hstart, hstop, rfl⟩]

lemma keeping (store : String → DeleteStore L sha1) :
    Keeping (deleteService L sha1) (fun y s => Shrunk (store y) s) RangeGone ManifestGone where
  serve s k d t code h hs := by
    obtain ⟨hst, hgone⟩ := shrunk_served h
    exact ⟨hs.trans hst, hgone, fun _ _ hg => hg.of_shrunk hst, fun _ hg => hg.of_shrunk hst⟩
  effect y s o hs := ⟨hs.trans shrunk_effect, manifestGone_effect, fun _ _ hg => hg.of_shrunk shrunk_effect,
    fun _ hg => hg.of_shrunk shrunk_effect⟩

end Keeping

/-! ### What an answer of 200 comes with -/

/-- What is put out with the end of a call, or without one, vouches for a code of 200. -/
structure Vouches (d : Option DeleteAnswer) (outputs : List (DeleteOutput L)) : Prop where
  done : ∀ response, .done response ∈ outputs → response.code = 200 → ∃ answer, d = some answer ∧ answer.code = 200
  reply : ∀ i response, .reply (.received i) response ∈ outputs → response.code = 200 →
    ∃ hash, .deleteManifest hash ∈ outputs

/-- The same of a thread. -/
structure Vouched (records : List (DeleteRecord L)) : Prop where
  done : ∀ response, .output (.done response) ∈ records → response.code = 200 →
    ∃ k answer, .ended k (some answer) ∈ records ∧ answer.code = 200
  reply : ∀ i response, .output (.reply (.received i) response) ∈ records → response.code = 200 →
    ∃ hash, .output (.deleteManifest hash) ∈ records

section Vouching

variable {h : DeleteHandle L} {a : ℕ} {c : DeleteCommand L sha1} {r : DeleteReaction L} {k : DeleteInterest L}
  {d : Option DeleteAnswer} {records : List (DeleteRecord L)} {o : DeleteOutput L}

lemma vouches_nil : Vouches d ([] : List (DeleteOutput L)) where
  done response hm := by cases hm
  reply i response hm := by cases hm

lemma output_deleteData {parameter : DeleteParameter L} {processId newProcessId : UInt64}
    (hr : h.deleteData parameter processId newProcessId = some r) : r.output = [] := by
  obtain ⟨repo, repos, -, rfl⟩ := deleteData_eq_some hr
  rfl

lemma vouches_onCommand (hr : (deleteHandle L sha1).onCommand h a c = some r) : Vouches none r.output := by
  cases c with
  | delete interest name processId keySpace =>
    obtain ⟨repo, -, rfl⟩ := Option.map_eq_some_iff.mp hr
    exact vouches_nil
  | deleteManifest interest parameter manifests random newProcessId =>
    change h.handleDeleteManifestCommand ⟨a, interest⟩ parameter manifests random newProcessId = some r at hr
    unfold DeleteHandle.handleDeleteManifestCommand at hr
    cases hm : manifests.readManifest (parameterHash parameter) with
    | error _ => simp [hm] at hr
    | ok found =>
      cases found with
      | none =>
        simp only [hm, Option.some_inj] at hr
        subst hr
        constructor
        · intro response hm
          simp at hm
        · intro i response hm hcode
          rw [List.mem_singleton] at hm
          cases hm
          cases hcode
      | some m =>
        simp only [hm] at hr
        rw [output_deleteData hr]
        exact vouches_nil

lemma vouches_onEnd (hr : (deleteHandle L sha1).onEnd h k d = some r) : Vouches d r.output := by
  cases d with
  | none =>
    cases hr
    constructor
    · intro response hm
      simp [DeleteHandle.onTimeout] at hm
    · intro i response hm
      simp [DeleteHandle.onTimeout] at hm
  | some answer =>
    cases k with
    | deleteManifest repo hash processId lifetime parameter =>
      cases hr
      constructor
      · intro response hm hcode
        refine ⟨answer, rfl, ?_⟩
        by_contra hne
        rw [DeleteHandle.onDeleteManifestCommandResponse, if_neg hne, List.mem_singleton] at hm
        cases hm
        cases hcode
      · intro i response hm
        simp [DeleteHandle.onDeleteManifestCommandResponse] at hm
    | deleteData repo name startBlockId endBlockId newProcessId lifetime parameter processId =>
      simp only [deleteHandle, DeleteHandle.onDeleteDataCommandResponse] at hr
      split_ifs at hr
      · cases hr
        constructor
        · intro response hm
          simp at hm
        · intro i response hm
          simp at hm
      · cases hr
        constructor
        · intro response hm
          simp at hm
        · intro i response _ _
          exact ⟨_, List.mem_cons_of_mem _ (List.mem_singleton_self _)⟩
      · rw [output_deleteData hr]
        exact vouches_nil

lemma output_mem_records : (.output o : DeleteRecord L) ∈ r.records ↔ o ∈ r.output := by
  simp [Reaction.records]

/-- What a handler puts out is vouched for in the thread. -/
lemma Vouched.append (hold : Vouched records) (hv : Vouches d r.output) :
    Vouched (records ++ (.ended k d :: r.records)) where
  done response hm hcode := by
    obtain hm | hm := List.mem_append.mp hm
    · obtain ⟨k, answer, hended, hanswer⟩ := hold.done response hm hcode
      exact ⟨k, answer, List.mem_append_left _ hended, hanswer⟩
    · obtain hm | hm := List.mem_cons.mp hm
      · cases hm
      · obtain ⟨answer, rfl, hanswer⟩ := hv.done response (output_mem_records.mp hm) hcode
        exact ⟨k, answer, List.mem_append_right _ List.mem_cons_self, hanswer⟩
  reply i response hm hcode := by
    obtain hm | hm := List.mem_append.mp hm
    · obtain ⟨hash, hhash⟩ := hold.reply i response hm hcode
      exact ⟨hash, List.mem_append_left _ hhash⟩
    · obtain hm | hm := List.mem_cons.mp hm
      · cases hm
      · obtain ⟨hash, hhash⟩ := hv.reply i response (output_mem_records.mp hm) hcode
        exact ⟨hash, List.mem_append_right _ (List.mem_cons_of_mem _ (output_mem_records.mpr hhash))⟩

lemma keeps_vouched : Keeps (deleteHandle L sha1) (fun c _ c' => ApartDeletions c c')
    (fun _ _ _ _ records => Vouched records) where
  command h a c r hr := by
    have hv := vouches_onCommand hr
    constructor
    · intro response hm hcode
      obtain ⟨answer, hnone, -⟩ := hv.done response (output_mem_records.mp hm) hcode
      cases hnone
    · intro i response hm hcode
      obtain ⟨hash, hhash⟩ := hv.reply i response (output_mem_records.mp hm) hcode
      exact ⟨hash, output_mem_records.mpr hhash⟩
  ends _ _ _ _ _ _ _ _ hold _ hr := hold.append (vouches_onEnd hr)
  frameCommand _ _ _ _ _ _ _ _ _ _ hold _ := hold
  frameEnds _ _ _ _ _ _ _ _ _ _ _ _ _ _ hold _ _ _ := hold

end Vouching

/-! ### What a command asks for -/

/-- A delete asks the node of the manifest, a delete-manifest the storages that it lists. -/
def DeleteCommand.Asks : DeleteCommand L sha1 → DeleteInterest L → Prop
  | .delete _ name processId keySpace, k => AsksManifest sha1 name processId keySpace k
  | .deleteManifest _ parameter manifests random _, k =>
    ∃ m repo newProcessId lifetime, manifests.readManifest (parameterHash parameter) = .ok (some m) ∧ repo ∈ m.mRepos ∧
      k = dataInterest parameter (L.ofUri m.mName) random repo newProcessId lifetime

def AsksOnly (h : DeleteHandle L) (a : ℕ) (c : DeleteCommand L sha1) (calls : List (DeleteInterest L))
    (records : List (DeleteRecord L)) : Prop :=
  DeleteThread h a c calls records ∧ ∀ k, .call k ∈ records → c.Asks k

section Asks

variable {h : DeleteHandle L} {a : ℕ} {c : DeleteCommand L sha1} {calls : List (DeleteInterest L)}
  {records : List (DeleteRecord L)} {k : DeleteInterest L} {r : DeleteReaction L}

lemma DeleteThread.asks (ht : DeleteThread h a c calls records) (hk : k ∈ calls) : c.Asks k := by
  cases c with
  | delete interest name processId keySpace =>
    cases ht with
    | asked hasks =>
      cases List.mem_singleton.mp hk
      exact hasks
    | _ => cases hk
  | deleteManifest interest parameter manifests random newProcessId =>
    cases ht with
    | walking hm hrepos hw hdata hp =>
      cases List.mem_singleton.mp hk
      refine ⟨_, _, _, _, hm, ?_, hdata⟩
      rw [hrepos]
      exact List.mem_append_right _ List.mem_cons_self
    | _ => cases hk

lemma call_mem_records : (.call k : DeleteRecord L) ∈ r.records ↔ k ∈ r.calls := by
  simp [Reaction.records]

lemma keeps_asksOnly :
    Keeps (deleteHandle L sha1) (fun c calls c' => calls ≠ [] → ApartDeletions c c') AsksOnly where
  command h a c r hr := by
    have ht := keeps_deleteThread.command h a c r hr
    exact ⟨ht, fun k hk => ht.asks (call_mem_records.mp hk)⟩
  ends h a c calls records k d r ht hk hr := by
    have hnext := keeps_deleteThread.ends h a c calls records k d r ht.1 hk hr
    refine ⟨hnext, ?_⟩
    intro k' hm
    obtain hm | hm := List.mem_append.mp hm
    · exact ht.2 k' hm
    · obtain hm | hm := List.mem_cons.mp hm
      · cases hm
      · exact hnext.asks (List.mem_append_right _ (call_mem_records.mp hm))
  frameCommand h a c calls records b c' r hab hap ht hr :=
    ⟨keeps_deleteThread.frameCommand h a c calls records b c' r hab hap ht.1 hr, ht.2⟩
  frameEnds h a c calls records b c' calls' records' k d r hab hap ht ht' hk hr :=
    ⟨keeps_deleteThread.frameEnds h a c calls records b c' calls' records' k d r hab hap ht.1 ht'.1 hk hr, ht.2⟩

end Asks

/-! ### Objects that are gone -/

/-- The manifest that a node had for a hash, and all the blocks it lists. -/
def ObjectGone (store : String → DeleteStore L sha1) (t : DeleteNet L sha1) (y hash : String) : Prop :=
  ∃ m, (store y).manifests.readManifest hash = .ok (some m) ∧ ¬ (t.store y).manifests.hasManifest hash ∧
    ∀ repo ∈ m.mRepos, ∀ i, UInt64.ofInt repo.start ≤ i → i ≤ UInt64.ofInt repo.stop →
      ¬ (t.store repo.name).datas.has (L.appendSegment (L.ofUri m.mName) i)

/-- What is known of a net that has run. -/
structure DeletionsInv (store : String → DeleteStore L sha1) (t : DeleteNet L sha1) : Prop where
  threads : ∀ x, Threaded AsksOnly (t.system x)
  vouched : ∀ x, Threaded (fun _ _ _ _ records => Vouched records) (t.system x)
  accounted : Accounted (deleteService L sha1) (fun y s => Shrunk (store y) s) RangeGone ManifestGone t

section Gone

variable {store : String → DeleteStore L sha1} {lifetime : String → ℕ} {t : DeleteNet L sha1}
  {es : List (DeleteEvent L)} {x y hash : String} {a : ℕ} {k : DeleteInterest L} {name : L.Name}
  {parameter : DeleteParameter L} {random : UInt64}
  {repos : List Repo} {walk : List (DeleteRecord L)} {repo : Repo}

theorem deletionsInv_of_run
    (hrun : run (Federation.step (deleteService L sha1)) (deletionsStart lifetime store) es = some t)
    (hdistinct : ∀ x, (t.system x).commands.Pairwise ApartDeletions) : DeletionsInv store t where
  threads := by
    have hk : Keeps (deleteService L sha1).handlers (fun c calls c' => calls ≠ [] → ApartDeletions c c') AsksOnly :=
      keeps_asksOnly
    exact threaded_run hk (fun _ _ _ hap _ => hap) (fun _ _ => ApartDeletions.symm) (fun _ => threaded_start _) hrun
      hdistinct
  vouched := threaded_run keeps_vouched (fun _ _ _ hap => hap) (fun _ _ => ApartDeletions.symm)
    (fun _ => threaded_start _) hrun hdistinct
  accounted := accounted_run (keeping store) (fun _ => ⟨rfl, fun _ _ h => h, fun _ _ h => h⟩) hrun

lemma Walk.ended_of_mem (hw : Walk parameter name random repos walk) (hrepo : repo ∈ repos) :
    ∃ newProcessId lifetime answer,
      .ended (dataInterest parameter name random repo newProcessId lifetime) (some answer) ∈ walk ∧
        answer.code ≤ 400 := by
  induction hw with
  | nil => cases hrepo
  | @snoc repos records answer hw last newProcessId lifetime hcode ih =>
    obtain hrepo | hrepo := List.mem_append.mp hrepo
    · obtain ⟨newProcessId, lifetime, answer, hended, hcode⟩ := ih hrepo
      exact ⟨newProcessId, lifetime, answer, List.mem_append_left _ hended, hcode⟩
    · cases List.mem_singleton.mp hrepo
      refine ⟨newProcessId, lifetime, answer, List.mem_append_right _ ?_, hcode⟩
      exact List.mem_cons_of_mem _ (List.mem_singleton_self _)

/-- The thread that has deleted a manifest has walked through its storages, and answers its own command. -/
lemma DeleteThread.deleted_of_output {h : DeleteHandle L} {c : DeleteCommand L sha1} {calls : List (DeleteInterest L)}
    {records : List (DeleteRecord L)} (ht : DeleteThread h a c calls records)
    (hm : .output (.deleteManifest hash) ∈ records) :
    ∃ interest parameter manifests random newProcessId m walk,
      c = .deleteManifest interest parameter manifests random newProcessId ∧ hash = parameterHash parameter ∧
        manifests.readManifest hash = .ok (some m) ∧ Walk parameter (L.ofUri m.mName) random m.mRepos walk ∧
          (∀ record ∈ walk, record ∈ records) ∧
            ∀ i response, .output (.reply (.received (some i)) response) ∈ records → i.number = a := by
  cases c with
  | delete interest name processId keySpace => exact (ht.deletedLast hm).elim
  | deleteManifest interest parameter manifests random newProcessId =>
    cases ht with
    | notFound _ _ => simp at hm
    | walking _ _ hw _ _ => simp [hw.output_not_mem] at hm
    | refused _ _ hw _ _ => simp [hw.output_not_mem] at hm
    | unanswered _ _ hw _ => simp [hw.output_not_mem] at hm
    | @deleted m walk response' hread hw _ =>
      have hhash : hash = parameterHash parameter := by simpa [hw.output_not_mem] using hm
      refine ⟨interest, parameter, manifests, random, newProcessId, m, walk, rfl, hhash, hhash ▸ hread, hw, ?_, ?_⟩
      · intro record hrecord
        exact List.mem_append_left _ hrecord
      · intro i response hreply
        have hown : i = ⟨a, interest⟩ ∧ response = response' := by simpa [hw.output_not_mem] using hreply
        rw [hown.1]

namespace DeletionsInv

lemma record_lt (ht : DeletionsInv store t) {record : DeleteRecord L} (hm : record ∈ (t.system x).thread a) :
    ∃ c, (t.system x).commands[a]? = some c := by
  have hlt := (ht.threads x).log _ (mem_ofNumber.mp hm)
  exact ⟨_, List.getElem?_eq_getElem hlt⟩

/-- A storage that gave a good answer has none of the blocks. -/
lemma blocks_gone (ht : DeletionsInv store t) {newProcessId : UInt64} {interestLifetime : ℕ} {answer : DeleteAnswer}
    (hended : .ended (dataInterest parameter name random repo newProcessId interestLifetime) (some answer) ∈
      (t.system x).thread a) (hcode : answer.code ≤ 400) {i : UInt64} (hstart : UInt64.ofInt repo.start ≤ i)
    (hstop : i ≤ UInt64.ofInt repo.stop) : ¬ (t.store repo.name).datas.has (L.appendSegment name i) := by
  obtain ⟨code, drawn, hanswer, rfl⟩ := ht.accounted.ended x a _ _ hended
  obtain ⟨-, hgone | ⟨b, a', out, hb, -⟩⟩ := ht.accounted.answer _ code hanswer
  · have hnone : (t.store repo.name).datas.file (blockPath sha1 name i) = none := hgone hcode i hstart hstop
    change ¬ ((t.store repo.name).datas.file (blockPath sha1 name i)).isSome
    rw [hnone]
    exact Bool.false_ne_true
  · obtain ⟨-, -, s, drawn', c, -, hcall, -⟩ := ht.accounted.caller _ b _ hb
    obtain ⟨outcome, -, heq⟩ := Option.map_eq_some_iff.mp hcall
    cases heq

/-- A delete-manifest that was answered with 200 has deleted the object. -/
lemma object_gone (ht : DeletionsInv store t) (hkeys : ∀ text, substr (L.uri (L.ofUri (sha1 text))) 1 = sha1 text)
    {text : String} {processId : UInt64} {interestLifetime : ℕ} {repoParameter : DeleteParameter L}
    (hk : k = .deleteManifest y (sha1 text) processId interestLifetime repoParameter)
    (hanswer : (⟨x, a, k⟩, 200) ∈ t.answers) : ObjectGone store t y (sha1 text) := by
  obtain ⟨-, hgone | ⟨b, a', out, hb, hout, hreply⟩⟩ := ht.accounted.answer _ 200 hanswer
  · subst hk
    exact hgone.elim
  · obtain ⟨i, response, rfl, rfl, hcode⟩ : ∃ i response, out = .reply (.received (some i)) response ∧ i.number = b ∧
        response.code = 200 := by
      cases out with
      | done response => cases hreply
      | deleteManifest hash => cases hreply
      | reply interest response =>
        cases interest with
        | outgoing interest => cases hreply
        | received interest =>
          cases interest with
          | none => cases hreply
          | some i =>
            obtain ⟨hb, hcode⟩ := Prod.mk.inj (Option.some.inj hreply)
            exact ⟨i, response, rfl, hb, hcode⟩
    subst hk
    change _ ∈ (t.system y).thread a' at hout
    change (t.callers y)[i.number]? = _ at hb
    obtain ⟨c', hc'⟩ := ht.record_lt hout
    obtain ⟨hash', hdeleted⟩ := ((ht.vouched y).thread a' c' hc').reply _ _ hout hcode
    obtain ⟨interest, parameter, manifests, random, newProcessId, m, walk, rfl, hhash, hread, hw, hwalk, hnumber⟩ :=
      ((ht.threads y).thread a' c' hc').1.deleted_of_output hdeleted
    obtain ⟨-, -, s, drawn, c, hshrunk, hcall, hc⟩ := ht.accounted.caller _ _ _ hb
    rw [hnumber i response hout, hc', Option.some_inj] at hc
    subst hc
    cases hcall
    have hkey : hash' = sha1 text := hhash.trans (hkeys text)
    rw [hkey] at hread hdeleted
    refine ⟨m, ?_, ?_, ?_⟩
    · obtain ⟨json, hjson, hm⟩ := ManifestStore.readManifest_eq_ok_some.mp hread
      exact ManifestStore.readManifest_eq_ok_some.mpr ⟨json, hshrunk.manifests _ _ hjson, hm⟩
    · have hnone : (t.store y).manifests.files.lookup (sha1 text) = none := ht.accounted.output y a' _ hdeleted
      unfold ManifestStore.hasManifest
      rw [hnone]
      exact Bool.false_ne_true
    · intro repo hrepo j hstart hstop
      obtain ⟨newProcessId, lifetime, answer, hended, hcode⟩ := hw.ended_of_mem hrepo
      exact ht.blocks_gone (hwalk _ hended) hcode hstart hstop

end DeletionsInv

/-- The command of a client is a delete with the key space of its node. -/
lemma DeletionsInv.delete_eq (ht : DeletionsInv store t) {interest name : L.Name} {processId : UInt64}
    {keySpace : KeySpaceHandle} (hc : (t.system x).commands[a]? = some (.delete interest name processId keySpace)) :
    keySpace = (store x).keySpace := by
  have hlt := (List.getElem?_eq_some_iff.mp hc).1
  rw [← ht.accounted.length] at hlt
  have horigin := List.getElem?_eq_getElem hlt
  cases ho : (t.callers x)[a] with
  | none =>
    rw [ho] at horigin
    obtain ⟨s, i, hs, hi⟩ := ht.accounted.input x a horigin
    rw [hc, Option.some_inj] at hi
    cases hi
    exact hs.keySpace
  | some o =>
    rw [ho] at horigin
    obtain ⟨-, -, s, drawn, c, -, hcall, hi⟩ := ht.accounted.caller x a o horigin
    rw [hc, Option.some_inj] at hi
    subst hi
    cases hk : o.call with
    | deleteManifest repo hash processId lifetime repoParameter =>
      rw [hk] at hcall
      cases hcall
    | deleteData repo name startBlockId endBlockId newProcessId lifetime repoParameter processId =>
      rw [hk] at hcall
      obtain ⟨outcome, -, heq⟩ := Option.map_eq_some_iff.mp hcall
      cases heq

/-- Where a client's delete was answered with 200, the node that its key space names has the manifest
no more, and no storage that the manifest listed has a block of it. -/
theorem deleted_objects_gone (hkeys : ∀ text, substr (L.uri (L.ofUri (sha1 text))) 1 = sha1 text)
    (hrun : run (Federation.step (deleteService L sha1)) (deletionsStart lifetime store) es = some t)
    (hdistinct : ∀ x, (t.system x).commands.Pairwise ApartDeletions) {interest : L.Name} {processId : UInt64}
    {keySpace : KeySpaceHandle} {response : DeleteResponse}
    (hc : (t.system x).commands[a]? = some (.delete interest name processId keySpace))
    (hdone : .output (.done response) ∈ (t.system x).thread a) (hcode : response.code = 200) :
    ∃ y, (store x).keySpace.getManifestStorage (sha1 (deleteText name)) = some y ∧
      ObjectGone store t y (sha1 (deleteText name)) := by
  have ht := deletionsInv_of_run hrun hdistinct
  obtain ⟨k, answer, hended, hanswer⟩ := ((ht.vouched x).thread a _ hc).done response hdone hcode
  have hthread : AskThread sha1 (t.system x).node ⟨a, interest⟩ name processId keySpace ((t.system x).pendingOf a)
    ((t.system x).thread a) := ((ht.threads x).thread a _ hc).1
  obtain ⟨code, drawn, hin, rfl⟩ := ht.accounted.ended x a k _ hended
  have hcode' : code = 200 := hanswer
  subst hcode'
  have hasks : AsksManifest sha1 name processId keySpace k := by
    generalize (t.system x).pendingOf a = calls at hthread
    generalize (t.system x).thread a = records at hthread hended hdone
    cases hthread with
    | asked hk => simp at hdone
    | unanswered hk response => simp at hdone
    | answered hk answer response hp =>
      simp only [List.mem_cons, List.not_mem_nil, or_false, reduceCtorEq, LogRecord.ended.injEq, false_or] at hended
      rw [hended.1]
      exact hk
  obtain ⟨y, interestLifetime, hstorage, hk⟩ := hasks
  rw [ht.delete_eq hc] at hstorage
  exact ⟨y, hstorage, ht.object_gone hkeys hk hin⟩

/-- A client has asked some node to delete the object with that hash, which is routed to `y` there. -/
def Commanded (store : String → DeleteStore L sha1) (t : DeleteNet L sha1) (y hash : String) : Prop :=
  ∃ (x : String) (a : ℕ) (interest name : L.Name) (processId : UInt64) (keySpace : KeySpaceHandle),
    (t.system x).commands[a]? = some (.delete interest name processId keySpace) ∧ sha1 (deleteText name) = hash ∧
      (store x).keySpace.getManifestStorage hash = some y

namespace DeletionsInv

/-- A delete-manifest goes back to the delete of a client, and read a manifest that its node had from the start. -/
lemma commanded (ht : DeletionsInv store t) (hkeys : ∀ text, substr (L.uri (L.ofUri (sha1 text))) 1 = sha1 text)
    {interest : L.Name} {manifests : ManifestStore sha1} {newProcessId : UInt64}
    (hc : (t.system y).commands[a]? = some (.deleteManifest interest parameter manifests random newProcessId)) :
    Commanded store t y (parameterHash parameter) ∧
      ∀ key m, manifests.readManifest key = .ok (some m) → (store y).manifests.readManifest key = .ok (some m) := by
  have hlt := (List.getElem?_eq_some_iff.mp hc).1
  rw [← ht.accounted.length] at hlt
  have horigin := List.getElem?_eq_getElem hlt
  cases ho : (t.callers y)[a] with
  | none =>
    rw [ho] at horigin
    obtain ⟨s, i, -, hi⟩ := ht.accounted.input y a horigin
    rw [hc, Option.some_inj] at hi
    cases hi
  | some o =>
    rw [ho] at horigin
    obtain ⟨rfl, hcall, s, drawn, c, hs, hon, hi⟩ := ht.accounted.caller y a o horigin
    rw [hc, Option.some_inj] at hi
    subst hi
    obtain ⟨x, b, k⟩ := o
    cases k with
    | deleteData repo name startBlockId endBlockId newProcessId lifetime repoParameter processId =>
      obtain ⟨outcome, -, heq⟩ := Option.map_eq_some_iff.mp hon
      cases heq
    | deleteManifest repo hash processId lifetime repoParameter =>
      cases hon
      obtain ⟨c, hc'⟩ := ht.record_lt hcall
      have hasks := ((ht.threads x).thread b c hc').2 _ hcall
      cases c with
      | deleteManifest interest' parameter' manifests' random' newProcessId' =>
        obtain ⟨m, repo', _, _, -, -, hk⟩ := hasks
        cases hk
      | delete interest' name processId' keySpace =>
        obtain ⟨repo', _, hstorage, hk⟩ := hasks
        cases hk
        have hkey : parameterHash (L := L) ⟨L.ofUri (sha1 (deleteText name)), some processId⟩ =
            sha1 (deleteText name) := hkeys _
        rw [ht.delete_eq hc'] at hstorage
        rw [hkey]
        refine ⟨⟨x, b, interest', name, processId, keySpace, hc', rfl, hstorage⟩, ?_⟩
        intro key m hread
        obtain ⟨json, hjson, hm⟩ := ManifestStore.readManifest_eq_ok_some.mp hread
        exact ManifestStore.readManifest_eq_ok_some.mpr ⟨json, hs.manifests _ _ hjson, hm⟩

end DeletionsInv

/-- A manifest that is gone was to be deleted, and so was that of a packet that is gone, which is one of its blocks. -/
theorem only_commanded_deletions (hkeys : ∀ text, substr (L.uri (L.ofUri (sha1 text))) 1 = sha1 text)
    (hrun : run (Federation.step (deleteService L sha1)) (deletionsStart lifetime store) es = some t)
    (hdistinct : ∀ x, (t.system x).commands.Pairwise ApartDeletions) :
    (∀ y hash, (store y).manifests.hasManifest hash → ¬ (t.store y).manifests.hasManifest hash →
      Commanded store t y hash) ∧
      ∀ y path, ((store y).datas.file path).isSome → ¬ ((t.store y).datas.file path).isSome →
        ∃ z hash m, Commanded store t z hash ∧ (store z).manifests.readManifest hash = .ok (some m) ∧
          ∃ repo ∈ m.mRepos, repo.name = y ∧ ∃ i, UInt64.ofInt repo.start ≤ i ∧ i ≤ UInt64.ofInt repo.stop ∧
            path = blockPath sha1 (L.ofUri m.mName) i := by
  have ht := deletionsInv_of_run hrun hdistinct
  constructor
  · intro y hash hold hgone
    obtain hkept | ⟨a, out, s, hout, hs, hlost⟩ | ⟨o, code, drawn, s, s', -, -, hserve, hs, hlost⟩ :=
      kept_or_lost_run (Q := fun s => (s.manifests.hasManifest hash : Prop)) hrun hold
    · exact absurd hkept hgone
    · cases out with
      | done response => exact absurd hs hlost
      | reply interest response => exact absurd hs hlost
      | deleteManifest hash' =>
        have hhash : hash = hash' := by
          by_contra hne
          exact hlost (ManifestStore.hasManifest_eraseManifest.mpr ⟨hne, hs⟩)
        subst hhash
        obtain ⟨c, hc⟩ := ht.record_lt hout
        obtain ⟨interest, parameter, manifests, random, newProcessId, m, walk, rfl, hkey, -⟩ :=
          ((ht.threads y).thread a c hc).1.deleted_of_output hout
        rw [hkey]
        exact (ht.commanded hkeys hc).1
    · obtain ⟨_, _, _, _, _, _, _, _, -, -, hmanifests, -⟩ := served_eq hserve
      dsimp only at hlost
      rw [hmanifests] at hlost
      exact absurd hs hlost
  · intro y path hold hgone
    obtain hkept | ⟨a, out, s, -, hs, hlost⟩ | ⟨o, code, drawn, s, s', hanswer, hdest, hserve, hs, hlost⟩ :=
      kept_or_lost_run (Q := fun s => ((s.datas.file path).isSome : Prop)) hrun hold
    · exact absurd hkept hgone
    · have hsame : ((deleteService L sha1).effect s out).datas = s.datas := by
        cases out <;> rfl
      dsimp only at hlost
      rw [hsame] at hlost
      exact absurd hs hlost
    · obtain ⟨x, b, k⟩ := o
      obtain ⟨hcall, -⟩ := ht.accounted.answer _ code hanswer
      obtain ⟨repo, name, startBlockId, endBlockId, newProcessId, lifetime, repoParameter, processId, rfl, -, -,
        hdatas⟩ := served_eq hserve
      dsimp only at hlost
      obtain ⟨-, hdatas⟩ | hfile := hdatas
      · rw [hdatas] at hlost
        exact absurd hs hlost
      · rw [hfile] at hlost
        split_ifs at hlost with hblock
        · obtain ⟨c, hc⟩ := ht.record_lt hcall
          have hasks := ((ht.threads x).thread b c hc).2 _ hcall
          cases c with
          | delete interest name' processId' keySpace =>
            obtain ⟨repo', _, -, hk⟩ := hasks
            cases hk
          | deleteManifest interest parameter manifests random newProcessId' =>
            obtain ⟨m, repo', newProcessId'', lifetime', hread, hrepo, hk⟩ := hasks
            cases hk
            obtain ⟨hcommanded, hinitial⟩ := ht.commanded hkeys hc
            obtain ⟨i, hstart, hstop, hpath⟩ := hblock
            exact ⟨x, _, m, hcommanded, hinitial _ m hread, repo', hrepo, hdest, i, hstart, hstop, hpath⟩
        · exact absurd hs hlost

end Gone

/-! ### One deletion -/

/-- A hash comes back from the name that it is sent as. -/
lemma insertDigest_key (text : String) :
    substr (plainNames.uri (plainNames.ofUri (insertDigest text))) 1 = insertDigest text := by
  unfold insertDigest
  split_ifs with hfilm
  · rw [hfilm]
    decide +kernel
  · unfold frameDigest
    simp only [List.lookup]
    repeat' split
    all_goals decide +kernel

def splitFilm : Manifest :=
  { mName := "/film", mRepos := [⟨"/a/repo", 0, 0⟩, ⟨"/b/repo", 1, 1⟩], mStartBlockId := 0, mEndBlockId := 1 }

/-- The manifest is at `/a/repo`, which has the first block. The others have the second. -/
def filmStores (x : String) : DeleteStore plainNames insertDigest :=
  if x = "/a/repo" then
    { keySpace := exampleKeySpace, manifests := ManifestStore.empty.insertManifest splitFilm rfl
      datas := (({} : FsStorage plainNames insertDigest).insert (frame 0)).1 }
  else
    { keySpace := exampleKeySpace, manifests := .empty
      datas := (({} : FsStorage plainNames insertDigest).insert (frame 1)).1 }

def filmDeleteStart : DeleteNet plainNames insertDigest := deletionsStart (fun _ => 4000) filmStores

def filmManifestCall : Caller String (DeleteInterest plainNames) :=
  ⟨"/b/repo", 0, .deleteManifest "/a/repo" (archiveDigest "/film") 5 4000 ⟨[film], some 5⟩⟩

def filmDataCall (repo : String) (blockId newProcessId : UInt64) : Caller String (DeleteInterest plainNames) :=
  ⟨"/a/repo", 0, .deleteData repo [film] blockId blockId newProcessId 4000 ⟨filmHashName, some 5⟩ 7⟩

lemma delete_text : "delete" ≠ "" ∧ '/' ∉ "delete".toList := by decide

/-- A client asks `/b/repo`, which asks `/a/repo`, which asks both. -/
def filmDeleteEvents : List (DeleteEvent plainNames) :=
  [.input "/b/repo" ⟨[plainComponent "delete" delete_text], [film], 5⟩,
    .receive filmManifestCall ⟨manifestInterest, 7, 11, 0⟩,
    .receive (filmDataCall "/a/repo" 0 11) ⟨[], 0, 0, 3⟩, .answer (filmDataCall "/a/repo" 0 11) 200 ⟨[], 0, 12, 0⟩,
    .receive (filmDataCall "/b/repo" 1 12) ⟨[], 0, 0, 3⟩, .answer (filmDataCall "/b/repo" 1 12) 200 ⟨[], 0, 13, 0⟩,
    .answer filmManifestCall 200 ⟨[], 0, 0, 0⟩]

/-- Each node has got one command. -/
lemma film_deleted : ∃ t, run (Federation.step (deleteService plainNames insertDigest)) filmDeleteStart
    filmDeleteEvents = some t ∧ (∀ x, (t.system x).commands.Pairwise ApartDeletions) ∧
      (t.system "/b/repo").commands[0]? = some (.delete [plainComponent "delete"] [film] 5 exampleKeySpace) ∧
      .output (.done ⟨200, "Deletion Successful", some 5, some 1⟩) ∈ (t.system "/b/repo").thread 0 ∧
      ¬ (t.store "/a/repo").manifests.hasManifest (archiveDigest "/film") ∧
      ¬ (t.store "/b/repo").datas.has (plainNames.appendSegment [film] 1) := by
  have hview : (run (Federation.step (deleteService plainNames insertDigest)) filmDeleteStart filmDeleteEvents).map
      (fun t => ((t.system "/a/repo").commands.length, (t.system "/b/repo").commands.length,
        decide (.output (.done ⟨200, "Deletion Successful", some 5, some 1⟩) ∈ (t.system "/b/repo").thread 0),
        (t.store "/a/repo").manifests.hasManifest (archiveDigest "/film"),
        (t.store "/b/repo").datas.has (plainNames.appendSegment [film] 1))) =
      some (1, 1, true, false, false) := by decide +kernel
  obtain ⟨t, hrun, heq⟩ := Option.map_eq_some_iff.mp hview
  simp only [Prod.mk.injEq] at heq
  obtain ⟨ha, hb, hdone, hmanifest, hdata⟩ := heq
  refine ⟨t, hrun, ?_, command_of_input hrun, of_decide_eq_true hdone, ?_, ?_⟩
  · intro x
    have hlength : (t.system x).commands.length ≤ 1 := by
      by_cases hx : x = "/a/repo" ∨ x = "/b/repo"
      · obtain rfl | rfl := hx
        · exact ha.le
        · exact hb.le
      · rw [not_or] at hx
        have hsame : t.system x = filmDeleteStart.system x := by
          refine system_run_of_ne hrun ?_
          simp only [filmDeleteEvents, List.forall_mem_cons, List.not_mem_nil, false_imp_iff, implies_true, and_true]
          exact ⟨hx.2, hx.1, hx.1, hx.1, hx.2, hx.1, hx.2⟩
        rw [hsame]
        exact Nat.zero_le 1
    rw [List.pairwise_iff_getElem]
    intro i j hi hj hij
    omega
  · rw [hmanifest]
    exact Bool.false_ne_true
  · rw [hdata]
    exact Bool.false_ne_true

/-- The manifest and both blocks are gone. -/
theorem film_object_gone : ∃ t, run (Federation.step (deleteService plainNames insertDigest)) filmDeleteStart
    filmDeleteEvents = some t ∧
      ∃ y, (filmStores "/b/repo").keySpace.getManifestStorage (insertDigest (deleteText [film])) = some y ∧
        ObjectGone filmStores t y (insertDigest (deleteText [film])) := by
  obtain ⟨t, hrun, hdistinct, hc, hdone, -⟩ := film_deleted
  exact ⟨t, hrun, deleted_objects_gone insertDigest_key hrun hdistinct hc hdone rfl⟩

/-- That was what the client asked for. -/
theorem film_deletion_commanded : ∃ t, run (Federation.step (deleteService plainNames insertDigest)) filmDeleteStart
    filmDeleteEvents = some t ∧
      Commanded filmStores t "/a/repo" (archiveDigest "/film") ∧
        ∃ z hash m, Commanded filmStores t z hash ∧ (filmStores z).manifests.readManifest hash = .ok (some m) ∧
          ∃ repo ∈ m.mRepos, repo.name = "/b/repo" ∧ ∃ i, UInt64.ofInt repo.start ≤ i ∧ i ≤ UInt64.ofInt repo.stop ∧
            blockPath (L := plainNames) insertDigest [film] 1 =
              blockPath insertDigest (plainNames.ofUri m.mName) i := by
  obtain ⟨t, hrun, hdistinct, -, -, hmanifest, hdata⟩ := film_deleted
  have hall := only_commanded_deletions insertDigest_key hrun hdistinct
  have hold : (filmStores "/a/repo").manifests.hasManifest (archiveDigest "/film") := by decide +kernel
  have hblock : (filmStores "/b/repo").datas.has (plainNames.appendSegment [film] 1) := by decide +kernel
  exact ⟨t, hrun, hall.1 _ _ hold hmanifest, hall.2 _ _ hblock hdata⟩

end Difs
