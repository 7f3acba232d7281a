import Difs.Cluster.Handlers

/-!
# Key-space replicas

A fetch is answered with the file only under the version it is held with, so every pair of a
version and a file that travels or is installed is one the manager has published.
-/

namespace Difs

open Exchange EventRun

variable {sha1 : String → String}

structure Setting (sha1 : String → String) where
  fromName : String
  unset : ℤ × ℤ
  manifests : ManifestStore sha1

def Setting.boot (setting : Setting sha1) (managerName nodeName : String) : Node sha1 :=
  let h := KeySpaceHandle.create nodeName managerName (if nodeName = managerName then "manager" else "node")
    setting.fromName setting.unset
  { handle := h, manifests := setting.manifests
    log := match h.mKeySpaceFile with
      | some file => [.published h.mVersion file]
      | none => [] }

/-- The cluster when every process has just started. -/
def start (managerName : String) (settings : String → Setting sha1) : Cluster sha1 :=
  { node := fun x => (settings x).boot managerName x }

/-- Membership commands go to the manager. -/
def ToManager (managerName : String) (_ : Cluster sha1) : ClusterEvent → Prop
  | .input x _ => x = managerName
  | _ => True

instance (managerName : String) (n : Cluster sha1) (e : ClusterEvent) : Decidable (ToManager managerName n e) := by
  unfold ToManager
  split <;> infer_instance

/-! ### Pairs in flight -/

/-- Every pair a node holds or a reply carries is one of `pairs`. -/
def Genuine (pairs : List (String × KeySpaceFile)) (n : Cluster sha1) : Prop :=
  Holds (fun _ s => ∀ file, s.handle.mKeySpaceFile = some file → (s.handle.mVersion, file) ∈ pairs)
    (fun _ _ => True)
    (fun _ i d => ∀ p version file, i = .fetch p version → d = .keySpaces file → (version, file) ∈ pairs) n

section Steps

variable {n t : Cluster sha1} {e : ClusterEvent} {managerName x : String}
  {r : Reaction (Node sha1) Interest Content}

lemma published_of_adds (ha : Adds n e x r t) (hr : Reacts (cluster sha1) n e x r) (y : String) :
    (t.node y).published = (n.node y).published ∨
      y = x ∧ ∃ c file, e = .input x c ∧ Publishes (n.node x) r.node file := by
  rw [node_of_adds ha y]
  by_cases hy : y = x
  · subst hy
    rw [if_pos rfl]
    obtain h | ⟨_, _, _, _, _, _, _, h⟩ | h := reacts_cases hr
    · exact Or.inl h.published
    · exact Or.inl h.published
    · exact Or.inr ⟨rfl, h⟩
  · rw [if_neg hy]
    exact Or.inl rfl

lemma published_prefix_step (h : step (cluster sha1) n e = some t) (y : String) :
    (n.node y).published <+: (t.node y).published := by
  obtain hq | ⟨x, r, hr, -, ha⟩ := step_cases h
  · rw [hq.node]
  · obtain heq | ⟨rfl, c, file, -, hp⟩ := published_of_adds ha hr y
    · rw [heq]
    · rw [node_of_adds ha, if_pos rfl, hp.published]
      exact List.prefix_append _ _

theorem genuine_step (hn : Genuine (n.node managerName).published n) (hm : ToManager managerName n e)
    (h : step (cluster sha1) n e = some t) : Genuine (t.node managerName).published t := by
  have hsub := (published_prefix_step h managerName).subset
  obtain hq | ⟨x, r, hr, -, ha⟩ := step_cases h
  · have hsame := hn.of_quiet hq
    rw [hq.node] at *
    exact hsame
  · refine hn.of_adds ha ?_ (fun _ _ _ => trivial) ?_ ?_ (fun _ _ => trivial) ?_
    · intro y _ hy file hf
      exact hsub (hy file hf)
    · intro y i d hd p version file hi hd'
      exact hsub (hd p version file hi hd')
    · intro file hf
      obtain hs | ⟨y, p, version, file', rfl, rfl, hmem, hi⟩ | ⟨c, file', rfl, hp⟩ := reacts_cases hr
      · rw [hs.file.file] at hf
        rw [hs.file.version]
        exact hsub (hn.node x file hf)
      · rw [hi.installed, Option.some_inj] at hf
        rw [hi.named, ← hf]
        exact hsub (hn.responses _ hmem p version file' rfl rfl)
      · obtain rfl : x = managerName := hm
        rw [hp.held, Option.some_inj] at hf
        rw [node_of_adds ha, if_pos rfl, hp.published, ← hf]
        exact List.mem_append_right _ List.mem_cons_self
    · intro y i d he hd p version file hi hfile
      subst he hi hfile
      cases hr with
      | request hmem =>
        obtain ⟨hv, hf⟩ := reply_fetch (p := p) hd
        rw [← hv]
        exact hsub (hn.node _ file hf)

/-! ### Version numbers -/

/-- The manager holds a file, and its published versions count up modulo the width of the
counter. -/
structure Numbered (s : Node sha1) : Prop where
  holds : s.handle.mKeySpaceFile.isSome
  num : s.handle.mVersionNum.toNat = s.published.length % 2 ^ 64
  versions : ∀ i p, s.published[i]? = some p → p.1 = versionText (i % 2 ^ 64)

lemma Numbered.publishes {s s' : Node sha1} {file : KeySpaceFile} (hs : Numbered s) (hp : Publishes s s' file) :
    Numbered s' := by
  refine ⟨Option.isSome_of_mem hp.held, ?_, ?_⟩
  · rw [hp.num, hp.published, List.length_append, UInt64.toNat_add, hs.num]
    simp
  · intro i p hi
    rw [hp.published] at hi
    obtain hlt | hge := Nat.lt_or_ge i s.published.length
    · rw [List.getElem?_append_left hlt] at hi
      exact hs.versions i p hi
    · rw [List.getElem?_append_right hge] at hi
      obtain ⟨hi0, rfl⟩ : i - s.published.length = 0 ∧ (s'.handle.mVersion, file) = p := by
        simpa [List.getElem?_singleton] using hi
      have heq : i = s.published.length := by omega
      rw [heq, ← hs.num]
      exact hp.version

theorem numbered_step {y : String} (hn : Numbered (n.node y)) (h : step (cluster sha1) n e = some t) :
    Numbered (t.node y) := by
  obtain hq | ⟨x, r, hr, -, ha⟩ := step_cases h
  · rw [hq.node]
    exact hn
  · rw [node_of_adds ha y]
    by_cases hy : y = x
    · subst hy
      rw [if_pos rfl]
      obtain hs | ⟨_, _, _, _, _, _, _, hi⟩ | ⟨c, file, -, hp⟩ := reacts_cases hr
      · exact ⟨by rw [hs.file.file]; exact hn.holds, by rw [hs.file.num, hs.published, hn.num],
          by rw [hs.published]; exact hn.versions⟩
      · exact ⟨Option.isSome_of_mem hi.installed, by rw [hi.num, hi.published, hn.num],
          by rw [hi.published]; exact hn.versions⟩
      · exact hn.publishes hp
    · rw [if_neg hy]
      exact hn

/-- Before the counter wraps no version is published twice. -/
lemma Numbered.nodup {s : Node sha1} (hs : Numbered s) (hlen : s.published.length ≤ 2 ^ 64) :
    (s.published.map Prod.fst).Nodup := by
  rw [List.nodup_iff_getElem?_ne_getElem?]
  intro i j hij hj heq
  rw [List.length_map] at hj
  rw [List.getElem?_map, List.getElem?_map, List.getElem?_eq_getElem (by omega), List.getElem?_eq_getElem hj,
    Option.map_some, Option.map_some, Option.some_inj] at heq
  rw [hs.versions i _ (List.getElem?_eq_getElem (by omega)), hs.versions j _ (List.getElem?_eq_getElem hj)] at heq
  have := versionText_injective heq
  omega

lemma published_length_step (h : step (cluster sha1) n e = some t) (y : String) :
    (t.node y).published.length ≤ (n.node y).published.length + if e.isInput then 1 else 0 := by
  obtain hq | ⟨x, r, hr, -, ha⟩ := step_cases h
  · rw [hq.node]
    omega
  · obtain heq | ⟨rfl, c, file, rfl, hp⟩ := published_of_adds ha hr y
    · rw [heq]
      omega
    · rw [node_of_adds ha, if_pos rfl, hp.published, List.length_append]
      rfl

end Steps

/-! ### Runs from the start -/

section Runs

variable {n : Cluster sha1} {es : List ClusterEvent} {managerName : String} {settings : String → Setting sha1}

lemma start_other {x : String} (hx : x ≠ managerName) :
    (start managerName settings).node x =
      { handle := { mRepoPrefix := x, mManagerPrefix := managerName, mFrom := (settings x).fromName,
                    mStart := (settings x).unset.1, mEnd := (settings x).unset.2 },
        manifests := (settings x).manifests } := by
  simp [start, Setting.boot, KeySpaceHandle.create, hx]

lemma start_manager (managerName : String) (settings : String → Setting sha1) :
    ∃ h : KeySpaceHandle, h.mVersionNum = 0 ∧ (start managerName settings).node managerName =
    { handle := h.initKeySpaceFile, manifests := (settings managerName).manifests,
      log := [.published (versionText 0) [⟨h.mRepoPrefix, "0x00", "0xff"⟩]] } := by
  refine ⟨{ mRepoPrefix := managerName, mManagerPrefix := managerName, mFrom := (settings managerName).fromName,
            mStart := (settings managerName).unset.1, mEnd := (settings managerName).unset.2 }, rfl, ?_⟩
  simp [start, Setting.boot, KeySpaceHandle.create, KeySpaceHandle.initKeySpaceFile, KeySpaceHandle.nextVersion,
    versionText]

lemma published_start (managerName : String) (settings : String → Setting sha1) :
    ∃ file, ((start managerName settings).node managerName).published = [(versionText 0, file)] ∧
    ((start managerName settings).node managerName).handle.mVersion = versionText 0 ∧
    ((start managerName settings).node managerName).handle.mKeySpaceFile = some file ∧
    ((start managerName settings).node managerName).handle.mVersionNum = 1 := by
  obtain ⟨h, h0, hnode⟩ := start_manager managerName settings
  rw [hnode]
  refine ⟨[⟨h.mRepoPrefix, "0x00", "0xff"⟩], rfl, ?_, rfl, ?_⟩
  · simp [KeySpaceHandle.initKeySpaceFile, KeySpaceHandle.nextVersion, versionText, h0]
  · simp [KeySpaceHandle.initKeySpaceFile, KeySpaceHandle.nextVersion, h0]

lemma genuine_start :
    Genuine ((start managerName settings).node managerName).published (start managerName settings) := by
  refine ⟨fun x file hf => ?_, by simp [start], by simp [start], by simp [start]⟩
  by_cases hx : x = managerName
  · subst hx
    obtain ⟨file', hp, hv, hf', -⟩ := published_start x settings
    rw [hf', Option.some_inj] at hf
    rw [hp, hv, hf]
    exact List.mem_singleton_self _
  · simp [start_other hx] at hf

theorem genuine_run (hm : Meets (step (cluster sha1)) (ToManager managerName) (start managerName settings) es)
    (hrun : run (step (cluster sha1)) (start managerName settings) es = some n) :
    Genuine (n.node managerName).published n :=
  run_invariant (I := fun n => Genuine (n.node managerName).published n)
    (fun _ _ _ hn hc h => genuine_step hn hc h) genuine_start hm hrun

/-- What the manager has published it has held. -/
lemma held_of_published (hm : Meets (step (cluster sha1)) (ToManager managerName) (start managerName settings) es)
    (hrun : run (step (cluster sha1)) (start managerName settings) es = some n) :
    ∀ p ∈ (n.node managerName).published, ∃ pre m, pre <+: es ∧
      run (step (cluster sha1)) (start managerName settings) pre = some m ∧
      (m.node managerName).handle.mVersion = p.1 ∧ (m.node managerName).handle.mKeySpaceFile = some p.2 := by
  refine run_induction (Q := fun es n => ∀ p ∈ (n.node managerName).published, ∃ pre m, pre <+: es ∧
      run (step (cluster sha1)) (start managerName settings) pre = some m ∧
      (m.node managerName).handle.mVersion = p.1 ∧ (m.node managerName).handle.mKeySpaceFile = some p.2)
    ?_ ?_ hm hrun
  · intro p hp
    obtain ⟨file, hpub, hv, hf, -⟩ := published_start managerName settings
    rw [hpub, List.mem_singleton] at hp
    subst hp
    exact ⟨[], _, List.prefix_rfl, rfl, hv, hf⟩
  · intro ds e u v hu ih hc he p hp
    have hold : p ∈ (u.node managerName).published → ∃ pre m, pre <+: ds ++ [e] ∧
        run (step (cluster sha1)) (start managerName settings) pre = some m ∧
        (m.node managerName).handle.mVersion = p.1 ∧ (m.node managerName).handle.mKeySpaceFile = some p.2 := by
      intro hp
      obtain ⟨pre, m, hpre, hm⟩ := ih p hp
      exact ⟨pre, m, hpre.trans (List.prefix_append ds [e]), hm⟩
    obtain hq | ⟨x, r, hr, -, ha⟩ := step_cases he
    · rw [hq.node] at hp
      exact hold hp
    · obtain heq | ⟨hx, c, file, -, hpub⟩ := published_of_adds ha hr managerName
      · rw [heq] at hp
        exact hold hp
      · have hnode := node_of_adds ha managerName
        rw [if_pos hx] at hnode
        rw [hnode, hpub.published, ← hx, List.mem_append, List.mem_singleton] at hp
        obtain hp | rfl := hp
        · exact hold hp
        · refine ⟨ds ++ [e], v, List.prefix_rfl, run_snoc_eq_some.mpr ⟨u, hu, he⟩, ?_, ?_⟩
          · rw [hnode]
          · rw [hnode, hpub.held]

lemma numbered_start : Numbered ((start managerName settings).node managerName) := by
  obtain ⟨file, hp, -, hf, hnum⟩ := published_start managerName settings
  refine ⟨Option.isSome_of_mem hf, by rw [hnum, hp]; rfl, ?_⟩
  intro i p hi
  rw [hp] at hi
  obtain ⟨rfl, rfl⟩ : i = 0 ∧ (versionText 0, file) = p := by simpa [List.getElem?_singleton] using hi
  rfl

def commandCount (es : List ClusterEvent) : ℕ := es.countP Event.isInput

lemma published_length_run (hrun : run (step (cluster sha1)) (start managerName settings) es = some n) :
    (n.node managerName).published.length ≤ 1 + commandCount es := by
  have hC : Meets (step (cluster sha1)) (fun _ _ => True) (start managerName settings) es :=
    meets_iff.mpr (fun _ _ _ _ _ _ => trivial)
  refine run_induction (Q := fun es n => (n.node managerName).published.length ≤ 1 + commandCount es)
    ?_ ?_ hC hrun
  · obtain ⟨file, hp, -⟩ := published_start managerName settings
    rw [hp]
    rfl
  · intro ds e u v _ ih _ he
    have hlen := published_length_step he managerName
    unfold commandCount at *
    rw [List.countP_append, List.countP_singleton]
    omega

lemma numbered_run (hrun : run (step (cluster sha1)) (start managerName settings) es = some n) :
    Numbered (n.node managerName) :=
  reachable_invariant (I := fun n : Cluster sha1 => Numbered (n.node managerName))
    (fun _ _ _ hn h => numbered_step hn h) numbered_start ⟨es, hrun⟩

lemma published_prefix_run {m : Cluster sha1} (hrun : run (step (cluster sha1)) m es = some n) (y : String) :
    (m.node y).published <+: (n.node y).published :=
  reachable_invariant (I := fun n : Cluster sha1 => (m.node y).published <+: (n.node y).published)
    (fun _ _ _ hn h => hn.trans (published_prefix_step h y)) List.prefix_rfl ⟨es, hrun⟩

/-- Whatever a node holds, the manager has held under that version, and under no other file
before the version counter wraps. -/
theorem replicas_are_snapshots
    (hm : Meets (step (cluster sha1)) (ToManager managerName) (start managerName settings) es)
    (hrun : run (step (cluster sha1)) (start managerName settings) es = some n) {x : String} {file : KeySpaceFile}
    (hf : (n.node x).handle.mKeySpaceFile = some file) :
    (∃ pre m, pre <+: es ∧ run (step (cluster sha1)) (start managerName settings) pre = some m ∧
      (m.node managerName).handle.mVersion = (n.node x).handle.mVersion ∧
      (m.node managerName).handle.mKeySpaceFile = some file) ∧
    (commandCount es < 2 ^ 64 → ∀ pre m, pre <+: es →
      run (step (cluster sha1)) (start managerName settings) pre = some m →
      (m.node managerName).handle.mVersion = (n.node x).handle.mVersion →
      (m.node managerName).handle.mKeySpaceFile = some file) := by
  have hmem := (genuine_run hm hrun).node x file hf
  refine ⟨held_of_published hm hrun _ hmem, ?_⟩
  intro hlt pre m hpre hm' hv
  obtain ⟨rest, rfl⟩ := hpre
  obtain ⟨m₁, hm₁, hrest⟩ := run_append_eq_some.mp hrun
  rw [hm', Option.some_inj] at hm₁
  subst hm₁
  obtain ⟨file', hf'⟩ := Option.isSome_iff_exists.mp (numbered_run hm').holds
  have hmem' := (genuine_run (hm.of_isPrefix (List.prefix_append pre rest)) hm').node managerName file' hf'
  have hlen := published_length_run hrun
  have hnodup := (numbered_run hrun).nodup (by omega)
  have hpair := List.inj_on_of_nodup_map hnodup ((published_prefix_run hrest managerName).subset hmem') hmem hv
  have hfile : file' = file := congrArg Prod.snd hpair
  rw [hf', hfile]

end Runs

def exampleSettings : String → Setting sha1 := fun _ => ⟨"", (0, 0), .empty⟩

/-- The manager accepts `/a`, which installs the file. -/
def oneJoin : List ClusterEvent :=
  [.input "/m" (.addNode "/m" "/a"), .request "/m" (.ver "/a" "v1"), .request "/a" (.fetch "/m" "v1"),
    .response "/a" (.fetch "/m" "v1") (.keySpaces [⟨"/m", "0x00", "0x7f"⟩, ⟨"/a", "0x80", "0xff"⟩])]

theorem replica_after_one_join : ∃ n : Cluster id,
    run (step (cluster id)) (start "/m" exampleSettings) oneJoin = some n ∧
      (n.node "/a").handle.mKeySpaceFile = some [⟨"/m", "0x00", "0x7f"⟩, ⟨"/a", "0x80", "0xff"⟩] ∧
      ∃ pre m, pre <+: oneJoin ∧ run (step (cluster id)) (start "/m" exampleSettings) pre = some m ∧
        (m.node "/m").handle.mVersion = (n.node "/a").handle.mVersion ∧
        (m.node "/m").handle.mKeySpaceFile = some [⟨"/m", "0x00", "0x7f"⟩, ⟨"/a", "0x80", "0xff"⟩] := by
  have hm : Meets (step (cluster id)) (ToManager "/m") (start "/m" exampleSettings) oneJoin := by decide
  obtain ⟨n, hrun, hf⟩ : ∃ n : Cluster id, run (step (cluster id)) (start "/m" exampleSettings) oneJoin = some n ∧
      (n.node "/a").handle.mKeySpaceFile = some [⟨"/m", "0x00", "0x7f"⟩, ⟨"/a", "0x80", "0xff"⟩] :=
    ⟨_, rfl, by decide⟩
  exact ⟨n, hrun, hf, (replicas_are_snapshots hm hrun hf).1⟩

end Difs
