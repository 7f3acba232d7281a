import Difs.Cluster.Network
import Difs.KeySpace.Versions

/-!
# What the handlers of a node do

Inversion lemmas for the reactions of a node: what becomes of its version and file, and why
an Interest is expressed.
-/

namespace Difs

open Exchange

variable {sha1 : String → String}

namespace Record

def publishedPair : Record → Option (String × KeySpaceFile)
  | .published version file => some (version, file)
  | _ => none

def installedVersion : Record → Option String
  | .installed version => some version
  | _ => none

end Record

namespace Node

def published (s : Node sha1) : List (String × KeySpaceFile) := s.log.filterMap Record.publishedPair

def installs (s : Node sha1) : List String := s.log.filterMap Record.installedVersion

end Node

/-! ### What the handlers change -/

section Handlers

variable {s s' : Node sha1} {i : Interest} {d : Content} {c : Command}

/-- The handle, the store and the log are left alone. -/
structure Inert (s s' : Node sha1) : Prop where
  handle : s'.handle = s.handle
  manifests : s'.manifests = s.manifests
  log : s'.log = s.log

lemma Inert.refl (s : Node sha1) : Inert s s := ⟨rfl, rfl, rfl⟩

lemma inert_after {o : Outcome} (ho : o.handle = s.handle) : Inert s (s.after o []) := ⟨ho, rfl, List.append_nil _⟩

lemma onVersionCommand_handle (h : KeySpaceHandle) : h.onVersionCommand.handle = h := by
  unfold KeySpaceHandle.onVersionCommand
  split <;> rfl

theorem inert_onTimeout : Inert s (s.onTimeout i).node := by
  cases i with
  | ver nodeName version => exact inert_after (onVersionCommand_handle _)
  | fetch managerPrefix version => exact inert_after rfl
  | coordination toName fromName => exact inert_after rfl
  | manifestlist fromName => exact inert_after rfl
  | find fromName hash => exact Inert.refl s
  | complete managerPrefix => exact Inert.refl s
  | onlyDeleteManifest fromName hash => exact Inert.refl s

lemma inert_handleFindCommand (hash : String) : Inert s (s.handleFindCommand hash).node := by
  unfold Node.handleFindCommand
  split <;> exact ⟨rfl, rfl, rfl⟩

lemma handleOnlyDeleteManifestCommand_changes (hash : String) :
    Inert s (s.handleOnlyDeleteManifestCommand hash).node ∨
      (s.handleOnlyDeleteManifestCommand hash).node = { s with manifests := s.manifests.eraseManifest hash } := by
  unfold Node.handleOnlyDeleteManifestCommand
  split
  · exact Or.inl ⟨rfl, rfl, rfl⟩
  · exact Or.inl (Inert.refl s)
  · exact Or.inr rfl

/-- Interests other than a fetch, a coordination command and an only-delete change nothing. -/
theorem onInterest_changes : Inert s (s.onInterest i).node ∨
    (∃ managerPrefix version, i = .fetch managerPrefix version ∧ (s.onInterest i).node =
      s.after s.handle.onCoordinationCommand [.fetched s.handle.mFrom s.handle.mTo]) ∨
    (∃ toName fromName, i = .coordination toName fromName ∧ (s.onInterest i).node =
      s.after (s.handle.handleCoordinationCommand (some fromName)) [.coordinated fromName]) ∨
    ∃ fromName hash, i = .onlyDeleteManifest fromName hash ∧
      (s.onInterest i).node = { s with manifests := s.manifests.eraseManifest hash } := by
  cases i with
  | ver nodeName version =>
    refine Or.inl (inert_after ?_)
    unfold KeySpaceHandle.handleVersionCommand
    split_ifs <;> rfl
  | fetch managerPrefix version => exact Or.inr (Or.inl ⟨managerPrefix, version, rfl, rfl⟩)
  | coordination toName fromName => exact Or.inr (Or.inr (Or.inl ⟨toName, fromName, rfl, rfl⟩))
  | manifestlist fromName => exact Or.inl (Inert.refl s)
  | find fromName hash => exact Or.inl (inert_handleFindCommand hash)
  | complete managerPrefix => exact Or.inl (Inert.refl s)
  | onlyDeleteManifest fromName hash =>
    obtain h | h := handleOnlyDeleteManifestCommand_changes (s := s) hash
    · exact Or.inl h
    · exact Or.inr (Or.inr (Or.inr ⟨fromName, hash, rfl, h⟩))

lemma onManifestCommandResponse_changes (hash : String) : Inert s (s.onManifestCommandResponse hash d).node ∨
    ∃ json m, ∃ hm : Manifest.fromJson json = some m, d = .manifest json ∧
      (s.onManifestCommandResponse hash d).node =
        { s with manifests := s.manifests.insertManifest m (Manifest.mHash_of_fromJson hm)
                 log := s.log ++ [.found hash] } := by
  unfold Node.onManifestCommandResponse
  split
  · rename_i json
    split
    · exact Or.inl ⟨rfl, rfl, rfl⟩
    · rename_i m hm
      exact Or.inr ⟨json, m, hm, rfl, rfl⟩
  · exact Or.inl ⟨rfl, rfl, rfl⟩

/-- Data other than a file, a manifest list and a manifest change nothing. -/
theorem onData_changes : Inert s (s.onData i d).node ∨
    (∃ managerPrefix version file, i = .fetch managerPrefix version ∧ d = .keySpaces file ∧ (s.onData i d).node =
      s.after (s.handle.onFetchCommandResponse version (some file)) [.installed version]) ∨
    (∃ fromName keys, i = .manifestlist fromName ∧ d = .manifestList keys ∧ (s.onData i d).node =
      s.after (s.handle.onManifestListCommandResponse (some keys)) []) ∨
    ∃ fromName hash json m, ∃ hm : Manifest.fromJson json = some m, i = .find fromName hash ∧ d = .manifest json ∧
      (s.onData i d).node =
        { s with manifests := s.manifests.insertManifest m (Manifest.mHash_of_fromJson hm)
                 log := s.log ++ [.found hash] } := by
  cases i with
  | ver nodeName version => exact Or.inl (Inert.refl s)
  | fetch managerPrefix version =>
    cases d with
    | keySpaces file => exact Or.inr (Or.inl ⟨managerPrefix, version, file, rfl, rfl, rfl⟩)
    | _ => exact Or.inl (Inert.refl s)
  | coordination toName fromName => exact Or.inl (Inert.refl s)
  | manifestlist fromName =>
    cases d with
    | manifestList keys => exact Or.inr (Or.inr (Or.inl ⟨fromName, keys, rfl, rfl, rfl⟩))
    | _ => exact Or.inl (Inert.refl s)
  | find fromName hash =>
    have ho : (s.onData (.find fromName hash) d).node = (s.onManifestCommandResponse hash d).node := by cases d <;> rfl
    rw [ho]
    obtain h | ⟨json, m, hm, hd, h⟩ := onManifestCommandResponse_changes (s := s) (d := d) hash
    · exact Or.inl h
    · exact Or.inr (Or.inr (Or.inr ⟨fromName, hash, json, m, hm, rfl, hd, h⟩))
  | complete managerPrefix =>
    have ho : (s.onData (.complete managerPrefix) d).node = s.after s.handle.onCompleteCommandResponse [] := by
      cases d <;> rfl
    rw [ho]
    refine Or.inl (inert_after ?_)
    unfold KeySpaceHandle.onCompleteCommandResponse
    split <;> rfl
  | onlyDeleteManifest fromName hash => exact Or.inl (Inert.refl s)

/-! ### What the handlers do to versions -/

/-- The same version of the same file, and nothing published or installed. -/
structure SameVersion (s s' : Node sha1) : Prop where
  file : s.handle.SameFile s'.handle
  published : s'.published = s.published
  installs : s'.installs = s.installs

lemma Inert.sameVersion (h : Inert s s') : SameVersion s s' where
  file := by
    rw [h.handle]
    exact ⟨rfl, rfl, rfl, rfl⟩
  published := by rw [Node.published, h.log, Node.published]
  installs := by rw [Node.installs, h.log, Node.installs]

lemma sameVersion_after {o : Outcome} {records : List Record} (hf : s.handle.SameFile o.handle)
    (hp : records.filterMap Record.publishedPair = []) (hi : records.filterMap Record.installedVersion = []) :
    SameVersion s (s.after o records) where
  file := hf
  published := by rw [Node.published, Node.after, List.filterMap_append, hp, List.append_nil, Node.published]
  installs := by rw [Node.installs, Node.after, List.filterMap_append, hi, List.append_nil, Node.installs]

theorem sameVersion_onInterest : SameVersion s (s.onInterest i).node := by
  obtain h | ⟨_, _, rfl, h⟩ | ⟨_, _, rfl, h⟩ | ⟨_, _, rfl, h⟩ := onInterest_changes (s := s) (i := i)
  · exact h.sameVersion
  · rw [h]
    exact sameVersion_after ⟨rfl, rfl, rfl, rfl⟩ rfl rfl
  · rw [h]
    exact sameVersion_after ⟨rfl, rfl, rfl, rfl⟩ rfl rfl
  · rw [h]
    exact ⟨⟨rfl, rfl, rfl, rfl⟩, rfl, rfl⟩

structure Installs (s s' : Node sha1) (version : String) (file : KeySpaceFile) : Prop where
  manager : s'.handle.mManagerPrefix = s.handle.mManagerPrefix
  num : s'.handle.mVersionNum = s.handle.mVersionNum
  named : s'.handle.mVersion = version
  installed : s'.handle.mKeySpaceFile = some file
  published : s'.published = s.published
  installs : s'.installs = s.installs ++ [version]

theorem onData_cases : SameVersion s (s.onData i d).node ∨
    ∃ managerPrefix version file, i = .fetch managerPrefix version ∧ d = .keySpaces file ∧
      Installs s (s.onData i d).node version file := by
  obtain h | ⟨p, version, file, rfl, rfl, h⟩ | ⟨_, _, rfl, rfl, h⟩ | ⟨_, hash, json, m, hm, rfl, rfl, h⟩ :=
    onData_changes (s := s) (i := i) (d := d)
  · exact Or.inl h.sameVersion
  · refine Or.inr ⟨p, version, file, rfl, rfl, ?_⟩
    obtain ⟨start, stop, assigned, ho, -⟩ := s.handle.onFetchCommandResponse_some file version
    rw [h]
    refine ⟨?_, ?_, ?_, ?_, ?_, ?_⟩
    · simp only [Node.after, ho]
    · simp only [Node.after, ho]
    · simp only [Node.after, ho]
    · simp only [Node.after, ho]
    · simp [Node.after, Node.published, Record.publishedPair]
    · simp [Node.after, Node.installs, Record.installedVersion]
  · rw [h]
    exact Or.inl (sameVersion_after ⟨rfl, rfl, rfl, rfl⟩ rfl rfl)
  · rw [h]
    refine Or.inl ⟨⟨rfl, rfl, rfl, rfl⟩, ?_, ?_⟩
    · simp [Node.published, Record.publishedPair]
    · simp [Node.installs, Record.installedVersion]

structure Publishes (s s' : Node sha1) (file : KeySpaceFile) : Prop where
  manager : s'.handle.mManagerPrefix = s.handle.mManagerPrefix
  num : s'.handle.mVersionNum = s.handle.mVersionNum + 1
  version : s'.handle.mVersion = versionText s.handle.mVersionNum.toNat
  held : s'.handle.mKeySpaceFile = some file
  published : s'.published = s.published ++ [(s'.handle.mVersion, file)]
  installs : s'.installs = s.installs

lemma publication_of_same {h : KeySpaceHandle} {o : Outcome} (ho : o.handle.mVersionNum = h.mVersionNum) :
    Node.publication h o = [] := by
  unfold Node.publication
  split
  · exact if_pos ho
  · rfl

lemma publication_publish (h : KeySpaceHandle) (fromName toName : String) (file : KeySpaceFile) :
    Node.publication h (h.publish fromName toName file).onVersionCommand =
      [.published (h.publish fromName toName file).mVersion file] :=
  if_neg (uint64_succ_ne h.mVersionNum)

theorem onCommand_cases : SameVersion s (s.onCommand c).node ∧ (s.onCommand c).sent = [] ∨
    ∃ file, Publishes s (s.onCommand c).node file ∧
      (s.onCommand c).sent = file.tail.map (fun it => .ver it.node (s.onCommand c).node.handle.mVersion) := by
  cases c with
  | addNode fromName toName =>
    obtain ⟨ho, hs⟩ | ⟨file, node, -, -, ho⟩ := s.handle.handleAddCommand_cases fromName toName
    · left
      have hp := publication_of_same (h := s.handle) (o := s.handle.handleAddCommand fromName toName) (by rw [ho])
      simp only [Node.onCommand, hp, if_true]
      exact ⟨sameVersion_after (by rw [ho]; exact ⟨rfl, rfl, rfl, rfl⟩) rfl rfl, hs⟩
    · right
      simp only [Node.onCommand, ho, publication_publish]
      refine ⟨file ++ [node], ⟨rfl, rfl, rfl, rfl, ?_, ?_⟩, rfl⟩
      · simp [Node.after, Node.published, Record.publishedPair, KeySpaceHandle.onVersionCommand_publish,
          List.filterMap_cons]
      · simp [Node.after, Node.installs, Record.installedVersion]
  | delNode fromName toName unassigned =>
    obtain ⟨ho, hs⟩ | ⟨file, ho⟩ := s.handle.handleDeleteCommand_cases fromName toName unassigned
    · left
      have hp := publication_of_same (h := s.handle)
        (o := s.handle.handleDeleteCommand fromName toName unassigned) (by rw [ho])
      simp only [Node.onCommand, hp]
      exact ⟨sameVersion_after (by rw [ho]; exact ⟨rfl, rfl, rfl, rfl⟩) rfl rfl, hs⟩
    · right
      simp only [Node.onCommand, ho, publication_publish]
      refine ⟨file, ⟨rfl, rfl, rfl, rfl, ?_, ?_⟩, rfl⟩
      · simp [Node.after, Node.published, Record.publishedPair, KeySpaceHandle.onVersionCommand_publish]
      · simp [Node.after, Node.installs, Record.installedVersion]

lemma reply_fetch {p version : String} {file : KeySpaceFile}
    (h : (s.onInterest (.fetch p version)).reply = some (.keySpaces file)) :
    s.handle.mVersion = version ∧ s.handle.mKeySpaceFile = some file := by
  unfold Node.onInterest KeySpaceHandle.handleFetchCommand KeySpaceHandle.fetchContent at h
  dsimp only at h
  rw [Option.some_inj] at h
  by_cases hv : version = s.handle.mVersion
  · rw [if_pos hv] at h
    cases hf : s.handle.mKeySpaceFile with
    | none => simp [hf] at h
    | some file' =>
      simp only [hf, Option.map_some, Option.getD_some, Content.keySpaces.injEq] at h
      exact ⟨hv.symm, by rw [h]⟩
  · simp [hv] at h

/-! ### Why an Interest is expressed -/

section Sent

variable {b : Interest}

lemma sent_handleFindCommand (hash : String) : (s.handleFindCommand hash).sent = [] := by
  unfold Node.handleFindCommand
  split <;> rfl

lemma sent_handleOnlyDeleteManifestCommand (hash : String) : (s.handleOnlyDeleteManifestCommand hash).sent = [] := by
  unfold Node.handleOnlyDeleteManifestCommand
  split <;> rfl

lemma sent_onManifestCommandResponse (hash : String) : (s.onManifestCommandResponse hash d).sent = [] := by
  unfold Node.onManifestCommandResponse
  split
  · split <;> rfl
  · rfl

theorem sent_onInterest (hb : b ∈ (s.onInterest i).sent) :
    (∃ y version, i = .ver y version ∧ version ≠ s.handle.mVersion ∧ b = .fetch s.handle.mManagerPrefix version) ∨
      (∃ p version, i = .fetch p version ∧ b = .coordination s.handle.mTo s.handle.mFrom) ∨
      ∃ toName fromName, i = .coordination toName fromName ∧ b = .manifestlist fromName := by
  cases i with
  | ver y version =>
    left
    change b ∈ (s.handle.handleVersionCommand version).sent at hb
    unfold KeySpaceHandle.handleVersionCommand at hb
    by_cases hv : version ≠ s.handle.mVersion
    · rw [if_pos hv] at hb
      exact ⟨y, version, rfl, hv, List.mem_singleton.mp hb⟩
    · rw [if_neg hv] at hb
      exact absurd hb List.not_mem_nil
  | fetch p version => exact Or.inr (Or.inl ⟨p, version, rfl, List.mem_singleton.mp hb⟩)
  | coordination toName fromName => exact Or.inr (Or.inr ⟨toName, fromName, rfl, List.mem_singleton.mp hb⟩)
  | manifestlist fromName => exact absurd hb List.not_mem_nil
  | find fromName hash =>
    change b ∈ (s.handleFindCommand hash).sent at hb
    rw [sent_handleFindCommand] at hb
    exact absurd hb List.not_mem_nil
  | complete p => exact absurd hb List.not_mem_nil
  | onlyDeleteManifest fromName hash =>
    change b ∈ (s.handleOnlyDeleteManifestCommand hash).sent at hb
    rw [sent_handleOnlyDeleteManifestCommand] at hb
    exact absurd hb List.not_mem_nil

theorem sent_onData (hb : b ∈ (s.onData i d).sent) :
    (∃ p keys, i = .manifestlist p ∧ d = .manifestList keys ∧
      (b = .complete s.handle.mManagerPrefix ∨ ∃ key ∈ s.handle.selectedKeys keys, b = .find s.handle.mFrom key)) ∨
      ∃ p keys, i = .complete p ∧ s.handle.mManifestList = some keys ∧
        ∃ key ∈ s.handle.selectedKeys keys, b = .onlyDeleteManifest s.handle.mFrom key := by
  cases i with
  | fetch p version =>
    cases d with
    | keySpaces file =>
      obtain ⟨_, _, _, -, hs⟩ := s.handle.onFetchCommandResponse_some file version
      change b ∈ (s.handle.onFetchCommandResponse version (some file)).sent at hb
      rw [hs] at hb
      exact absurd hb List.not_mem_nil
    | _ => exact absurd hb List.not_mem_nil
  | manifestlist p =>
    left
    cases d with
    | manifestList keys =>
      refine ⟨p, keys, rfl, rfl, ?_⟩
      obtain hb | hb := List.mem_append.mp hb
      · obtain ⟨key, hk, rfl⟩ := List.mem_map.mp hb
        exact Or.inr ⟨key, hk, rfl⟩
      · exact Or.inl (List.mem_singleton.mp hb)
    | _ => exact absurd hb List.not_mem_nil
  | find p hash =>
    have hs : (s.onData (.find p hash) d).sent = [] := by
      rw [← sent_onManifestCommandResponse (s := s) (d := d) hash]
      cases d <;> rfl
    rw [hs] at hb
    exact absurd hb List.not_mem_nil
  | complete p =>
    right
    have hs : (s.onData (.complete p) d).sent = s.handle.onCompleteCommandResponse.sent := by
      cases d <;> rfl
    rw [hs] at hb
    unfold KeySpaceHandle.onCompleteCommandResponse at hb
    cases hl : s.handle.mManifestList with
    | none =>
      rw [hl] at hb
      exact absurd hb List.not_mem_nil
    | some keys =>
      rw [hl] at hb
      obtain ⟨key, hk, rfl⟩ := List.mem_map.mp hb
      exact ⟨p, keys, rfl, rfl, key, hk, rfl⟩
  | ver y version => exact absurd hb List.not_mem_nil
  | coordination toName fromName => exact absurd hb List.not_mem_nil
  | onlyDeleteManifest p hash => exact absurd hb List.not_mem_nil

theorem sent_onTimeout (hb : b ∈ (s.onTimeout i).sent) :
    (∃ y version y', i = .ver y version ∧ b = .ver y' s.handle.mVersion) ∨
      (∃ p version, i = .fetch p version ∧ b = .fetch s.handle.mManagerPrefix version) ∨
      (∃ toName fromName, i = .coordination toName fromName ∧ b = .coordination s.handle.mTo s.handle.mFrom) ∨
      ∃ p, i = .manifestlist p ∧ b = .manifestlist s.handle.mFrom := by
  cases i with
  | ver y version =>
    left
    change b ∈ s.handle.onVersionCommand.sent at hb
    unfold KeySpaceHandle.onVersionCommand at hb
    split at hb
    · exact absurd hb List.not_mem_nil
    · obtain ⟨node, -, rfl⟩ := List.mem_map.mp hb
      exact ⟨y, version, node.node, rfl, rfl⟩
  | fetch p version => exact Or.inr (Or.inl ⟨p, version, rfl, List.mem_singleton.mp hb⟩)
  | coordination toName fromName => exact Or.inr (Or.inr (Or.inl ⟨toName, fromName, rfl, List.mem_singleton.mp hb⟩))
  | manifestlist p => exact Or.inr (Or.inr (Or.inr ⟨p, rfl, List.mem_singleton.mp hb⟩))
  | find p hash => exact absurd hb List.not_mem_nil
  | complete p => exact absurd hb List.not_mem_nil
  | onlyDeleteManifest p hash => exact absurd hb List.not_mem_nil

theorem sent_onCommand (hb : b ∈ (s.onCommand c).sent) :
    ∃ y file, Publishes s (s.onCommand c).node file ∧ b = .ver y (s.onCommand c).node.handle.mVersion := by
  obtain ⟨-, hs⟩ | ⟨file, hp, hs⟩ := onCommand_cases (s := s) (c := c)
  · rw [hs] at hb
    exact absurd hb List.not_mem_nil
  · rw [hs] at hb
    obtain ⟨node, -, rfl⟩ := List.mem_map.mp hb
    exact ⟨node.node, file, hp, rfl⟩

end Sent

end Handlers

/-! ### Reactions -/

section Reactions

variable {n t : Cluster sha1} {e : ClusterEvent} {x : String} {r : Reaction (Node sha1) Interest Content}

theorem reacts_cases (hr : Reacts (cluster sha1) n e x r) :
    SameVersion (n.node x) r.node ∨
      (∃ y p version file, e = .response y (.fetch p version) (.keySpaces file) ∧ y = x ∧
        (y, .fetch p version, .keySpaces file) ∈ n.responses ∧ Installs (n.node x) r.node version file) ∨
      ∃ c file, e = .input x c ∧ Publishes (n.node x) r.node file := by
  cases hr with
  | input x c =>
    obtain ⟨h, -⟩ | ⟨file, h, -⟩ := onCommand_cases (s := n.node x) (c := c)
    · exact Or.inl h
    · exact Or.inr (Or.inr ⟨c, file, rfl, h⟩)
  | request h => exact Or.inl sameVersion_onInterest
  | @response x i d h hp =>
    obtain h' | ⟨p, version, file, rfl, rfl, h'⟩ := onData_cases (s := n.node x) (i := i) (d := d)
    · exact Or.inl h'
    · exact Or.inr (Or.inl ⟨x, p, version, file, rfl, rfl, h, h'⟩)
  | timeout h => exact Or.inl inert_onTimeout.sameVersion

lemma node_of_adds (ha : Adds n e x r t) (y : String) : t.node y = if y = x then r.node else n.node y := by
  rw [ha.node, Function.update_apply]

lemma manager_of_reacts (hr : Reacts (cluster sha1) n e x r) :
    r.node.handle.mManagerPrefix = (n.node x).handle.mManagerPrefix := by
  obtain h | ⟨_, _, _, _, _, _, _, h⟩ | ⟨_, _, _, h⟩ := reacts_cases hr
  · exact h.file.manager
  · exact h.manager
  · exact h.manager

/-- A node changes its version by an install or a membership command. -/
theorem version_cases (h : step (cluster sha1) n e = some t) (y : String) :
    (t.node y).handle.mVersion = (n.node y).handle.mVersion ∨
      (∃ p version file, (y, .fetch p version, .keySpaces file) ∈ n.responses ∧
        (t.node y).handle.mVersion = version) ∨
      ∃ c file, e = .input y c ∧ Publishes (n.node y) (t.node y) file := by
  obtain hq | ⟨x, r, hr, -, ha⟩ := step_cases h
  · exact Or.inl (by rw [hq.node])
  · rw [node_of_adds ha y]
    by_cases hy : y = x
    · rw [if_pos hy]
      subst hy
      obtain hs | ⟨z, p, version, file, -, rfl, hmem, hi⟩ | ⟨c, file, he, hp⟩ := reacts_cases hr
      · exact Or.inl hs.file.version
      · exact Or.inr (Or.inl ⟨p, version, file, hmem, hi.named⟩)
      · exact Or.inr (Or.inr ⟨c, file, he, hp⟩)
    · rw [if_neg hy]
      exact Or.inl rfl

/-- A version notice carries the sender's version, and answers a command or a timeout. -/
theorem ver_sent {y version : String} (hr : Reacts (cluster sha1) n e x r) (hb : .ver y version ∈ r.sent) :
    version = r.node.handle.mVersion ∧
      ((∃ c file, e = .input x c ∧ Publishes (n.node x) r.node file) ∨ ∃ y' v', (x, .ver y' v') ∈ n.pending) := by
  cases hr with
  | input x c =>
    obtain ⟨y', file, hp, heq⟩ := sent_onCommand hb
    cases heq
    exact ⟨rfl, Or.inl ⟨c, file, rfl, hp⟩⟩
  | request h =>
    obtain ⟨_, _, _, _, heq⟩ | ⟨_, _, _, heq⟩ | ⟨_, _, _, heq⟩ := sent_onInterest hb <;> cases heq
  | response h hp =>
    obtain ⟨_, _, _, _, heq | ⟨_, _, heq⟩⟩ | ⟨_, _, _, _, _, _, heq⟩ := sent_onData hb <;> cases heq
  | timeout h =>
    obtain ⟨y', v', _, rfl, heq⟩ | ⟨_, _, _, heq⟩ | ⟨_, _, _, heq⟩ | ⟨_, _, heq⟩ := sent_onTimeout hb <;> cases heq
    exact ⟨inert_onTimeout.sameVersion.file.version.symm, Or.inr ⟨y', v', h⟩⟩

/-- A fetch asks the manager for the version of a notice that differs from the local one, or
asks again. -/
theorem fetch_sent {p version : String} (hr : Reacts (cluster sha1) n e x r) (hb : .fetch p version ∈ r.sent) :
    p = (n.node x).handle.mManagerPrefix ∧
      ((∃ z, e = .request z (.ver x version) ∧ (z, .ver x version) ∈ n.requests ∧
          version ≠ (n.node x).handle.mVersion) ∨
        ∃ p', (x, .fetch p' version) ∈ n.pending) := by
  cases hr with
  | input x c =>
    obtain ⟨_, _, _, heq⟩ := sent_onCommand hb
    cases heq
  | @request z i h =>
    obtain ⟨y, v, rfl, hv, heq⟩ | ⟨_, _, _, heq⟩ | ⟨_, _, _, heq⟩ := sent_onInterest hb <;> cases heq
    exact ⟨rfl, Or.inl ⟨z, rfl, h, hv⟩⟩
  | response h hp =>
    obtain ⟨_, _, _, _, heq | ⟨_, _, heq⟩⟩ | ⟨_, _, _, _, _, _, heq⟩ := sent_onData hb <;> cases heq
  | timeout h =>
    obtain ⟨_, _, _, _, heq⟩ | ⟨p', v, rfl, heq⟩ | ⟨_, _, _, heq⟩ | ⟨_, _, heq⟩ := sent_onTimeout hb <;> cases heq
    exact ⟨rfl, Or.inr ⟨p', h⟩⟩

/-- A coordination command goes to the node of the pair, on the side of answering a fetch or
again after a timeout. -/
theorem coordination_sent {toName fromName : String} (hr : Reacts (cluster sha1) n e x r)
    (hb : .coordination toName fromName ∈ r.sent) :
    toName = (n.node x).handle.mTo ∧ fromName = (n.node x).handle.mFrom ∧
      ((∃ z version, (z, .fetch x version) ∈ n.requests) ∨ ∃ to' from', (x, .coordination to' from') ∈ n.pending) := by
  cases hr with
  | input x c =>
    obtain ⟨_, _, _, heq⟩ := sent_onCommand hb
    cases heq
  | @request z i h =>
    obtain ⟨_, _, _, _, heq⟩ | ⟨p, v, rfl, heq⟩ | ⟨_, _, _, heq⟩ := sent_onInterest hb <;> cases heq
    exact ⟨rfl, rfl, Or.inl ⟨z, v, h⟩⟩
  | response h hp =>
    obtain ⟨_, _, _, _, heq | ⟨_, _, heq⟩⟩ | ⟨_, _, _, _, _, _, heq⟩ := sent_onData hb <;> cases heq
  | timeout h =>
    obtain ⟨_, _, _, _, heq⟩ | ⟨_, _, _, heq⟩ | ⟨_, _, rfl, heq⟩ | ⟨_, _, heq⟩ := sent_onTimeout hb <;> cases heq
    exact ⟨rfl, rfl, Or.inr ⟨_, _, h⟩⟩

end Reactions

end Difs
