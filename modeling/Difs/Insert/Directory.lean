import Difs.Insert.Placement
import Difs.Lib.Directory

/-!
# The manifests of a cluster as one directory

All nodes together keep one map from keys to manifests. A step of the network writes at most the
manifest of one accepted insert to it, and a find that is handled anywhere, for a get or for the
check of an insert, is answered from it.
-/

namespace Difs

open EventRun Exchange WriteHandle Directory

variable {L : NameLibrary} {sha1 : String → String}

namespace Deployment

variable (D : Deployment L)

/-- The node of the cluster that a key is routed to. -/
def route (key : String) : Option String := (D.storage key).filter (fun y => y ∈ D.nodes)

/-- What a node of the cluster has under a key. -/
def kept (n : InsertNet L sha1) (y : String) (key : String) : Option ManifestJson :=
  if y ∈ D.nodes then (n.node y).manifests.files.lookup key else none

def directory (n : InsertNet L sha1) : String → Option ManifestJson := merged D.route (D.kept n)

variable {D}

lemma route_eq_some {key y : String} : D.route key = some y ↔ D.storage key = some y ∧ y ∈ D.nodes := by
  simp [route, Option.filter_eq_some_iff]

end Deployment

/-- The manifest of an accepted insert, under its key. -/
def InsertedUnder (D : Deployment L) (n : InsertNet L sha1) (key : String) (json : ManifestJson) : Prop :=
  ∃ x ∈ D.nodes, ∃ name processId, InsertAccepted n x name processId ∧ key = insertedKey sha1 name ∧
    json = (D.manifestOf x name).toJson sha1

section Steps

variable {D : Deployment L} {n t : InsertNet L sha1} {e : InsertEvent L} {x y key : String} {json : ManifestJson}

namespace PlacementInv

lemma placed (hn : PlacementInv D n) : Placed D.route (D.kept n) := by
  intro y key json hkept
  unfold Deployment.kept at hkept
  split_ifs at hkept with hy
  obtain ⟨pre, post, hfiles, -⟩ := List.lookup_eq_some_iff.mp hkept
  obtain ⟨hstorage, -⟩ := (hn.placedNode hy).placed (key, json) (by simp [hfiles])
  exact Deployment.route_eq_some.mpr ⟨hstorage, hy⟩

lemma insertedUnder (hn : PlacementInv D n) (hkept : D.kept n y key = some json) : InsertedUnder D n key json := by
  unfold Deployment.kept at hkept
  split_ifs at hkept with hy
  obtain ⟨pre, post, hfiles, -⟩ := List.lookup_eq_some_iff.mp hkept
  obtain ⟨-, x, hx, name, processId, hname, heq⟩ := (hn.placedNode hy).placed (key, json) (by simp [hfiles])
  obtain ⟨rfl, rfl⟩ := Prod.mk.inj heq
  exact ⟨x, hx, name, processId, hname, rfl, rfl⟩

end PlacementInv

lemma kept_of_mem (hx : x ∈ D.nodes) : D.kept n x = fun key => (n.node x).manifests.files.lookup key := by
  funext key
  exact if_pos hx

/-- A step leaves what the nodes keep, or one node stores a file. -/
lemma kept_step (h : step (insertNetwork L sha1) n e = some t) : D.kept t = D.kept n ∨
    ∃ y key json, D.kept t = Function.update (D.kept n) y (Function.update (D.kept n y) key (some json)) := by
  have hsame : (∀ y ∈ D.nodes, (t.node y).manifests = (n.node y).manifests) → D.kept t = D.kept n := by
    intro hall
    funext y key
    unfold Deployment.kept
    split_ifs with hy
    · rw [hall y hy]
    · rfl
  obtain hq | ⟨x, r, hr, -, ha⟩ := step_cases h
  · exact Or.inl (hsame (fun y _ => by rw [hq.node]))
  · obtain hkeeps | ⟨json, m, hm, hstored⟩ := manifests_of_reacts hr
    · left
      apply hsame
      intro y hy
      rw [ha.node]
      by_cases hyx : y = x
      · rw [hyx, Function.update_self, hkeeps]
      · rw [Function.update_of_ne hyx]
    · by_cases hx : x ∈ D.nodes
      · refine Or.inr ⟨x, m.getHash sha1, m.toJson sha1, ?_⟩
        funext y
        by_cases hyx : y = x
        · rw [hyx, Function.update_self, kept_of_mem hx, kept_of_mem hx, ha.node, Function.update_self, hstored]
          exact (n.node x).manifests.lookup_insertManifest (Manifest.mHash_of_fromJson hm)
        · rw [Function.update_of_ne hyx]
          unfold Deployment.kept
          rw [ha.node, Function.update_of_ne hyx]
      · left
        apply hsame
        intro y hy
        have hyx : y ≠ x := by
          rintro rfl
          exact hx hy
        rw [ha.node, Function.update_of_ne hyx]

/-- A step writes at most the manifest of one accepted insert to the directory. -/
theorem directory_step (hn : PlacementInv D n) (hc : Regular D n e) (h : step (insertNetwork L sha1) n e = some t) :
    Published (InsertedUnder D t) (D.directory n) (D.directory t) := by
  have ht := hn.step hc h
  obtain hsame | ⟨y, key, json, hkept⟩ := kept_step (D := D) h
  · rw [Deployment.directory, Deployment.directory, hsame]
  · have hjson : D.kept t y key = some json := by rw [hkept, Function.update_self, Function.update_self]
    refine Relation.ReflTransGen.single ⟨key, json, ht.insertedUnder hjson, ?_⟩
    rw [Deployment.directory, hkept]
    exact merged_update (ht.placed y key json hjson) (some json)

lemma insertedUnder_step (h : step (insertNetwork L sha1) n e = some t) (hi : InsertedUnder D n key json) :
    InsertedUnder D t key json := by
  obtain ⟨x, hx, name, processId, hname, hkey, hjson⟩ := hi
  exact ⟨x, hx, name, processId, accepted_step h hname, hkey, hjson⟩

/-- A run from any reached state publishes manifests of accepted inserts. -/
theorem directory_run {es : List (InsertEvent L)} (hn : PlacementInv D n)
    (hmeets : Meets (step (insertNetwork L sha1)) (Regular D) n es)
    (hrun : run (step (insertNetwork L sha1)) n es = some t) :
    PlacementInv D t ∧ Published (InsertedUnder D t) (D.directory n) (D.directory t) := by
  have hstep : ∀ s e u, PlacementInv D s ∧ Published (InsertedUnder D s) (D.directory n) (D.directory s) →
      Regular D s e → step (insertNetwork L sha1) s e = some u →
      PlacementInv D u ∧ Published (InsertedUnder D u) (D.directory n) (D.directory u) := by
    rintro s e u ⟨hs, hd⟩ hc h
    refine ⟨hs.step hc h, ?_⟩
    exact (hd.mono (fun _ _ hi => insertedUnder_step h hi)).trans (directory_step hs hc h)
  exact run_invariant (I := fun s => PlacementInv D s ∧ Published (InsertedUnder D s) (D.directory n) (D.directory s))
    hstep ⟨hn, .refl⟩ hmeets hrun

/-! ### Finds -/

/-- The reply to a find, from the directory. -/
def Deployment.answer (D : Deployment L) (n : InsertNet L sha1) (hash : String) : InsertContent :=
  match D.directory n hash with
  | none => .empty
  | some json => .manifest json

lemma onGetInterest_eq_some {keySpace : KeySpaceHandle} {name : L.Name} {i : KeyInterest}
    (h : onGetInterest sha1 keySpace name = some i) :
    i.hash = sha1 (getText name) ∧ keySpace.getManifestStorage i.hash = some i.repo := by
  obtain ⟨repo, hrepo, rfl⟩ := Option.map_eq_some_iff.mp h
  exact ⟨rfl, hrepo⟩

/-- The node that a hash is routed to answers a find from the directory and stays as it is. -/
theorem handleFindCommand_answers (hn : PlacementInv D n) {hash : String} (hy : y ∈ D.nodes)
    (hrouted : D.storage hash = some y) :
    (n.node y).handleFindCommand hash = { node := n.node y, reply := some (D.answer n hash) } := by
  have hkept : D.directory n hash = D.kept n y hash := merged_of_route (Deployment.route_eq_some.mpr ⟨hrouted, hy⟩)
  have hlookup : (n.node y).manifests.files.lookup hash = D.directory n hash := by
    rw [hkept]
    exact (if_pos hy).symm
  unfold InsertNode.handleFindCommand ManifestStore.readManifest Deployment.answer
  rw [hlookup]
  cases hd : D.directory n hash with
  | none => rfl
  | some json =>
    obtain ⟨x, -, name, -, -, -, rfl⟩ := hn.insertedUnder (hkept.symm.trans hd)
    dsimp only
    rw [Deployment.fromJson_manifestOf]

/-- In every run the stored manifests are one directory, which starts empty and to which only the
manifests of accepted inserts are published, and a find is answered from it. -/
theorem network_refines_directory {es us : List (InsertEvent L)} {u : InsertNet L sha1} (hn : D.Fresh n)
    (hmeets : Meets (step (insertNetwork L sha1)) (Regular D) n (es ++ us))
    (ht : run (step (insertNetwork L sha1)) n es = some t) (hu : run (step (insertNetwork L sha1)) t us = some u) :
    Published (InsertedUnder D t) (fun _ => none) (D.directory t) ∧
      Published (InsertedUnder D u) (D.directory t) (D.directory u) ∧
      (∀ key json, D.directory u key = some json ↔ ∃ y ∈ D.nodes, (u.node y).manifests.files.lookup key = some json) ∧
      ∀ hash, ∀ y ∈ D.nodes, D.storage hash = some y →
        (u.node y).handleFindCommand hash = { node := u.node y, reply := some (D.answer u hash) } := by
  have hempty : D.directory n = fun _ => none := by
    funext key
    unfold Deployment.directory merged
    cases hroute : D.route key with
    | none => rfl
    | some y =>
      rw [Option.bind_some, kept_of_mem (Deployment.route_eq_some.mp hroute).2,
        hn.manifests y (Deployment.route_eq_some.mp hroute).2]
      rfl
  obtain ⟨hpt, hdt⟩ := directory_run hn.placementInv (hmeets.of_isPrefix (List.prefix_append es us)) ht
  obtain ⟨hpu, hdu⟩ := directory_run hpt (hmeets.of_append ht) hu
  refine ⟨hempty ▸ hdt, hdu, ?_, fun hash y hy hrouted => handleFindCommand_answers hpu hy hrouted⟩
  intro key json
  rw [Deployment.directory, merged_eq_some_iff hpu.placed]
  constructor
  · rintro ⟨y, hkept⟩
    unfold Deployment.kept at hkept
    split_ifs at hkept with hy
    exact ⟨y, hy, hkept⟩
  · rintro ⟨y, hy, hlookup⟩
    exact ⟨y, (if_pos hy).trans hlookup⟩

/-- What a get finds at one time, every later get finds, whichever nodes they are sent to. -/
theorem found_stays_found {es us : List (InsertEvent L)} {u : InsertNet L sha1} (hn : D.Fresh n)
    (hmeets : Meets (step (insertNetwork L sha1)) (Regular D) n (es ++ us))
    (ht : run (step (insertNetwork L sha1)) n es = some t) (hu : run (step (insertNetwork L sha1)) t us = some u)
    {z z' : String} (hz : z ∈ D.nodes) (hz' : z' ∈ D.nodes) {name : L.Name} {i : KeyInterest}
    (hi : onGetInterest sha1 (t.node z).keySpace name = some i) (hrepo : i.repo ∈ D.nodes)
    (hfound : ((t.node i.repo).handleFindCommand i.hash).reply ≠ some .empty) :
    onGetInterest sha1 (u.node z').keySpace name = some i ∧
      ∃ json, sha1 json.name = sha1 (getText name) ∧
        ((u.node i.repo).handleFindCommand i.hash).reply = some (.manifest json) := by
  obtain ⟨hpt, -⟩ := directory_run hn.placementInv (hmeets.of_isPrefix (List.prefix_append es us)) ht
  obtain ⟨hpu, hdu⟩ := directory_run hpt (hmeets.of_append ht) hu
  obtain ⟨hhash, hstorage⟩ := onGetInterest_eq_some hi
  have hrouted : D.storage i.hash = some i.repo := by
    rw [← (hpt.placedNode hz).settings.getManifestStorage, hstorage]
  have hget : onGetInterest sha1 (u.node z').keySpace name = onGetInterest sha1 (t.node z).keySpace name := by
    unfold onGetInterest
    dsimp only
    rw [(hpu.placedNode hz').settings.getManifestStorage, (hpt.placedNode hz).settings.getManifestStorage]
  refine ⟨hget.trans hi, ?_⟩
  rw [handleFindCommand_answers hpt hrepo hrouted] at hfound
  have hsome : (D.directory t i.hash).isSome := by
    rw [Option.isSome_iff_ne_none]
    intro hnone
    apply hfound
    simp only [Deployment.answer, hnone]
  obtain ⟨json, hjson⟩ := Option.isSome_iff_exists.mp (hdu.isSome hsome)
  rw [handleFindCommand_answers hpu hrepo hrouted]
  refine ⟨json, ?_, by simp only [Deployment.answer, hjson]⟩
  obtain ⟨y, hkept⟩ := (merged_eq_some_iff hpu.placed).mp hjson
  obtain ⟨x, -, inserted, -, -, hkey, rfl⟩ := hpu.insertedUnder hkept
  rw [← hhash, hkey]
  rfl

end Steps

/-! ### A run with one insert -/

/-- Up to the manifest being stored. -/
def filmStored : List (InsertEvent plainNames) := filmThenFilm.take 8

/-- The second command, which finds it. -/
def filmFound : List (InsertEvent plainNames) := filmThenFilm.drop 8

lemma film_runs : Meets (step (insertNetwork plainNames archiveDigest)) (Regular filmDeployment) filmNet
      (filmStored ++ filmFound) ∧
    ∃ t u, run (step (insertNetwork plainNames archiveDigest)) filmNet filmStored = some t ∧
      run (step (insertNetwork plainNames archiveDigest)) t filmFound = some u ∧
      ((t.node "/b/repo").handleFindCommand filmHash).reply = some (.manifest filmManifest) ∧
      onGetInterest archiveDigest (t.node "/a/repo").keySpace [film] = some ⟨"/b/repo", "find", filmHash⟩ := by
  refine ⟨by decide +kernel, ?_⟩
  have hview : (run (step (insertNetwork plainNames archiveDigest)) filmNet filmStored).map
      (fun t => (((t.node "/b/repo").handleFindCommand filmHash).reply,
        onGetInterest archiveDigest (t.node "/a/repo").keySpace [film],
        (run (step (insertNetwork plainNames archiveDigest)) t filmFound).isSome)) =
      some (some (.manifest filmManifest), some ⟨"/b/repo", "find", filmHash⟩, true) := by decide +kernel
  obtain ⟨t, ht, heq⟩ := Option.map_eq_some_iff.mp hview
  obtain ⟨hreply, hrest⟩ := Prod.mk.inj heq
  obtain ⟨hget, hsome⟩ := Prod.mk.inj hrest
  obtain ⟨u, hu⟩ := Option.isSome_iff_exists.mp hsome
  exact ⟨t, u, ht, hu, hreply, hget⟩

/-- The manifest is published between the two states. -/
theorem film_in_directory : ∃ t u,
    run (step (insertNetwork plainNames archiveDigest)) filmNet (filmThenFilm.take 7) = some t ∧
    run (step (insertNetwork plainNames archiveDigest)) t (filmThenFilm.drop 7) = some u ∧
    filmDeployment.directory t filmHash = none ∧ filmDeployment.directory u filmHash = some filmManifest ∧
    Published (InsertedUnder filmDeployment u) (filmDeployment.directory t) (filmDeployment.directory u) := by
  have hmeets : Meets (step (insertNetwork plainNames archiveDigest)) (Regular filmDeployment) filmNet
      (filmThenFilm.take 7 ++ filmThenFilm.drop 7) := film_runs.1
  have hview : ((run (step (insertNetwork plainNames archiveDigest)) filmNet (filmThenFilm.take 7)).any (fun t =>
      decide (filmDeployment.directory t filmHash = none) &&
        (run (step (insertNetwork plainNames archiveDigest)) t (filmThenFilm.drop 7)).any (fun u =>
          decide (filmDeployment.directory u filmHash = some filmManifest)))) = true := by decide +kernel
  obtain ⟨t, ht, hboth⟩ := (Option.any_eq_true _ _).mp hview
  rw [Bool.and_eq_true, decide_eq_true_eq] at hboth
  obtain ⟨hnone, hlater⟩ := hboth
  obtain ⟨u, hu, hsome⟩ := (Option.any_eq_true _ _).mp hlater
  exact ⟨t, u, ht, hu, hnone, of_decide_eq_true hsome, (network_refines_directory filmNet_fresh hmeets ht hu).2.1⟩

theorem film_still_found : ∃ u, run (step (insertNetwork plainNames archiveDigest)) filmNet filmThenFilm = some u ∧
    onGetInterest archiveDigest (u.node "/b/repo").keySpace [film] = some ⟨"/b/repo", "find", filmHash⟩ ∧
    ∃ json, archiveDigest json.name = filmHash ∧
      ((u.node "/b/repo").handleFindCommand filmHash).reply = some (.manifest json) := by
  obtain ⟨hmeets, t, u, ht, hu, hreply, hget⟩ := film_runs
  have hfound : ((t.node "/b/repo").handleFindCommand filmHash).reply ≠ some .empty := by
    rw [hreply]
    decide
  have hz : "/a/repo" ∈ filmDeployment.nodes := by decide
  have hz' : "/b/repo" ∈ filmDeployment.nodes := by decide
  exact ⟨u, run_append_eq_some.mpr ⟨t, ht, hu⟩, found_stays_found filmNet_fresh hmeets ht hu hz hz' hget hz' hfound⟩

end Difs
