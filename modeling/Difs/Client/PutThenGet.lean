import Difs.Client.PutCluster
import Difs.Client.GetFile

/-!
# What was put is got

A file that a client has put to one node of a cluster is what every get of it gets, at whichever
node: the manifest that is found names the node that has the segments. Where nothing is lost, the
manifest is found as soon as nothing is on the way any more.
-/

namespace Difs

open EventRun Exchange WriteHandle

variable {L : NameLibrary} {sha1 : String → String}

/-- The find of a get of the object that is sent to a node. -/
structure FindOfGet (n : RepoNet L sha1) (z : String) (name : L.Name) (i : KeyInterest) (content : InsertContent) :
    Prop where
  get : onGetInterest sha1 (n.node z).insert.keySpace name = some i
  reply : ((n.node i.repo).insert.handleFindCommand i.hash).reply = some content

/-! ### Runs of the cluster -/

def putClusterStart (c : PutClient L) (nodePrefix : Option (List String)) (net : RepoNet L sha1) :
    PutCluster L sha1 where
  net := net
  session := { client := c, mNodePrefix := nodePrefix }

def netEvent : PutClusterEvent L → Option (RepoEvent L)
  | .net e => some e
  | .client _ => none

/-- Insert commands go to nodes of the cluster, ids are drawn once, and the fetchers of the client's node
hand over what they got. Messages may be lost, repeated and reordered. -/
def Orderly (D : Deployment L) (lib : PacketLibrary L) (x : String) (n : PutCluster L sha1) (e : PutClusterEvent L) :
    Prop :=
  (∀ re ∈ netEvent e, RegularRepo D n.net re) ∧ n.HandsOver lib x e

/-- Besides, only finds are lost, and processes are kept until their manifests are stored. -/
def OrderlyReliable (D : Deployment L) (lib : PacketLibrary L) (x : String) (n : PutCluster L sha1)
    (e : PutClusterEvent L) : Prop :=
  (∀ re ∈ netEvent e, ReliableRepo D n.net re) ∧ n.HandsOver lib x e

instance (D : Deployment L) (lib : PacketLibrary L) (x : String) (n : PutCluster L sha1) (e : PutClusterEvent L) :
    Decidable (Orderly D lib x n e) :=
  inferInstanceAs (Decidable ((∀ re ∈ netEvent e, RegularRepo D n.net re) ∧ _))

instance (D : Deployment L) (lib : PacketLibrary L) (x : String) (n : PutCluster L sha1) (e : PutClusterEvent L) :
    Decidable (OrderlyReliable D lib x n e) :=
  inferInstanceAs (Decidable ((∀ re ∈ netEvent e, ReliableRepo D n.net re) ∧ _))

lemma OrderlyReliable.orderly {D : Deployment L} {lib : PacketLibrary L} {x : String} {n : PutCluster L sha1}
    {e : PutClusterEvent L} (h : OrderlyReliable D lib x n e) : Orderly D lib x n e :=
  ⟨fun re he e' he' => ((h.1 re he).1 e' he').1, h.2⟩

section Runs

variable {D : Deployment L} {lib : PacketLibrary L} {x z : String} {n t : PutCluster L sha1} {net : RepoNet L sha1}
  {c : PutClient L} {e : PutClusterEvent L} {es : List (PutClusterEvent L)} {nodePrefix : Option (List String)}

/-- The client leaves the cluster alone. -/
lemma net_of_step (h : n.step lib x e = some t) :
    (∃ re, netEvent e = some re ∧ step (repoNetwork L sha1) n.net re = some t.net) ∨
      netEvent e = none ∧ t.net = n.net := by
  cases e with
  | net re =>
    obtain ⟨net', hnet, rfl⟩ := Option.map_eq_some_iff.mp h
    exact Or.inl ⟨re, rfl, hnet⟩
  | client e =>
    simp only [PutCluster.step, Option.ite_none_right_eq_some, Option.map_eq_some_iff] at h
    obtain ⟨-, v, -, rfl⟩ := h
    exact Or.inr ⟨rfl, rfl⟩

lemma shownInv_start (hn : D.Ready net) (hx : x ∈ D.nodes) (hfull : NoFullNames lib c.mData (net.node x).store) :
    ShownInv lib c x (putClusterStart c nodePrefix net) := by
  have hprocesses : (net.node x).insert.write.mProcesses = fun _ => none := hn.processes x hx
  have hanswers : (net.node x).insert.answers = [] := hn.answers x hx
  have hpending : net.pending = [] := hn.pending
  have hhandle : { (net.node x).insert.write with mProcesses := fun _ => none } = (net.node x).insert.write := by
    rw [← hprocesses]
  have hobjects : (net.node x).objectOf = fun _ => none := by
    funext processId
    unfold RepoNode.objectOf
    rw [hanswers]
    rfl
  refine ⟨putStart c nodePrefix (net.node x).insert.keySpace (net.node x).insert.write (net.node x).store, ?_,
    putInv_start hfull⟩
  refine ⟨rfl, rfl, hobjects.symm, (hn.fetching x hx).symm, ?_, rfl, rfl, fun _ => ?_⟩
  · intro b
    unfold RepoNode.answersFor putClusterStart
    dsimp only
    rw [hanswers, hn.checks x hx]
    rfl
  · unfold putStart writeStart writeNodeAt putClusterStart
    dsimp only
    rw [hhandle, hpending, hn.fetching x hx, hn.deferred x hx, hobjects]
    rfl

lemma placement_of_step (hn : PlacementInv D (RepoNet.inserts n.net)) (hc : Orderly D lib x n e)
    (h : n.step lib x e = some t) : PlacementInv D (RepoNet.inserts t.net) := by
  obtain ⟨re, he, hnet⟩ | ⟨-, heq⟩ := net_of_step h
  · exact hn.repo_step (hc.1 re he) hnet
  · rw [heq]
    exact hn

lemma completion_of_step (hn : CompletionInv D (RepoNet.inserts n.net))
    (hrouted : ∀ name : L.Name, ∃ y ∈ D.nodes, D.storage (insertedKey sha1 name) = some y)
    (hc : OrderlyReliable D lib x n e) (h : n.step lib x e = some t) : CompletionInv D (RepoNet.inserts t.net) := by
  obtain ⟨re, he, hnet⟩ | ⟨-, heq⟩ := net_of_step h
  · exact hn.repo_step hrouted (hc.1 re he) hnet
  · rw [heq]
    exact hn

/-! ### The file -/

/-- No other object has been inserted under the key of this one. -/
def OnlyInserted (D : Deployment L) (m : InsertNet L sha1) (x : String) (name : L.Name) : Prop :=
  ∀ y ∈ D.nodes, ∀ name' processId, InsertAccepted m y name' processId →
    insertedKey sha1 name' = insertedKey sha1 name → y = x ∧ name' = name

/-- A client that has cut a file with a name of one component, the last block of which is not full. What the
names of its packets are stored under differs, and it announces the number of its last segment. -/
structure FileCut (D : Deployment L) (lib : PacketLibrary L) (sha1 : String → String) (c₀ c : PutClient L)
    (object : L.Component) (bytes : List UInt8) : Prop where
  blockSize : 0 < c₀.mBlockSize.toNat
  fresh : c₀.Fresh
  length_lt : bytes.length < 2 ^ 63
  nonempty : bytes ≠ []
  size : PutClient.WholeSize bytes.length c₀.mBlockSize.toNat
  cut : ∃ signature fuel, PutClient.putFile signature fuel c₀ [object] bytes = some (.completed c)
  digests : Set.InjOn (DataStore.getPath sha1) (packetNames lib c.mData)
  announced : D.endBlockId [object] = DeleteHandle.publishedEnd (UInt64.ofNat bytes.length) c₀.mBlockSize

variable {object : L.Component} {bytes : List UInt8} {c₀ : PutClient L} {processId : UInt64} {y : String}

namespace FileCut

lemma published (hc : FileCut D lib sha1 c₀ c object bytes) : PutClient.PublishesWhole [object] bytes c₀.mBlockSize
    (bytes.length / c₀.mBlockSize.toNat : ℕ) c ∧ c.mDataPrefix = [object] := by
  obtain ⟨signature, fuel, hput⟩ := hc.cut
  exact publishesWhole_of_completed hc.blockSize hc.fresh hc.length_lt hc.nonempty hc.size hput

lemma endBlockId (hc : FileCut D lib sha1 c₀ c object bytes) :
    D.endBlockId [object] = (bytes.length / c₀.mBlockSize.toNat : ℕ) := by
  obtain ⟨-, hnil | ⟨hpos, -, hfew⟩⟩ := hc.size
  · exact absurd (List.eq_nil_of_length_eq_zero hnil) hc.nonempty
  rw [hc.announced, PutClient.publishedEnd_eq hc.length_lt (by omega), if_neg hpos.ne', sub_zero]

lemma shownInv_step (hc : FileCut D lib sha1 c₀ c object bytes) (hn : ShownInv lib c x n)
    (he : n.HandsOver lib x e) (h : n.step lib x e = some t) : ShownInv lib c x t := by
  have hnumbers := length_of_published hc.published.1
  exact hn.step (hnumbers.2.trans hnumbers.1.symm) (pathsApart_of_published hc.published.1 hc.digests) he h

end FileCut

/-- The manifest of the file names its node, which has the segments. -/
lemma gets_of_completed {lib : GetLibrary L} (hc : FileCut D lib.toPacketLibrary sha1 c₀ c object bytes)
    (hn : ShownInv lib.toPacketLibrary c x n) (hcompleted : n.session.status = .completed) :
    Gets lib (n.net.node x).store (.manifest ((D.manifestOf x [object]).toJson sha1)) x bytes := by
  obtain ⟨m, hs, hm⟩ := hn
  have hstored : ∀ d ∈ c.mData, StoredPacket lib.toPacketLibrary (n.net.node x).store d := by
    rw [← hs.store]
    exact hm.session.completed (by rw [hs.session, hcompleted])
  have hpublished := hc.published.1
  have hwrites := writesBlocks_of_stored hpublished hstored
  have hnames : (D.manifestOf x [object]).segmentName L = L.appendSegment [object] := by
    funext segmentNo
    rw [Manifest.segmentName, Deployment.manifestOf, insertedName_singleton, L.ofUri_uri]
  have hblocks : (c.mData.map PutData.content).flatten = bytes := by
    rw [← List.flatMap_def]
    exact hpublished.content
  have hlt : (c.mData.map PutData.content).length < 2 ^ 64 := by
    rw [List.length_map, (length_of_published hpublished).1, ← (length_of_published hpublished).2]
    exact c.mCurrentSegmentNo.toNat_lt
  refine ⟨D.manifestOf x [object], L.appendSegment [object], c.mData.map PutData.content,
    Deployment.fromJson_manifestOf x [object], by rw [← hnames]; rfl, hwrites, hblocks, ?_⟩
  intro packets hfetched
  rw [hwrites.inOrder hlt hfetched, hblocks]

/-- What a find of a get is answered with is the manifest of the file. -/
lemma manifest_of_find (ht : PlacementInv D (RepoNet.inserts n.net)) (hz : z ∈ D.nodes)
    (hrouted : ∃ y ∈ D.nodes, D.storage (insertedKey sha1 [object]) = some y)
    (honly : OnlyInserted D (RepoNet.inserts n.net) x [object]) {i : KeyInterest} {content : InsertContent}
    (hfind : FindOfGet n.net z [object] i content) (hfound : content ≠ .empty) :
    content = .manifest ((D.manifestOf x [object]).toJson sha1) := by
  obtain ⟨y, hy, hstorage⟩ := hrouted
  obtain ⟨hget, hmanifest⟩ := ht.found hz hy hstorage
  obtain rfl : i = ⟨y, "find", sha1 (L.uri [object])⟩ := Option.some_inj.mp (hfind.get.symm.trans hget)
  have hreply : ((n.net.node y).insert.handleFindCommand (sha1 (L.uri [object]))).reply = some content := hfind.reply
  cases content with
  | manifest json =>
    obtain ⟨x', hx', name, id, hname, hkey, rfl⟩ := hmanifest json hreply
    obtain ⟨rfl, rfl⟩ := honly x' hx' name id hname (by rw [hkey, insertedKey, insertedName_singleton])
    rfl
  | empty => exact absurd rfl hfound
  | status code | info json =>
    unfold InsertNode.handleFindCommand at hreply
    split at hreply <;> cases hreply

/-- The client has an insert under way: it waits for a check, or has completed. -/
def Waits (s : PutSession L) : Prop := 0 < s.scheduled ∨ (∃ p, .check p ∈ s.commands) ∨ s.status = .completed

/-- An insert of the client's object was answered, and not with an error. -/
def Told (x : String) (n : PutCluster L sha1) : Prop :=
  ∃ a ∈ (n.net.node x).insert.answers, a.parameter = n.session.insertParameter ∧ a.response.code < 400

lemma mem_answersFor {s : RepoNode L sha1} {parameter : RepoCommandParameter L} {response : RepoCommandResponse} :
    (.insert, response) ∈ s.answersFor parameter ↔
      ∃ a ∈ s.insert.answers, a.parameter = parameter ∧ a.response = response := by
  simp [RepoNode.answersFor, and_assoc]

/-- Only the answer to its insert makes a client wait that did not. -/
lemma waits_clientStep {m m' : PutNet L sha1} {e : PutEvent L} (h : m.clientStep lib e = some m')
    (hw : Waits m'.session) :
    Waits m.session ∨ ∃ response, (.insert, response) ∈ m.answers ∧ response.code < 400 := by
  have hinsert : ∀ {s : PutSession L} {p : UInt64}, .check p ∈ s.commands ++ [PutCommand.insert] →
      .check p ∈ s.commands := by
    intro s p hm
    obtain hm | hm := List.mem_append.mp hm
    · exact hm
    · cases List.mem_singleton.mp hm
  have hcheck : ∀ {command}, command ∈ m.session.commands → (∃ p, command = .check p) → Waits m.session := by
    rintro command hm ⟨p, rfl⟩
    exact Or.inr (Or.inl ⟨p, hm⟩)
  cases e with
  | node we => cases h
  | registered =>
    cases h
    obtain hscheduled | ⟨p, hm⟩ | hcompleted := hw
    · exact Or.inl (Or.inl hscheduled)
    · exact Or.inl (Or.inr (Or.inl ⟨p, hinsert hm⟩))
    · exact Or.inl (Or.inr (Or.inr hcompleted))
  | due =>
    simp only [PutNet.clientStep, Option.ite_none_right_eq_some] at h
    exact Or.inl (Or.inl h.1)
  | answered command response =>
    simp only [PutNet.clientStep, Option.ite_none_right_eq_some, Option.some_inj] at h
    obtain ⟨⟨hcommand, hanswer⟩, rfl⟩ := h
    cases command with
    | check p => exact Or.inl (hcheck hcommand ⟨p, rfl⟩)
    | insert =>
      by_cases hcode : response.code < 400
      · exact Or.inr ⟨response, hanswer, hcode⟩
      · left
        unfold PutSession.onResponse PutSession.onPutFileInsertCommandResponse at hw
        dsimp only at hw
        rw [if_pos (by omega)] at hw
        obtain hscheduled | ⟨p, hm⟩ | hcompleted := hw
        · exact Or.inl hscheduled
        · exact Or.inr (Or.inl ⟨p, List.mem_of_mem_erase hm⟩)
        · cases hcompleted
  | failed command =>
    simp only [PutNet.clientStep, Option.ite_none_right_eq_some, Option.some_inj] at h
    obtain ⟨hcommand, rfl⟩ := h
    cases command with
    | check p => exact Or.inl (hcheck hcommand ⟨p, rfl⟩)
    | insert =>
      left
      unfold PutSession.onFailure PutSession.onPutFileInsertCommandTimeout PutSession.retry at hw
      dsimp only at hw
      split_ifs at hw
      · obtain hscheduled | ⟨p, hm⟩ | hcompleted := hw
        · exact Or.inl hscheduled
        · exact Or.inr (Or.inl ⟨p, List.mem_of_mem_erase (hinsert hm)⟩)
        · exact Or.inr (Or.inr hcompleted)
      · obtain hscheduled | ⟨p, hm⟩ | hcompleted := hw
        · exact Or.inl hscheduled
        · exact Or.inr (Or.inl ⟨p, List.mem_of_mem_erase hm⟩)
        · exact Or.inr (Or.inr hcompleted)
  | stop =>
    cases h
    obtain hscheduled | hm | hcompleted := hw
    · exact Or.inl (Or.inl hscheduled)
    · exact Or.inl (Or.inr (Or.inl hm))
    · cases hcompleted
  | fetch processId segmentNo =>
    simp only [PutNet.clientStep, Option.ite_none_right_eq_some, Option.map_eq_some_iff] at h
    obtain ⟨-, reply, -, rfl⟩ := h
    exact Or.inl hw

/-- Nodes forget no answer. -/
lemma answers_repo_step {n t : RepoNet L sha1} {e : RepoEvent L} (h : step (repoNetwork L sha1) n e = some t)
    (x : String) : ∀ a ∈ (n.node x).insert.answers, a ∈ (t.node x).insert.answers := by
  obtain ⟨e', -, hstep⟩ | ⟨y, c, -, hc, -, rfl⟩ := repo_step_cases h
  · exact (node_of_step hstep x).1.answers
  · have hown := ownChange_withNode (m := RepoNet.inserts n) (ownChange_onInput (n.node y) hc) x
    rw [← inserts_update] at hown
    exact hown.settings.answers

lemma told_of_step (hn : Waits n.session → Told x n) (h : n.step lib x e = some t) : Waits t.session → Told x t := by
  intro hw
  cases e with
  | net e =>
    obtain ⟨net', hnet, rfl⟩ := Option.map_eq_some_iff.mp h
    obtain ⟨a, ha, hparameter, hcode⟩ := hn hw
    exact ⟨a, answers_repo_step hnet x a ha, hparameter, hcode⟩
  | client e =>
    simp only [PutCluster.step, Option.ite_none_right_eq_some, Option.map_eq_some_iff] at h
    obtain ⟨-, v, hv, rfl⟩ := h
    have hparameter := insertParameter_clientStep hv
    obtain ⟨a, ha, hsame, hcode⟩ : Told x n := by
      obtain hwaits | ⟨response, hm, hcode⟩ := waits_clientStep hv hw
      · exact hn hwaits
      · obtain ⟨a, ha, hsame, rfl⟩ := mem_answersFor.mp hm
        exact ⟨a, ha, hsame, hcode⟩
    exact ⟨a, ha, hsame.trans hparameter.symm, hcode⟩

lemma objectOf_eq_some {s : RepoNode L sha1} {name : L.Name} (h : s.objectOf processId = some name) :
    ∃ a ∈ s.insert.answers, a.response.code = 100 ∧ a.response.processId = some processId := by
  obtain ⟨a, ha, -⟩ := Option.map_eq_some_iff.mp h
  obtain ⟨hm, hp⟩ := List.mem_filter.mp (List.mem_of_getLast? ha)
  rw [decide_eq_true_eq] at hp
  exact ⟨a, hm, hp.1, hp.2⟩

/-- The insert of a client that has completed was accepted. -/
lemma accepted_of_told (hcompletion : CompletionInv D (RepoNet.inserts n.net)) (hshown : ShownInv lib c x n)
    (hx : x ∈ D.nodes) (htold : Told x n) :
    ∃ a ∈ (n.net.node x).insert.answers, a.response.code = 100 ∧ a.parameter.Single ∧
      a.parameter.name = c.mDataPrefix := by
  obtain ⟨a, ha, hparameter, hcode⟩ := htold
  obtain ⟨m, hs, hm⟩ := hshown
  obtain ⟨p, hid, hobject⟩ := hm.inserts a.response
    ((hs.answers _).mpr (mem_answersFor.mpr ⟨a, ha, hparameter, rfl⟩)) hcode
  rw [hs.objects] at hobject
  obtain ⟨b, hb, hbcode, hbid⟩ := objectOf_eq_some hobject
  obtain ⟨-, rfl⟩ := hcompletion.unique x hx x hx a ha b hb p hid hbid
  refine ⟨a, ha, hbcode, by rw [hparameter]; exact ⟨rfl, rfl⟩, ?_⟩
  rw [hparameter, ← hs.session]
  exact congrArg PutClient.mDataPrefix hm.session.client

end Runs

/-! ### The film in a cluster -/

/-- All digests that occur are routed to a node. -/
def clusterDigest (name : String) : String :=
  if name = "/film" then filmHash
  else if frameDigest name = "" then "17a802ad5959ffcab5693ed26721b55767136a0c" else frameDigest name

/-- The final block is in front of the first slash. -/
def filmLibrary : GetLibrary plainNames where
  toPacketLibrary := filmPackets
  getFinalBlock data := PlainComponent.read (data.content.toList.takeWhile (fun ch => decide (ch ≠ '/')))
  getFinalBlock_encode data := by
    change PlainComponent.read ((String.ofList _).toList.takeWhile _) = _
    rw [String.toList_ofList, (takeWhile_slash (PlainComponent.slash data.finalBlock)).1]
    exact PlainComponent.read_toList data.finalBlock

def filmCluster : RepoNet plainNames clusterDigest where
  node x :=
    { insert := { filmNode (if x = "/b/repo" then "/b" else "/a") with manifests := .empty, objects := fun _ => 2 }
      store := {} }

def threeSegments : Deployment plainNames := { filmDeployment with endBlockId := fun _ => 2 }

def filmClusterStart : PutCluster plainNames clusterDigest := putClusterStart filmCut none filmCluster

def threeManifest : ManifestJson :=
  { name := "/film", hash := filmHash, startBlockId := 0, endBlockId := 2, storages := some [⟨"/a/repo", 0, 2⟩]
    segment := none }

/-- The manifest is fetched while the segments arrive, in another order. -/
def putFilmCluster : List (PutClusterEvent plainNames) :=
  let object := .write (.object [film] none 4000 8)
  let create := .write (.create "/b/repo" filmHash "/a" 4000 8)
  let info := .writeInfo "/a/repo" filmHash 8
  [.client .registered, .net (.input "/a/repo" (.insert (.insert insertFilm))), .net (.request "/a/repo" findFilm),
    .net (.response "/a/repo" findFilm .empty), .client (.answered .insert filmAccepted),
    .net (.request "/a/repo" object), .net (.response "/a/repo" object (.info ⟨"/film", filmHash, 2⟩)),
    .client (.fetch 8 0), .client (.fetch 8 1), .client (.fetch 8 2),
    .net (.input "/a/repo" (.segment 8 (filmPacket 1 "\x03\x04"))),
    .net (.input "/a/repo" (.segment 8 (filmPacket 0 "\x01\x02"))), .net (.request "/a/repo" create),
    .net (.request "/b/repo" info), .net (.input "/a/repo" (.segment 8 (filmPacket 2 "\x05"))),
    .net (.response "/b/repo" info (.manifest threeManifest)), .net (.response "/a/repo" create (.status 200)),
    .client .due, .net (.input "/a/repo" (.check 8)),
    .client (.answered (.check 8) { code := 300, processId := some 8, insertNum := some 3 })]

lemma film_ready : threeSegments.Ready filmCluster where
  requests := rfl
  responses := rfl
  pending := rfl
  announces _ _ _ := rfl
  settings := by
    simp only [threeSegments, filmDeployment, List.forall_mem_cons]
    exact ⟨⟨rfl, rfl, rfl, rfl⟩, ⟨rfl, rfl, rfl, rfl⟩, by simp⟩
  processes _ _ := rfl
  manifests _ _ := rfl
  answers _ _ := rfl
  creates _ _ := rfl
  fetching _ _ := rfl
  deferred _ _ := rfl
  checks _ _ := rfl

lemma film_file : FileCut threeSegments filmLibrary.toPacketLibrary clusterDigest PutClient.filmClient filmCut film
    PutClient.filmBytes where
  blockSize := by decide
  fresh := ⟨rfl, rfl⟩
  length_lt := by decide
  nonempty := by decide
  size := ⟨by decide, Or.inr (by decide)⟩
  cut := ⟨_, _, film_cut⟩
  digests := by
    have hnodup : ((filmCut.mData.flatMap (fun d => [d.name, (filmPackets.encode d).getFullName])).map
        (DataStore.getPath clusterDigest)).Nodup := by decide +kernel
    have hmem : ∀ name ∈ packetNames filmPackets filmCut.mData,
        name ∈ filmCut.mData.flatMap (fun d => [d.name, (filmPackets.encode d).getFullName]) := by
      intro name ⟨d, hd, hname⟩
      exact List.mem_flatMap.mpr ⟨d, hd, by simpa using hname⟩
    intro name hname other hother hpath
    exact List.inj_on_of_nodup_map hnodup (hmem name hname) (hmem other hother) hpath
  announced := by decide +kernel

lemma clusterDigest_routed (name : plainNames.Name) : ∃ y ∈ threeSegments.nodes,
    threeSegments.storage (insertedKey clusterDigest name) = some y := by
  have hframe : ∀ text digest, digest = frameDigest text → ∃ y ∈ threeSegments.nodes, threeSegments.storage
      (if digest = "" then "17a802ad5959ffcab5693ed26721b55767136a0c" else digest) = some y := by
    intro text digest hdigest
    unfold frameDigest at hdigest
    simp only [List.lookup] at hdigest
    repeat' split at hdigest
    all_goals
      subst hdigest
      decide +kernel
  unfold insertedKey clusterDigest
  split
  · exact ⟨"/b/repo", by decide, by decide +kernel⟩
  · exact hframe _ _ rfl

lemma film_reliable : Meets (PutCluster.step filmPackets "/a/repo")
    (OrderlyReliable threeSegments filmPackets "/a/repo") filmClusterStart putFilmCluster := by decide +kernel

lemma film_orderly : Meets (PutCluster.step filmPackets "/a/repo") (Orderly threeSegments filmPackets "/a/repo")
    filmClusterStart putFilmCluster :=
  meets_iff.mpr (fun ds e us t heq hrun => (meets_iff.mp film_reliable ds e us t heq hrun).orderly)

lemma film_cluster_run : ∃ t, run (PutCluster.step filmPackets "/a/repo") filmClusterStart putFilmCluster = some t ∧
    t.session.status = .completed ∧ t.net.requests = [] ∧ t.net.responses = [] ∧
    OnlyInserted threeSegments (RepoNet.inserts t.net) "/a/repo" [film] ∧
    FindOfGet t.net "/a/repo" [film] ⟨"/b/repo", "find", filmHash⟩ (.manifest threeManifest) := by
  have hview : ((run (PutCluster.step filmPackets "/a/repo") filmClusterStart putFilmCluster).any (fun t =>
      decide (t.session.status = .completed) && t.net.requests.isEmpty && t.net.responses.isEmpty &&
        decide ((t.net.node "/a/repo").insert.answers = [filmAnswer filmAccepted]) &&
        (t.net.node "/b/repo").insert.answers.isEmpty &&
        decide (onGetInterest clusterDigest (t.net.node "/a/repo").insert.keySpace [film] =
          some ⟨"/b/repo", "find", filmHash⟩) &&
        decide (((t.net.node "/b/repo").insert.handleFindCommand filmHash).reply = some (.manifest threeManifest)))) =
      true := by decide +kernel
  obtain ⟨t, ht, hall⟩ := (Option.any_eq_true _ _).mp hview
  simp only [Bool.and_eq_true, decide_eq_true_eq, List.isEmpty_iff] at hall
  obtain ⟨⟨⟨⟨⟨⟨hstatus, hrequests⟩, hresponses⟩, ha⟩, hb⟩, hget⟩, hreply⟩ := hall
  refine ⟨t, ht, hstatus, hrequests, hresponses, ?_, ⟨hget, hreply⟩⟩
  intro y hy name processId ⟨a, hmem, haccepts⟩ _
  change a ∈ (t.net.node y).insert.answers at hmem
  simp only [threeSegments, filmDeployment, List.mem_cons, List.not_mem_nil, or_false] at hy
  obtain rfl | rfl := hy
  · rw [ha, List.mem_singleton] at hmem
    refine ⟨rfl, ?_⟩
    rw [← haccepts.name, hmem]
    rfl
  · rw [hb] at hmem
    cases hmem

end Difs
