import Difs.Client.PutCompletion
import Difs.Insert.RepoNode

/-!
# Putting a file to a cluster

The client of a put and all nodes of a cluster. The prefix of its commands leads the client to one
node, and that node takes the same steps as one that is alone with its clients: what the other
nodes answer to it is one of the answers that it may get there.
-/

namespace Difs

open EventRun Exchange WriteHandle

variable {L : NameLibrary} {sha1 : String → String}

/-! ### A node of the cluster as its client sees it -/

/-- The object of the process that has got the id. -/
def RepoNode.objectOf (s : RepoNode L sha1) (processId : UInt64) : Option L.Name :=
  ((s.insert.answers.filter (fun a => a.response.code = 100 ∧ a.response.processId = some processId)).getLast?).map
    (fun a => a.parameter.name)

/-- The answers to inserts with that parameter and to checks. -/
def RepoNode.answersFor (s : RepoNode L sha1) (parameter : RepoCommandParameter L) :
    List (PutCommand × RepoCommandResponse) :=
  (s.insert.answers.filter (fun a => a.parameter = parameter)).map (fun a => (.insert, a.response)) ++
    s.checks.map (fun c => (.check c.1, c.2))

def writeOf (x : String) (p : String × InsertInterest L) : Option (WriteInterest L) :=
  match p.2 with
  | .write i => if p.1 = x then some i else none
  | .writeInfo _ _ _ => none

/-- The write handle of a node with what its handlers wait for. `sent` and `built` are read by no handler. -/
def writeNodeAt (n : RepoNet L sha1) (x : String) (sent : List (WriteInterest L)) (built : List (BuiltManifest L)) :
    WriteNode L sha1 where
  keySpace := (n.node x).insert.keySpace
  handle := (n.node x).insert.write
  store := (n.node x).store
  pending := n.pending.filterMap (writeOf x)
  fetching := (n.node x).fetching
  deferred := (n.node x).deferred
  sent := sent
  objects := (n.node x).objectOf
  built := built

def InsertContent.writeContent : InsertContent → WriteContent
  | .empty => .empty
  | .info json => .info json
  | _ => .other

/-- What an input is for the write handle. -/
def RepoNode.inputEvent (s : RepoNode L sha1) : RepoInput L → Option (WriteEvent L)
  | .insert (.insert parameter) => some (.insert s.insert.received.length parameter)
  | .insert (.expire _) => none
  | .segment processId data =>
    if processId ∈ s.fetching then some (.segment processId data s.insert.now) else none
  | .segmentTimeout processId => if processId ∈ s.fetching then some (.segmentTimeout processId) else none
  | .check processId => some (.check processId s.insert.now)
  | .deleteProcess processId => if processId ∈ s.deferred then some (.deleteProcess processId) else none

/-- What an event is for the write handle of the node `x`. -/
def nodeEvent (x : String) (n : RepoNet L sha1) : RepoEvent L → Option (WriteEvent L)
  | .input y c => if y = x then (n.node x).inputEvent c else none
  | .request _ (.writeInfo repo _ processId) => if repo = x then some (.info processId) else none
  | .response y (.write i) d =>
    if y = x ∧ (x, .write i) ∈ n.pending then
      some (.data i d.writeContent true (n.node x).insert.newId
        (n.node x).insert.now)
    else none
  | .timeout y (.write i) => if y = x then some (.timeout i) else none
  | _ => none

/-! ### The cluster and the client -/

/-- What the client has put for fetchers, and the names that processes got, are as in `PutNet`. -/
structure PutCluster (L : NameLibrary) (sha1 : String → String) where
  net : RepoNet L sha1
  session : PutSession L
  fetched : List (UInt64 × Data L) := []
  handed : UInt64 → List L.Name := fun _ => []

inductive PutClusterEvent (L : NameLibrary) where
  | net (e : RepoEvent L)
  | client (e : PutEvent L)

namespace PutCluster

variable (lib : PacketLibrary L) (x : String)

/-- The client and the node `x`. -/
def view (n : PutCluster L sha1) : PutNet L sha1 where
  session := n.session
  node := writeNodeAt n.net x [] []
  answers := (n.net.node x).answersFor n.session.insertParameter
  fetched := n.fetched
  handed := n.handed

def handedAfter (n : PutCluster L sha1) (e : RepoEvent L) : UInt64 → List L.Name :=
  match nodeEvent x n.net e with
  | some we => (n.view x).handedAfter we
  | none => n.handed

/-- The client takes the steps that it takes at the node `x`. -/
def step (n : PutCluster L sha1) : PutClusterEvent L → Option (PutCluster L sha1)
  | .net e =>
    (Exchange.step (repoNetwork L sha1) n.net e).map (fun net => { n with net := net, handed := n.handedAfter x e })
  | .client e =>
    if n.session.status = .running then
      ((n.view x).clientStep lib e).map (fun m => { n with session := m.session, fetched := m.fetched })
    else none

/-- The fetchers of the node `x` hand over what they got, as for a node that is alone. -/
def HandsOver (n : PutCluster L sha1) : PutClusterEvent L → Prop
  | .net e => ∀ we ∈ nodeEvent x n.net e, FetchersHandOver lib (n.view x) (.node we)
  | .client _ => True

instance (n : PutCluster L sha1) : DecidablePred (n.HandsOver lib x)
  | .net e => inferInstanceAs (Decidable (∀ we ∈ nodeEvent x n.net e, _))
  | .client _ => inferInstanceAs (Decidable True)

end PutCluster

/-! ### The messages of one node -/

section Pending

variable {x y : String} {i : WriteInterest L} {p : String × InsertInterest L} {ps : List (String × InsertInterest L)}

lemma writeOf_eq_some : writeOf x p = some i ↔ p = (x, .write i) := by
  obtain ⟨y, a⟩ := p
  cases a with
  | write j =>
    simp only [writeOf, Option.ite_none_right_eq_some, Option.some_inj, Prod.mk.injEq, InsertInterest.write.injEq]
  | writeInfo repo hash processId => simp [writeOf]

lemma mem_writesOf : i ∈ ps.filterMap (writeOf x) ↔ (x, .write i) ∈ ps := by
  rw [List.mem_filterMap]
  constructor
  · rintro ⟨p, hp, heq⟩
    rw [← writeOf_eq_some.mp heq]
    exact hp
  · intro hp
    exact ⟨_, hp, writeOf_eq_some.mpr rfl⟩

lemma writesOf_erase : (ps.erase (x, .write i)).filterMap (writeOf x) = (ps.filterMap (writeOf x)).erase i := by
  induction ps with
  | nil => rfl
  | cons p ps ih =>
    by_cases hp : p = (x, .write i)
    · subst hp
      rw [List.erase_cons_head, List.filterMap_cons_some (writeOf_eq_some.mpr rfl), List.erase_cons_head]
    · rw [List.erase_cons_tail (by simpa using hp)]
      cases ho : writeOf x p with
      | none => rw [List.filterMap_cons_none ho, List.filterMap_cons_none ho, ih]
      | some j =>
        have hj : j ≠ i := by
          rintro rfl
          exact hp (writeOf_eq_some.mp ho)
        rw [List.filterMap_cons_some ho, List.filterMap_cons_some ho, ih, List.erase_cons_tail (by simpa using hj)]

/-- What is not of the write handle of the node does not count. -/
lemma writesOf_erase_of_none (hp : writeOf x p = none) :
    (ps.erase p).filterMap (writeOf x) = ps.filterMap (writeOf x) := by
  induction ps with
  | nil => rfl
  | cons q ps ih =>
    by_cases hq : q = p
    · rw [hq, List.erase_cons_head, List.filterMap_cons_none hp]
    · rw [List.erase_cons_tail (by simpa using hq), List.filterMap_cons, List.filterMap_cons, ih]

lemma writesOf_sent (x : String) (is : List (WriteInterest L)) :
    ((is.map InsertInterest.write).map (fun a => (x, a))).filterMap (writeOf x) = is := by
  rw [List.map_map, List.filterMap_map]
  have hsome : writeOf x ∘ ((fun a => (x, a)) ∘ InsertInterest.write) = (some : WriteInterest L → _) := by
    funext i
    exact writeOf_eq_some.mpr rfl
  rw [hsome]
  exact List.filterMap_some

lemma writesOf_of_ne (hy : y ≠ x) (as : List (InsertInterest L)) :
    (as.map (fun a => (y, a))).filterMap (writeOf x) = [] := by
  rw [List.filterMap_eq_nil_iff]
  intro p hp
  obtain ⟨a, -, rfl⟩ := List.mem_map.mp hp
  cases a with
  | write i => exact if_neg hy
  | writeInfo repo hash processId => rfl

end Pending

/-! ### A node takes the steps that it takes alone -/

section Alone

variable {lib : PacketLibrary L} {x y : String} {n t : PutCluster L sha1} {net net' : RepoNet L sha1}
  {m : PutNet L sha1} {w : WriteNode L sha1} {o : WriteOutcome L} {e : RepoEvent L} {we : WriteEvent L}
  {a : InsertInterest L}
  {d : InsertContent} {sent : List (WriteInterest L)} {built : List (BuiltManifest L)}

/-- The node `x` of `net'` is what `w` is after a handler. -/
structure Follows (x : String) (w : WriteNode L sha1) (o : WriteOutcome L) (net' : RepoNet L sha1) : Prop where
  keySpace : (net'.node x).insert.keySpace = w.keySpace
  handle : (net'.node x).insert.write = o.handle
  store : (net'.node x).store = w.store
  pending : net'.pending.filterMap (writeOf x) = w.pending ++ o.sent
  fetching : (net'.node x).fetching = w.fetching ++ o.fetchers.map SegmentFetch.processId
  deferred : (net'.node x).deferred = w.deferred ++ o.deferred
  objects : (net'.node x).objectOf = w.objects

lemma Follows.after (h : Follows x w o net') (hthrew : o.threw = false) :
    w.after o = some (writeNodeAt net' x (w.sent ++ o.sent) w.built) := by
  unfold WriteNode.after writeNodeAt
  rw [if_neg (by rw [hthrew]; exact Bool.false_ne_true), h.keySpace, h.handle, h.store, h.pending, h.fetching,
    h.deferred, h.objects]

/-- What the client sees of the node `x` is the state of a node that is alone with its clients. A
node that a handler has thrown in is seen as before it. -/
structure Shown (x : String) (n : PutCluster L sha1) (m : PutNet L sha1) : Prop where
  session : m.session = n.session
  store : m.node.store = (n.net.node x).store
  objects : m.node.objects = (n.net.node x).objectOf
  fetching : m.node.fetching = (n.net.node x).fetching
  answers : ∀ b, b ∈ m.answers ↔ b ∈ (n.net.node x).answersFor n.session.insertParameter
  fetched : m.fetched = n.fetched
  handed : m.handed = n.handed
  live : (n.net.node x).insert.live → m.node = writeNodeAt n.net x m.node.sent m.node.built

/-- An event that the node `x` has nothing to do with, or that it does not survive. -/
lemma Shown.of_same (hs : Shown x n m) (hstore : (net'.node x).store = (n.net.node x).store)
    (hobjects : (net'.node x).objectOf = (n.net.node x).objectOf)
    (hfetching : (net'.node x).fetching = (n.net.node x).fetching)
    (hanswers : ∀ parameter, (net'.node x).answersFor parameter = (n.net.node x).answersFor parameter)
    (hlive : (net'.node x).insert.live → (n.net.node x).insert.live ∧ ∀ sent built,
      writeNodeAt net' x sent built = writeNodeAt n.net x sent built) :
    Shown x { n with net := net', handed := n.handed } m where
  session := hs.session
  store := hs.store.trans hstore.symm
  objects := hs.objects.trans hobjects.symm
  fetching := hs.fetching.trans hfetching.symm
  answers b := by
    rw [hanswers]
    exact hs.answers b
  fetched := hs.fetched
  handed := hs.handed
  live h := by
    rw [(hlive h).2]
    exact hs.live (hlive h).1

lemma answersTo_eq (hs : Shown x n m) (hlive : (n.net.node x).insert.live) :
    m.answersTo we = (n.view x).answersTo we := by
  have hhandle : m.node.handle = (n.view x).node.handle := by
    rw [hs.live hlive]
    rfl
  unfold PutNet.answersTo
  rw [hhandle, hs.session]
  rfl

lemma handedAfter_eq_view (hs : Shown x n m) (hlive : (n.net.node x).insert.live) :
    m.handedAfter we = (n.view x).handedAfter we := by
  have hhandle : m.node.handle = (n.view x).node.handle := by
    rw [hs.live hlive]
    rfl
  unfold PutNet.handedAfter
  rw [hhandle, hs.handed]
  rfl

/-- A step that the node `x` takes. -/
lemma Shown.of_writeStep (hs : Shown x n m) (hlive : (n.net.node x).insert.live)
    (hstep : ∀ sent built, ∃ sent' built',
      writeStep (writeNodeAt n.net x sent built) we = some (writeNodeAt net' x sent' built'))
    (hanswers : ∀ b, b ∈ (net'.node x).answersFor n.session.insertParameter ↔
      b ∈ (n.net.node x).answersFor n.session.insertParameter ∨ b ∈ (n.view x).answersTo we) :
    ∃ m', m.step lib (.node we) = some m' ∧
      Shown x { n with net := net', handed := (n.view x).handedAfter we } m' := by
  obtain ⟨sent', built', hnode⟩ := hstep m.node.sent m.node.built
  rw [← hs.live hlive] at hnode
  refine ⟨_, Option.map_eq_some_iff.mpr ⟨_, hnode, rfl⟩, ?_⟩
  refine ⟨hs.session, rfl, rfl, rfl, ?_, hs.fetched, handedAfter_eq_view hs hlive, fun _ => rfl⟩
  intro b
  dsimp only
  rw [List.mem_append, hs.answers b, hanswers b, answersTo_eq hs hlive]

/-! #### Where the node has nothing to do -/

lemma Shown.of_node (hs : Shown x n m) (hnode : net'.node x = n.net.node x)
    (hpending : net'.pending.filterMap (writeOf x) = n.net.pending.filterMap (writeOf x)) :
    Shown x { n with net := net', handed := n.handed } m := by
  refine hs.of_same (by rw [hnode]) (by rw [hnode]) (by rw [hnode]) (fun parameter => by rw [hnode]) ?_
  intro hlive
  rw [hnode] at hlive
  refine ⟨hlive, fun sent built => ?_⟩
  unfold writeNodeAt
  rw [hnode, hpending]

lemma node_absorb_of_ne (hy : y ≠ x) (net : RepoNet L sha1) (r : RepoNode.Result L sha1) :
    (net.absorb y r).node x = net.node x := Function.update_of_ne hy.symm ..

lemma pending_absorb_silent {r : RepoNode.Result L sha1} (hsent : r.sent = []) :
    (net.absorb y r).pending = net.pending := by
  unfold Net.absorb
  rw [hsent]
  exact List.append_nil _

lemma writesOf_absorb_of_ne (hy : y ≠ x) (net : RepoNet L sha1) (r : RepoNode.Result L sha1) :
    (net.absorb y r).pending.filterMap (writeOf x) = net.pending.filterMap (writeOf x) := by
  unfold Net.absorb
  rw [List.filterMap_append, writesOf_of_ne hy, List.append_nil]

/-- A reaction of the node `x` that answers nothing, and leaves its write handle alone or dies of it. -/
lemma Shown.of_withInsert (hs : Shown x n m) {b : RepoNet L sha1} {insert : InsertNode L sha1}
    {r : RepoNode.Result L sha1} (hr : r.node = (n.net.node x).withInsert insert)
    (hanswers : insert.answers = (n.net.node x).insert.answers)
    (hlive : insert.live → (n.net.node x).insert.live ∧ insert.keySpace = (n.net.node x).insert.keySpace ∧
      insert.write = (n.net.node x).insert.write ∧
      (b.absorb x r).pending.filterMap (writeOf x) = n.net.pending.filterMap (writeOf x)) :
    Shown x { n with net := b.absorb x r, handed := n.handed } m := by
  have hnode : (b.absorb x r).node x = (n.net.node x).withInsert insert := (Function.update_self ..).trans hr
  have hobjects : ((n.net.node x).withInsert insert).objectOf = (n.net.node x).objectOf := by
    funext processId
    unfold RepoNode.objectOf RepoNode.withInsert
    rw [hanswers]
  refine hs.of_same (by rw [hnode]; rfl) (by rw [hnode, hobjects]) (by rw [hnode]; rfl) ?_ ?_
  · intro parameter
    rw [hnode]
    unfold RepoNode.answersFor RepoNode.withInsert
    rw [hanswers]
  · intro h
    rw [hnode] at h
    obtain ⟨hold, hkeySpace, hwrite, hpending⟩ := hlive h
    refine ⟨hold, fun sent built => ?_⟩
    unfold writeNodeAt
    rw [hnode, hobjects, hpending]
    unfold RepoNode.withInsert
    rw [hkeySpace, hwrite]

/-! #### Handlers of the write handle -/

lemma Follows.of_absorb {b : RepoNet L sha1} {r : RepoNode.Result L sha1}
    (hkeySpace : r.node.insert.keySpace = w.keySpace) (hhandle : r.node.insert.write = o.handle)
    (hstore : r.node.store = w.store)
    (hpending : b.pending.filterMap (writeOf x) = w.pending)
    (hsent : r.sent = o.sent.map .write)
    (hfetching : r.node.fetching = w.fetching ++ o.fetchers.map SegmentFetch.processId)
    (hdeferred : r.node.deferred = w.deferred ++ o.deferred) (hobjects : r.node.objectOf = w.objects) :
    Follows x w o (b.absorb x r) := by
  have hnode : (b.absorb x r).node x = r.node := Function.update_self ..
  refine ⟨by rw [hnode, hkeySpace], by rw [hnode, hhandle], by rw [hnode, hstore], ?_, by rw [hnode, hfetching],
    by rw [hnode, hdeferred], by rw [hnode, hobjects]⟩
  unfold Net.absorb
  rw [List.filterMap_append, hpending, hsent, writesOf_sent]

/-- The node goes on as when it is alone, or it does not survive the handler. -/
def ShownAfter (lib : PacketLibrary L) (x : String) (n : PutCluster L sha1) (m : PutNet L sha1) (we : WriteEvent L)
    (net' : RepoNet L sha1) : Prop :=
  Shown x { n with net := net', handed := (n.view x).handedAfter we } m ∨
    ∃ m', m.step lib (.node we) = some m' ∧ Shown x { n with net := net', handed := (n.view x).handedAfter we } m'

/-- A handler that leaves what the client sees of the node alone where it throws. -/
lemma Shown.of_after (hs : Shown x n m) (hlive : (n.net.node x).insert.live)
    {w : List (WriteInterest L) → List (BuiltManifest L) → WriteNode L sha1}
    (hstep : ∀ sent built, writeStep (writeNodeAt n.net x sent built) we = (w sent built).after o)
    (hfollows : ∀ sent built, Follows x (w sent built) o net')
    (hanswers : ∀ b, b ∈ (net'.node x).answersFor n.session.insertParameter ↔
      b ∈ (n.net.node x).answersFor n.session.insertParameter ∨ b ∈ (n.view x).answersTo we)
    (hdead : o.threw = true → Shown x { n with net := net', handed := (n.view x).handedAfter we } m) :
    ShownAfter lib x n m we net' := by
  cases hthrew : o.threw with
  | true => exact Or.inl (hdead hthrew)
  | false =>
    exact Or.inr (hs.of_writeStep hlive
      (fun sent built => ⟨_, _, (hstep sent built).trans ((hfollows sent built).after hthrew)⟩) hanswers)

/-! #### Inputs -/

lemma handleInsertCommand_nothing (sha1 : String → String) (h : WriteHandle L) (keySpace : KeySpaceHandle) (k : ℕ)
    (parameter : RepoCommandParameter L) : (h.handleInsertCommand sha1 keySpace k parameter).fetchers = [] ∧
      (h.handleInsertCommand sha1 keySpace k parameter).deferred = [] := by
  unfold handleInsertCommand
  split
  · exact ⟨rfl, rfl⟩
  · dsimp only
    split <;> exact ⟨rfl, rfl⟩

/-- `afterWrite` lets a node live that has not thrown. -/
lemma not_live_of_threw (hthrew : o.threw = true) : ¬ (!o.threw) = true := by
  rw [hthrew]
  exact Bool.false_ne_true

lemma Shown.insert (hs : Shown x n m) (hlive : (n.net.node x).insert.live) (parameter : RepoCommandParameter L) :
    ShownAfter lib x n m (.insert (n.net.node x).insert.received.length parameter)
      (n.net.absorb x ((n.net.node x).onInput (.insert (.insert parameter)))) := by
  obtain ⟨hfetchers, hdeferred⟩ := handleInsertCommand_nothing sha1 (n.net.node x).insert.write
    (n.net.node x).insert.keySpace (n.net.node x).insert.received.length parameter
  refine hs.of_after (o := (n.net.node x).insert.write.handleInsertCommand sha1 (n.net.node x).insert.keySpace
    (n.net.node x).insert.received.length parameter) hlive (fun _ _ => rfl) ?_ ?_ ?_
  · intro sent built
    refine .of_absorb rfl rfl rfl rfl rfl ?_ ?_ rfl
    · rw [hfetchers]
      exact (List.append_nil _).symm
    · rw [hdeferred]
      exact (List.append_nil _).symm
  · intro b
    rw [show (n.net.absorb x _).node x = _ from Function.update_self ..]
    exact (or_iff_left List.not_mem_nil).symm
  · intro hthrew
    refine hs.of_withInsert rfl rfl (fun hlive' => ?_)
    exact absurd hlive' (not_live_of_threw hthrew)

lemma onSegmentData_nothing (h : WriteHandle L) (store : DataStore L sha1) (data : Data L) (processId : UInt64)
    (now : ℕ) : (h.onSegmentData store data processId now).1.fetchers = [] ∧
      (h.onSegmentData store data processId now).1.sent = [] ∧
      (h.onSegmentData store data processId now).1.threw = false := by
  unfold onSegmentData
  split
  · exact ⟨rfl, rfl, rfl⟩
  · dsimp only
    split_ifs <;> exact ⟨rfl, rfl, rfl⟩

lemma Shown.segment (hs : Shown x n m) (hlive : (n.net.node x).insert.live) {processId : UInt64} (data : Data L)
    (hm : processId ∈ (n.net.node x).fetching) :
    ShownAfter lib x n m (.segment processId data (n.net.node x).insert.now)
      (n.net.absorb x ((n.net.node x).onInput (.segment processId data))) := by
  let now := (n.net.node x).insert.clock (n.net.node x).insert.draws
  let result := (n.net.node x).insert.write.onSegmentData (n.net.node x).store data processId now
  obtain ⟨hfetchers, hsent, hthrew⟩ := onSegmentData_nothing (n.net.node x).insert.write (n.net.node x).store data
    processId now
  have hinput : (n.net.node x).onInput (.segment processId data) =
      { node := { n.net.node x with
          insert := (n.net.node x).insert.afterWrite result.1, store := result.2
          deferred := (n.net.node x).deferred ++ result.1.deferred } } := if_pos hm
  rw [hinput]
  refine hs.of_after (o := result.1)
    (w := fun sent built => { writeNodeAt n.net x sent built with store := result.2 }) hlive ?_ ?_ ?_ ?_
  · intro sent built
    exact if_pos hm
  · intro sent built
    refine .of_absorb rfl rfl rfl rfl ?_ ?_ rfl rfl
    · rw [hsent]
      rfl
    · rw [hfetchers]
      exact (List.append_nil _).symm
  · intro b
    rw [show (n.net.absorb x _).node x = _ from Function.update_self ..]
    exact (or_iff_left List.not_mem_nil).symm
  · intro h
    rw [hthrew] at h
    cases h

lemma Shown.segmentTimeout (hs : Shown x n m) (hlive : (n.net.node x).insert.live) {processId : UInt64}
    (hm : processId ∈ (n.net.node x).fetching) : ShownAfter lib x n m (.segmentTimeout processId)
      (n.net.absorb x ((n.net.node x).onInput (.segmentTimeout processId))) := by
  have hinput : (n.net.node x).onInput (.segmentTimeout processId) =
      { node := (n.net.node x).withInsert
          ((n.net.node x).insert.afterWrite ((n.net.node x).insert.write.onSegmentTimeout processId)) } := if_pos hm
  rw [hinput]
  refine hs.of_after (o := (n.net.node x).insert.write.onSegmentTimeout processId) (w := writeNodeAt n.net x) hlive
    ?_ ?_ ?_ ?_
  · intro sent built
    exact if_pos hm
  · intro sent built
    exact .of_absorb rfl rfl rfl rfl rfl (List.append_nil _).symm (List.append_nil _).symm rfl
  · intro b
    rw [show (n.net.absorb x _).node x = _ from Function.update_self ..]
    exact (or_iff_left List.not_mem_nil).symm
  · intro h
    cases h

lemma handleCheckCommand_nothing (h : WriteHandle L) (processId : UInt64) (now : ℕ) :
    (h.handleCheckCommand processId now).fetchers = [] ∧ (h.handleCheckCommand processId now).sent = [] ∧
      (h.handleCheckCommand processId now).deferred = [] ∧ (h.handleCheckCommand processId now).threw = false := by
  unfold handleCheckCommand
  split
  · exact ⟨rfl, rfl, rfl, rfl⟩
  · dsimp only
    split_ifs <;> exact ⟨rfl, rfl, rfl, rfl⟩

lemma Shown.check (hs : Shown x n m) (hlive : (n.net.node x).insert.live) (processId : UInt64) :
    ShownAfter lib x n m (.check processId (n.net.node x).insert.now)
      (n.net.absorb x ((n.net.node x).onInput (.check processId))) := by
  obtain ⟨hfetchers, hsent, hdeferred, hthrew⟩ := handleCheckCommand_nothing (n.net.node x).insert.write processId
    (n.net.node x).insert.now
  refine hs.of_after (o := (n.net.node x).insert.write.handleCheckCommand processId
    (n.net.node x).insert.now) hlive (fun _ _ => rfl) ?_ ?_ ?_
  · intro sent built
    refine .of_absorb rfl rfl rfl rfl ?_ ?_ ?_ rfl
    · rw [hsent]
      rfl
    · rw [hfetchers]
      exact (List.append_nil _).symm
    · rw [hdeferred]
      exact (List.append_nil _).symm
  · intro b
    rw [show (n.net.absorb x _).node x = _ from Function.update_self ..]
    unfold RepoNode.answersFor
    simp only [RepoNode.onInput, List.map_append, List.mem_append, or_assoc]
    refine or_congr_right (or_congr_right ?_)
    change b ∈ List.map _ (List.map _ _) ↔ b ∈ List.map _ _
    rw [List.map_map]
    exact Iff.rfl
  · intro h
    rw [hthrew] at h
    cases h

lemma Shown.deleteProcess (hs : Shown x n m) (hlive : (n.net.node x).insert.live) {processId : UInt64}
    (hm : processId ∈ (n.net.node x).deferred) : ShownAfter lib x n m (.deleteProcess processId)
      (n.net.absorb x ((n.net.node x).onInput (.deleteProcess processId))) := by
  have hinput : (n.net.node x).onInput (.deleteProcess processId) =
      { node := { n.net.node x with
          insert := { (n.net.node x).insert with write := (n.net.node x).insert.write.deleteProcess processId }
          deferred := (n.net.node x).deferred.erase processId } } := if_pos hm
  have hnode : (n.net.absorb x ((n.net.node x).onInput (.deleteProcess processId))).node x =
      ((n.net.node x).onInput (.deleteProcess processId)).node := Function.update_self ..
  rw [hinput] at hnode ⊢
  refine Or.inr (hs.of_writeStep hlive ?_ ?_)
  · intro sent built
    refine ⟨sent, built, (if_pos hm).trans ?_⟩
    unfold writeNodeAt
    rw [hnode, pending_absorb_silent rfl]
    rfl
  · intro b
    rw [hnode]
    exact (or_iff_left List.not_mem_nil).symm

/-- What an input does to the node `x`. -/
lemma Shown.input (hs : Shown x n m) (hlive : (n.net.node x).insert.live) (c : RepoInput L) :
    match (n.net.node x).inputEvent c with
    | some we => ShownAfter lib x n m we (n.net.absorb x ((n.net.node x).onInput c))
    | none => Shown x { n with net := n.net.absorb x ((n.net.node x).onInput c), handed := n.handed } m := by
  have hsame : ∀ {c}, (n.net.node x).onInput c = { node := n.net.node x } →
      Shown x { n with net := n.net.absorb x ((n.net.node x).onInput c), handed := n.handed } m := by
    intro c hc
    rw [hc]
    exact hs.of_withInsert rfl rfl (fun _ => ⟨hlive, rfl, rfl, by rw [pending_absorb_silent rfl]⟩)
  cases c with
  | insert c =>
    cases c with
    | insert parameter => exact hs.insert hlive parameter
    | expire processId =>
      exact hs.of_withInsert rfl rfl (fun _ => ⟨hlive, rfl, rfl, by rw [pending_absorb_silent rfl]⟩)
  | segment processId data =>
    unfold RepoNode.inputEvent
    by_cases hm : processId ∈ (n.net.node x).fetching
    · simp only [if_pos hm]
      exact hs.segment hlive data hm
    · simp only [if_neg hm]
      exact hsame (if_neg hm)
  | segmentTimeout processId =>
    unfold RepoNode.inputEvent
    by_cases hm : processId ∈ (n.net.node x).fetching
    · simp only [if_pos hm]
      exact hs.segmentTimeout hlive hm
    · simp only [if_neg hm]
      exact hsame (if_neg hm)
  | check processId => exact hs.check hlive processId
  | deleteProcess processId =>
    unfold RepoNode.inputEvent
    by_cases hm : processId ∈ (n.net.node x).deferred
    · simp only [if_pos hm]
      exact hs.deleteProcess hlive hm
    · simp only [if_neg hm]
      exact hsame (if_neg hm)

/-! #### Messages -/

lemma handleInfoCommand_nothing (sha1 : String → String) (h : WriteHandle L) (processId : UInt64) :
    (h.handleInfoCommand sha1 processId).fetchers = [] ∧ (h.handleInfoCommand sha1 processId).sent = [] ∧
      (h.handleInfoCommand sha1 processId).deferred = [] := by
  unfold handleInfoCommand
  split
  · exact ⟨rfl, rfl, rfl⟩
  · split <;> exact ⟨rfl, rfl, rfl⟩

/-- A write-info Interest is handled by the write handle. -/
lemma Shown.info (hs : Shown x n m) (hlive : (n.net.node x).insert.live) {b : RepoNet L sha1}
    (hpending : b.pending = n.net.pending) (hash : String) (processId : UInt64) :
    ShownAfter lib x n m (.info processId) (b.absorb x ((n.net.node x).onRequest (.writeInfo x hash processId))) := by
  obtain ⟨hfetchers, hsent, hdeferred⟩ := handleInfoCommand_nothing sha1 (n.net.node x).insert.write processId
  refine hs.of_after (o := (n.net.node x).insert.write.handleInfoCommand sha1 processId) hlive (fun _ _ => rfl) ?_ ?_ ?_
  · intro sent built
    refine .of_absorb rfl rfl rfl (by rw [hpending]; rfl) ?_ ?_ ?_ rfl
    · rw [hsent]
      rfl
    · rw [hfetchers]
      exact (List.append_nil _).symm
    · rw [hdeferred]
      exact (List.append_nil _).symm
  · intro c
    rw [show (b.absorb x _).node x = _ from Function.update_self ..]
    exact (or_iff_left List.not_mem_nil).symm
  · intro hthrew
    exact hs.of_withInsert rfl rfl (fun hlive' => absurd hlive' (not_live_of_threw hthrew))

/-- The other Interests are not. -/
lemma Shown.request (hs : Shown x n m) (hlive : (n.net.node x).insert.live) {b : RepoNet L sha1}
    (hpending : b.pending = n.net.pending) (i : WriteInterest L) :
    Shown x { n with net := b.absorb x ((n.net.node x).onRequest (.write i)), handed := n.handed } m := by
  have hsilent : ((n.net.node x).onRequest (.write i)).sent = [] →
      (b.absorb x ((n.net.node x).onRequest (.write i))).pending.filterMap (writeOf x) =
        n.net.pending.filterMap (writeOf x) := by
    intro hsent
    rw [pending_absorb_silent hsent, hpending]
  cases i with
  | find repo hash findId lifetime interest parameter =>
    obtain ⟨hsettings, hwrite, -⟩ := handleFindCommand_node (s := (n.net.node x).insert) hash
    refine hs.of_withInsert rfl unanswering_onRequest.answers (fun _ => ⟨hlive, hsettings.keySpace, hwrite, ?_⟩)
    exact hsilent (handleFindCommand_sent hash)
  | object name nodePrefix lifetime bound =>
    exact hs.of_withInsert rfl rfl (fun _ => ⟨hlive, rfl, rfl, hsilent rfl⟩)
  | create manifestRepo hash clusterPrefix lifetime createId =>
    refine hs.of_withInsert rfl rfl (fun _ => ⟨hlive, rfl, rfl, ?_⟩)
    -- the Interest for the manifest is not one of the write handle
    unfold Net.absorb
    rw [List.filterMap_append, hpending]
    exact List.append_nil _

lemma writeContent_ne_empty (d : InsertContent) : decide (d.writeContent ≠ .empty) = decide (d ≠ .empty) := by
  cases d <;> rfl

lemma writeContent_json (d : InsertContent) : d.writeContent.json = d.json := by
  cases d <;> rfl

lemma fetchersOf_some (o : WriteOutcome L) :
    RepoNode.fetchersOf (some o) = o.fetchers.map SegmentFetch.processId := by
  simp [RepoNode.fetchersOf]

lemma onFindResponse_nothing (h : WriteHandle L) (found : Bool) (parameter : RepoCommandParameter L)
    (processId : UInt64) (now : ℕ) : (h.onFindResponse found parameter processId now).deferred = [] ∧
      (h.onFindResponse found parameter processId now).threw = false := by
  have hsegmented : (h.processSegmentedInsertCommand parameter processId now).deferred = [] ∧
      (h.processSegmentedInsertCommand parameter processId now).threw = false := by
    unfold processSegmentedInsertCommand
    dsimp only
    split_ifs <;> exact ⟨rfl, rfl⟩
  unfold onFindResponse
  dsimp only
  split_ifs
  · exact ⟨rfl, rfl⟩
  · exact hsegmented
  · exact ⟨rfl, rfl⟩
  · exact hsegmented
  · exact ⟨rfl, rfl⟩

/-- The process that the reply to a find starts has the object of its command. -/
lemma objectOf_onFindResponse (s s' : RepoNode L sha1) (found : Bool) (parameter : RepoCommandParameter L)
    (processId : UInt64) (now interest : ℕ) (hanswers : s'.insert.answers = s.insert.answers ++
      (s.insert.write.onFindResponse found parameter processId now).done.toList.map (fun response =>
        ⟨interest, parameter, response⟩)) :
    s'.objectOf = if WriteNode.starts (s.insert.write.onFindResponse found parameter processId now) then
      Function.update s.objectOf processId (some parameter.name) else s.objectOf := by
  have hold : ∀ id, (∀ response, (s.insert.write.onFindResponse found parameter processId now).done = some response →
      ¬ (response.code = 100 ∧ response.processId = some id)) → s'.objectOf id = s.objectOf id := by
    intro id hno
    have hnew : ((s.insert.write.onFindResponse found parameter processId now).done.toList.map (fun response =>
        (⟨interest, parameter, response⟩ : Answer L))).filter (fun a => a.response.code = 100 ∧
          a.response.processId = some id) = [] := by
      rw [List.filter_eq_nil_iff]
      intro a ha
      obtain ⟨response, hdone, rfl⟩ := List.mem_map.mp ha
      simpa using hno response (Option.mem_toList.mp hdone)
    unfold RepoNode.objectOf
    rw [hanswers, List.filter_append, hnew, List.append_nil]
  funext id
  cases hdone : (s.insert.write.onFindResponse found parameter processId now).done with
  | none =>
    rw [hold id (by rw [hdone]; exact fun _ h => by cases h), WriteNode.starts, hdone]
    rfl
  | some response =>
    obtain ⟨hcode, hid⟩ | ⟨hcode, hid⟩ := onFindResponse_told hdone
    · rw [WriteNode.starts, hdone, Option.any_some, decide_eq_true hcode, if_pos rfl]
      by_cases heq : id = processId
      · subst heq
        rw [Function.update_self]
        unfold RepoNode.objectOf
        rw [hanswers, hdone, List.filter_append]
        simp [hcode, hid]
      · rw [Function.update_of_ne heq]
        refine hold id ?_
        intro response' hdone'
        rw [hdone, Option.some_inj] at hdone'
        rw [← hdone', hid, Option.some_inj]
        exact fun h => heq h.2.symm
    · rw [WriteNode.starts, hdone, Option.any_some, decide_eq_false (by rw [hcode]; decide), if_neg Bool.false_ne_true]
      refine hold id ?_
      intro response' hdone'
      rw [hdone, Option.some_inj] at hdone'
      rw [← hdone', hid]
      exact fun h => by cases h.2

/-- The base of an answer that was awaited. -/
def answered (net : RepoNet L sha1) (p : String × InsertInterest L)
    (q : List (String × InsertInterest L × InsertContent)) : RepoNet L sha1 :=
  { net with responses := q, pending := net.pending.erase p }

lemma insertsOf_done (interest : ℕ) (parameter parameter' : RepoCommandParameter L) (l : List RepoCommandResponse) :
    ((l.map (fun response => (⟨interest, parameter, response⟩ : Answer L))).filter (fun a =>
        a.parameter = parameter')).map (fun a => (PutCommand.insert, a.response)) =
      if parameter = parameter' then l.map (fun response => (.insert, response)) else [] := by
  rw [List.filter_map, List.map_map]
  split_ifs with h <;> simp [h, Function.comp_def]

lemma Shown.findResponse (hs : Shown x n m) (hlive : (n.net.node x).insert.live) {repo hash : String}
    {findId : UInt64} {lifetime interest : ℕ} {parameter : RepoCommandParameter L}
    (hm : (x, .write (.find repo hash findId lifetime interest parameter)) ∈ n.net.pending) (d : InsertContent)
    (q : List (String × InsertInterest L × InsertContent)) :
    ShownAfter lib x n m (.data (.find repo hash findId lifetime interest parameter) d.writeContent true
      (n.net.node x).insert.newId (n.net.node x).insert.now)
      ((answered n.net (x, .write (.find repo hash findId lifetime interest parameter)) q).absorb x
        ((n.net.node x).onResponse (.write (.find repo hash findId lifetime interest parameter)) d)) := by
  let i : WriteInterest L := .find repo hash findId lifetime interest parameter
  let o := (n.net.node x).insert.write.onFindResponse (d ≠ .empty) parameter
    (n.net.node x).insert.newId (n.net.node x).insert.now
  let r := (n.net.node x).onResponse (.write i) d
  have hnode : ((answered n.net (x, .write i) q).absorb x r).node x = r.node := Function.update_self ..
  have hanswers : r.node.insert.answers = (n.net.node x).insert.answers ++
      o.done.toList.map (fun response => ⟨interest, parameter, response⟩) := rfl
  obtain ⟨hdeferred, hthrew⟩ := onFindResponse_nothing (n.net.node x).insert.write (d ≠ .empty) parameter
    (n.net.node x).insert.newId (n.net.node x).insert.now
  refine hs.of_after (o := o) (w := fun sent built => { writeNodeAt n.net x sent built with
    pending := (n.net.pending.filterMap (writeOf x)).erase i, objects := r.node.objectOf }) hlive ?_ ?_ ?_ ?_
  · intro sent built
    refine (if_pos (mem_writesOf.mpr hm)).trans ?_
    simp only [WriteNode.onData, WriteNode.onFindData, writeContent_ne_empty]
    rw [objectOf_onFindResponse (n.net.node x) r.node _ _ _ _ _ hanswers]
    rfl
  · intro sent built
    refine .of_absorb rfl rfl rfl writesOf_erase rfl ?_ ?_ rfl
    · exact congrArg _ (fetchersOf_some o)
    · exact ((congrArg _ hdeferred).trans (List.append_nil _)).symm
  · intro b
    rw [hnode]
    have hto : (n.view x).answersTo (.data i d.writeContent true (n.net.node x).insert.newId
        (n.net.node x).insert.now) =
        if parameter = n.session.insertParameter then o.done.toList.map (fun response => (.insert, response))
        else [] := by
      simp only [PutNet.answersTo, i, writeContent_ne_empty]
      rfl
    unfold RepoNode.answersFor
    rw [hanswers, hto, List.filter_append, List.map_append, insertsOf_done]
    simp only [List.mem_append]
    exact or_right_comm
  · intro h
    exact absurd (hthrew.symm.trans h) Bool.false_ne_true

lemma onDataValidated_nothing (sha1 : String → String) (h : WriteHandle L) (keySpace : KeySpaceHandle)
    (nodePrefix : Option (List String)) (json : Option InfoJson) (processId : UInt64) (now : ℕ) :
    (h.onDataValidated sha1 keySpace nodePrefix json processId now).deferred = [] ∧
      ((h.onDataValidated sha1 keySpace nodePrefix json processId now).threw = true →
        (h.onDataValidated sha1 keySpace nodePrefix json processId now).fetchers = []) := by
  have hmanifest : ∀ h : WriteHandle L, (h.writeManifest sha1 keySpace processId).deferred = [] ∧
      (h.writeManifest sha1 keySpace processId).fetchers = [] := by
    intro h
    unfold writeManifest
    dsimp only
    split <;> exact ⟨rfl, rfl⟩
  unfold onDataValidated
  split
  · exact ⟨rfl, fun _ => rfl⟩
  · split
    · exact ⟨rfl, fun _ => rfl⟩
    · dsimp only
      split_ifs
      · exact ⟨rfl, fun _ => rfl⟩
      · exact ⟨rfl, fun h => by cases h⟩
      · exact ⟨(hmanifest _).1, fun _ => (hmanifest _).2⟩
      · exact ⟨rfl, fun h => by cases h⟩

lemma Shown.objectResponse (hs : Shown x n m) (hlive : (n.net.node x).insert.live) {name : L.Name}
    {nodePrefix : Option (List String)} {lifetime : ℕ} {bound : UInt64}
    (hm : (x, .write (.object name nodePrefix lifetime bound)) ∈ n.net.pending) (d : InsertContent)
    (q : List (String × InsertInterest L × InsertContent)) :
    ShownAfter lib x n m (.data (.object name nodePrefix lifetime bound) d.writeContent true
      (n.net.node x).insert.newId (n.net.node x).insert.now)
      ((answered n.net (x, .write (.object name nodePrefix lifetime bound)) q).absorb x
        ((n.net.node x).onResponse (.write (.object name nodePrefix lifetime bound)) d)) := by
  let i : WriteInterest L := .object name nodePrefix lifetime bound
  let o := (n.net.node x).insert.write.onDataValidated sha1 (n.net.node x).insert.keySpace nodePrefix d.json bound
    (n.net.node x).insert.now
  let r := (n.net.node x).onResponse (.write i) d
  have hnode : ((answered n.net (x, .write i) q).absorb x r).node x = r.node := Function.update_self ..
  have hr : r.node = { n.net.node x with
      insert := (n.net.node x).insert.afterWrite o
      fetching := (n.net.node x).fetching ++ o.fetchers.map SegmentFetch.processId } := by
    refine Eq.trans ?_ (congrArg (fun fetchers => { n.net.node x with
      insert := (n.net.node x).insert.afterWrite o
      fetching := (n.net.node x).fetching ++ fetchers }) (fetchersOf_some o))
    cases d <;> rfl
  have hrsent : r.sent = o.sent.map .write := by cases d <;> rfl
  obtain ⟨hdeferred, hthrew⟩ := onDataValidated_nothing sha1 (n.net.node x).insert.write
    (n.net.node x).insert.keySpace nodePrefix d.json bound (n.net.node x).insert.now
  refine hs.of_after (o := o) (w := fun sent built => { writeNodeAt n.net x sent built with
    pending := (n.net.pending.filterMap (writeOf x)).erase i
    built := built ++ (writeNodeAt n.net x sent built).builtBy name bound o }) hlive ?_ ?_ ?_ ?_
  · intro sent built
    refine (if_pos (mem_writesOf.mpr hm)).trans ?_
    simp only [WriteNode.onData, WriteNode.onObjectData, writeContent_json, if_true]
    rfl
  · intro sent built
    refine .of_absorb ?_ ?_ ?_ writesOf_erase hrsent ?_ ?_ ?_ <;> rw [hr] <;> try rfl
    exact ((congrArg _ hdeferred).trans (List.append_nil _)).symm
  · intro b
    rw [hnode, hr]
    exact (or_iff_left List.not_mem_nil).symm
  · intro h
    have hdead : r.node = (n.net.node x).withInsert ((n.net.node x).insert.afterWrite o) := by
      rw [hr, hthrew h]
      exact congrArg (fun fetching => { n.net.node x with
        insert := (n.net.node x).insert.afterWrite o, fetching := fetching }) (List.append_nil _)
    exact hs.of_withInsert hdead rfl (fun hlive' => absurd hlive' (not_live_of_threw h))

/-- An answer or a timeout that the write handle takes no notice of. -/
lemma Shown.settled (hs : Shown x n m) (hlive : (n.net.node x).insert.live) {i : WriteInterest L}
    {r : RepoNode.Result L sha1} (hr : r.node = n.net.node x) (hsent : r.sent = [])
    (q : List (String × InsertInterest L × InsertContent))
    (hstep : ∀ sent built, writeStep (writeNodeAt n.net x sent built) we = some { writeNodeAt n.net x sent built with
      pending := (n.net.pending.filterMap (writeOf x)).erase i })
    (hto : (n.view x).answersTo we = []) :
    ShownAfter lib x n m we ((answered n.net (x, .write i) q).absorb x r) := by
  have hnode : ((answered n.net (x, .write i) q).absorb x r).node x = n.net.node x := (Function.update_self ..).trans hr
  have hpending : ((answered n.net (x, .write i) q).absorb x r).pending = n.net.pending.erase (x, .write i) :=
    pending_absorb_silent hsent
  refine Or.inr (hs.of_writeStep hlive (fun sent built => ⟨sent, built, (hstep sent built).trans ?_⟩) ?_)
  · unfold writeNodeAt
    rw [hnode, hpending, writesOf_erase]
  · intro b
    rw [hnode, hto]
    exact (or_iff_left List.not_mem_nil).symm

lemma withInsert_fetching (s : RepoNode L sha1) (insert : InsertNode L sha1) :
    { s with insert := insert, fetching := s.fetching ++ RepoNode.fetchersOf (none : Option (WriteOutcome L)) } =
      s.withInsert insert :=
  congrArg (fun fetching => { s with insert := insert, fetching := fetching }) (List.append_nil _)

/-- An answer that comes to an Interest of the write handle. -/
lemma Shown.response (hs : Shown x n m) (hlive : (n.net.node x).insert.live) {i : WriteInterest L}
    (hm : (x, .write i) ∈ n.net.pending) (d : InsertContent) (q : List (String × InsertInterest L × InsertContent)) :
    ShownAfter lib x n m (.data i d.writeContent true
      (n.net.node x).insert.newId (n.net.node x).insert.now)
      ((answered n.net (x, .write i) q).absorb x ((n.net.node x).onResponse (.write i) d)) := by
  cases i with
  | find repo hash findId lifetime interest parameter => exact hs.findResponse hlive hm d q
  | object name nodePrefix lifetime bound => exact hs.objectResponse hlive hm d q
  | create manifestRepo hash clusterPrefix lifetime createId =>
    refine hs.settled hlive (withInsert_fetching _ _) rfl q ?_ rfl
    intro sent built
    exact if_pos (mem_writesOf.mpr hm)

/-- The manifest of an insert that another node has accepted. -/
lemma Shown.infoResponse (hs : Shown x n m) (hlive : (n.net.node x).insert.live) (repo hash : String)
    (processId : UInt64) (d : InsertContent) (q : List (String × InsertInterest L × InsertContent)) :
    Shown x { n with
      net := (answered n.net (x, .writeInfo repo hash processId) q).absorb x
        ((n.net.node x).onResponse (.writeInfo repo hash processId) d)
      handed := n.handed } m := by
  obtain ⟨hsettings, hwrite, hsent⟩ : SameSettings (n.net.node x).insert
      ((n.net.node x).insert.onInfoValidated d processId).node ∧ _ ∧ _ := onInfoValidated_node
  refine hs.of_withInsert (withInsert_fetching _ _) (onInfoValidated_unanswering d).answers
    (fun _ => ⟨hlive, hsettings.keySpace, hwrite, ?_⟩)
  rw [pending_absorb_silent hsent]
  exact writesOf_erase_of_none rfl

lemma Shown.timeout (hs : Shown x n m) (hlive : (n.net.node x).insert.live) {i : WriteInterest L}
    (hm : (x, .write i) ∈ n.net.pending) : ShownAfter lib x n m (.timeout i)
      ((answered n.net (x, .write i) n.net.responses).absorb x ((n.net.node x).onTimeout (.write i))) := by
  cases i with
  | find repo hash findId lifetime interest parameter =>
    exact hs.settled hlive rfl rfl _ (fun sent built => if_pos (mem_writesOf.mpr hm)) rfl
  | object name nodePrefix lifetime bound =>
    refine hs.of_after (o := (n.net.node x).insert.write.onTimeout bound)
      (w := fun sent built => { writeNodeAt n.net x sent built with
        pending := (n.net.pending.filterMap (writeOf x)).erase (.object name nodePrefix lifetime bound) }) hlive
      (fun sent built => if_pos (mem_writesOf.mpr hm)) ?_ ?_ ?_
    · intro sent built
      exact .of_absorb rfl rfl rfl writesOf_erase rfl (List.append_nil _).symm (List.append_nil _).symm rfl
    · intro b
      rw [show ((answered n.net (x, .write (.object name nodePrefix lifetime bound)) n.net.responses).absorb x
        ((n.net.node x).onTimeout (.write (.object name nodePrefix lifetime bound)))).node x =
          ((n.net.node x).onTimeout (.write (.object name nodePrefix lifetime bound))).node
        from Function.update_self ..]
      exact (or_iff_left List.not_mem_nil).symm
    · intro h
      cases h
  | create manifestRepo hash clusterPrefix lifetime createId =>
    exact hs.settled hlive rfl rfl _ (fun sent built => if_pos (mem_writesOf.mpr hm)) rfl

lemma Shown.infoTimeout (hs : Shown x n m) (hlive : (n.net.node x).insert.live) (repo hash : String)
    (processId : UInt64) :
    Shown x { n with
      net := (answered n.net (x, .writeInfo repo hash processId) n.net.responses).absorb x
        ((n.net.node x).onTimeout (.writeInfo repo hash processId))
      handed := n.handed } m := by
  refine hs.of_withInsert rfl rfl (fun _ => ⟨hlive, rfl, rfl, ?_⟩)
  rw [pending_absorb_silent rfl]
  exact writesOf_erase_of_none rfl

/-- Whatever happens in the cluster, the node `x` does not notice it, or takes a step of its own, or does
not survive it. -/
lemma Shown.net_step (lib : PacketLibrary L) (hs : Shown x n m) (h : step (repoNetwork L sha1) n.net e = some net') :
    match nodeEvent x n.net e with
    | some we => ShownAfter lib x n m we net'
    | none => Shown x { n with net := net', handed := n.handed } m := by
  cases e with
  | input y c =>
    simp only [step, Option.ite_none_right_eq_some, Option.some_inj] at h
    obtain ⟨hlive, rfl⟩ := h
    by_cases hy : y = x
    · subst hy
      simp only [nodeEvent, if_true]
      exact hs.input hlive c
    · simp only [nodeEvent, if_neg hy]
      exact hs.of_node (node_absorb_of_ne hy _ _) (writesOf_absorb_of_ne hy _ _)
  | request z a =>
    simp only [step, Option.ite_none_right_eq_some, Option.some_inj] at h
    obtain ⟨⟨-, hlive⟩, rfl⟩ := h
    by_cases hy : a.destination = x
    · cases a with
      | write i =>
        subst hy
        have hnone : nodeEvent (InsertInterest.write i).destination n.net (.request z (.write i)) = none := rfl
        rw [hnone]
        refine hs.request hlive ?_ i
        rfl
      | writeInfo repo hash processId =>
        obtain rfl : repo = x := hy
        simp only [nodeEvent, if_true]
        refine hs.info hlive ?_ hash processId
        rfl
    · have hother : nodeEvent x n.net (.request z a) = none := by
        cases a with
        | write i => rfl
        | writeInfo repo hash processId => exact if_neg hy
      rw [hother]
      exact hs.of_node (node_absorb_of_ne hy _ _) (writesOf_absorb_of_ne hy _ _)
  | response y a d =>
    simp only [step, Option.ite_none_right_eq_some] at h
    obtain ⟨⟨-, hlive⟩, h⟩ := h
    by_cases hp : (y, a) ∈ n.net.pending
    · rw [if_pos hp, Option.some_inj] at h
      subst h
      by_cases hy : y = x
      · subst hy
        cases a with
        | write i =>
          simp only [nodeEvent, true_and, if_pos hp]
          exact hs.response hlive hp d _
        | writeInfo repo hash processId => exact hs.infoResponse hlive repo hash processId d _
      · have hother : nodeEvent x n.net (.response y a d) = none := by
          cases a with
          | write i => exact if_neg (fun h => hy h.1)
          | writeInfo repo hash processId => rfl
        rw [hother]
        refine hs.of_node (node_absorb_of_ne hy _ _) ((writesOf_absorb_of_ne hy _ _).trans ?_)
        exact writesOf_erase_of_none (by cases a <;> simp [writeOf, hy])
    · rw [if_neg hp, Option.some_inj] at h
      subst h
      have hother : nodeEvent x n.net (.response y a d) = none := by
        cases a with
        | write i =>
          refine if_neg ?_
          rintro ⟨rfl, hp'⟩
          exact hp hp'
        | writeInfo repo hash processId => rfl
      rw [hother]
      exact hs.of_node rfl rfl
  | timeout y a =>
    simp only [step, Option.ite_none_right_eq_some, Option.some_inj] at h
    obtain ⟨⟨hp, hlive⟩, rfl⟩ := h
    by_cases hy : y = x
    · subst hy
      cases a with
      | write i =>
        simp only [nodeEvent, if_true]
        exact hs.timeout hlive hp
      | writeInfo repo hash processId => exact hs.infoTimeout hlive repo hash processId
    · have hother : nodeEvent x n.net (.timeout y a) = none := by
        cases a with
        | write i => exact if_neg hy
        | writeInfo repo hash processId => rfl
      rw [hother]
      refine hs.of_node (node_absorb_of_ne hy _ _) ((writesOf_absorb_of_ne hy _ _).trans ?_)
      exact writesOf_erase_of_none (by cases a <;> simp [writeOf, hy])
  | repeatRequest | repeatResponse | loseRequest | loseResponse =>
    simp only [step, Option.ite_none_right_eq_some, Option.some_inj] at h
    obtain ⟨-, rfl⟩ := h
    exact hs.of_node rfl rfl

lemma live_of_nodeEvent (hwe : nodeEvent x n.net e = some we) (h : step (repoNetwork L sha1) n.net e = some net') :
    (n.net.node x).insert.live := by
  cases e with
  | input y c =>
    obtain ⟨rfl, -⟩ := Option.ite_none_right_eq_some.mp hwe
    simp only [step, Option.ite_none_right_eq_some] at h
    exact h.1
  | request z a =>
    cases a with
    | write i => cases hwe
    | writeInfo repo hash processId =>
      obtain ⟨rfl, -⟩ := Option.ite_none_right_eq_some.mp hwe
      simp only [step, Option.ite_none_right_eq_some] at h
      exact h.1.2
  | response y a d =>
    cases a with
    | write i =>
      obtain ⟨⟨rfl, -⟩, -⟩ := Option.ite_none_right_eq_some.mp hwe
      simp only [step, Option.ite_none_right_eq_some] at h
      exact h.1.2
    | writeInfo repo hash processId => cases hwe
  | timeout y a =>
    cases a with
    | write i =>
      obtain ⟨rfl, -⟩ := Option.ite_none_right_eq_some.mp hwe
      simp only [step, Option.ite_none_right_eq_some] at h
      exact h.1.2
    | writeInfo repo hash processId => cases hwe
  | _ => cases hwe

/-- What the fetchers of the node hand over does not depend on who looks at it. -/
lemma Shown.handOver (hs : Shown x n m) (hlive : (n.net.node x).insert.live)
    (h : FetchersHandOver lib (n.view x) (.node we)) : FetchersHandOver lib m (.node we) := by
  have hobjects : m.node.objects = (n.view x).node.objects := hs.objects
  have hhandle : m.node.handle = (n.view x).node.handle := by
    rw [hs.live hlive]
    rfl
  have hdrawn : DrawnOnce (n.view x).node we → DrawnOnce m.node we := by
    intro h
    cases we with
    | data i content valid processId now =>
      cases i with
      | find repo hash findId lifetime interest parameter =>
        unfold DrawnOnce
        rw [hhandle, hobjects]
        exact h
      | _ => trivial
    | _ => trivial
  cases we with
  | segment processId data now =>
    unfold FetchersHandOver at h ⊢
    dsimp only at h ⊢
    rw [hobjects, hs.session, hs.fetched, hs.handed]
    exact h
  | _ => exact hdrawn h

/-! ### The steps of the client -/

/-- The client keeps asking for the same object. -/
lemma insertParameter_clientStep {m m' : PutNet L sha1} {e : PutEvent L} (h : m.clientStep lib e = some m') :
    m'.session.insertParameter = m.session.insertParameter := by
  have hretry : ∀ (start : PutSession L → PutSession L) (s : PutSession L),
      (∀ s, (start s).insertParameter = s.insertParameter) → (s.retry start).insertParameter = s.insertParameter := by
    intro start s hstart
    unfold PutSession.retry
    dsimp only
    split_ifs
    · exact hstart _
    · rfl
  cases e with
  | node we => cases h
  | registered | stop =>
    cases h
    rfl
  | due =>
    simp only [PutNet.clientStep, Option.ite_none_right_eq_some, Option.some_inj] at h
    obtain ⟨-, rfl⟩ := h
    rfl
  | answered command response =>
    simp only [PutNet.clientStep, Option.ite_none_right_eq_some, Option.some_inj] at h
    obtain ⟨-, rfl⟩ := h
    cases command with
    | insert =>
      change (PutSession.onPutFileInsertCommandResponse _ response).insertParameter = _
      unfold PutSession.onPutFileInsertCommandResponse
      split_ifs <;> rfl
    | check processId =>
      change (PutSession.onPutFileCheckCommandResponse _ response).insertParameter = _
      unfold PutSession.onPutFileCheckCommandResponse
      split_ifs <;> rfl
  | failed command =>
    simp only [PutNet.clientStep, Option.ite_none_right_eq_some, Option.some_inj] at h
    obtain ⟨-, rfl⟩ := h
    cases command with
    | insert => exact hretry _ _ (fun _ => rfl)
    | check processId => exact hretry _ _ (fun _ => rfl)
  | fetch processId segmentNo =>
    simp only [PutNet.clientStep, Option.ite_none_right_eq_some, Option.map_eq_some_iff] at h
    obtain ⟨-, reply, -, rfl⟩ := h
    rfl

/-- A step of the client depends on what is shown to it alone. -/
lemma Shown.clientStep (hs : Shown x n m) {e : PutEvent L} {v : PutNet L sha1}
    (h : (n.view x).clientStep lib e = some v) : ∃ m', m.clientStep lib e = some m' ∧
      Shown x { n with session := v.session, fetched := v.fetched } m' := by
  have hshown : ∀ (session : PutSession L) (fetched : List (UInt64 × Data L)),
      session.insertParameter = n.session.insertParameter →
        Shown x { n with session := session, fetched := fetched }
          { m with session := session, fetched := fetched } := by
    intro session fetched hparameter
    refine ⟨rfl, hs.store, hs.objects, hs.fetching, ?_, rfl, hs.handed, hs.live⟩
    dsimp only
    rw [hparameter]
    exact hs.answers
  have hparameter := insertParameter_clientStep h
  suffices hstep : m.clientStep lib e = some { m with session := v.session, fetched := v.fetched } from
    ⟨_, hstep, hshown _ _ hparameter⟩
  have hsession : m.session = (n.view x).session := hs.session
  have hfetched : m.fetched = (n.view x).fetched := hs.fetched
  cases e with
  | node we => cases h
  | registered | stop =>
    cases h
    simp only [PutNet.clientStep, hsession, hfetched]
  | due | failed =>
    simp only [PutNet.clientStep, Option.ite_none_right_eq_some, Option.some_inj] at h ⊢
    obtain ⟨hdue, rfl⟩ := h
    rw [hsession, hfetched]
    exact ⟨hdue, rfl⟩
  | answered command response =>
    simp only [PutNet.clientStep, Option.ite_none_right_eq_some, Option.some_inj] at h ⊢
    obtain ⟨⟨hcommand, hanswer⟩, rfl⟩ := h
    rw [hsession, hfetched]
    exact ⟨⟨hcommand, (hs.answers _).mpr hanswer⟩, rfl⟩
  | fetch processId segmentNo =>
    simp only [PutNet.clientStep, Option.ite_none_right_eq_some, Option.map_eq_some_iff] at h ⊢
    obtain ⟨⟨hfetching, hobject⟩, reply, hreply, rfl⟩ := h
    rw [hsession, hfetched, hs.objects, hs.fetching]
    exact ⟨⟨hfetching, hobject⟩, reply, hreply, rfl⟩

/-! ### Runs of the cluster -/

/-- What the client has been shown is a state of a node that is alone with its clients. -/
def ShownInv (lib : PacketLibrary L) (c : PutClient L) (x : String) (n : PutCluster L sha1) : Prop :=
  ∃ m, Shown x n m ∧ PutInv lib c m

lemma ShownInv.step {c : PutClient L} {e : PutClusterEvent L} (hn : ShownInv lib c x n)
    (hnumber : c.mCurrentSegmentNo.toNat = c.mData.length) (hapart : PathsApart lib sha1 c.mData)
    (hc : n.HandsOver lib x e) (h : n.step lib x e = some t) : ShownInv lib c x t := by
  obtain ⟨m, hs, hm⟩ := hn
  cases e with
  | net e =>
    obtain ⟨net', hnet, rfl⟩ := Option.map_eq_some_iff.mp h
    have hstep := hs.net_step lib hnet
    unfold PutCluster.handedAfter
    cases hwe : nodeEvent x n.net e with
    | none =>
      rw [hwe] at hstep
      exact ⟨m, hstep, hm⟩
    | some we =>
      rw [hwe] at hstep
      obtain hdead | ⟨m', hnode, hshown⟩ := hstep
      · exact ⟨m, hdead, hm⟩
      · have hlive := live_of_nodeEvent hwe hnet
        exact ⟨m', hshown, hm.step hnumber hapart (hs.handOver hlive (hc we hwe)) hnode⟩
  | client e =>
    simp only [PutCluster.step, Option.ite_none_right_eq_some, Option.map_eq_some_iff] at h
    obtain ⟨-, v, hv, rfl⟩ := h
    obtain ⟨m', hclient, hshown⟩ := hs.clientStep hv
    exact ⟨m', hshown, hm.client_step hnumber hclient⟩

end Alone

end Difs
