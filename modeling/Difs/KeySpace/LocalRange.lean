import Difs.KeySpace.Selection

/-!
# The local range

`onFetchCommandResponse` takes the range of the first entry of the node and breaks off its loop.
Routing goes through all entries: one before the first entry of the node may take a hash first,
and a later entry of the same node, which a repeated join appends, gets hashes of its own.
-/

namespace Difs

open HexText EventRun

/-- One turn of the loop in `getManifestStorage`: a value of the entry matches or none does.
A bound that does not parse throws. -/
def KeySpaceNode.takes (node : KeySpaceNode) (hash : String) : Option Bool :=
  node.span.map (fun s =>
    (rangeValues s.lo s.hi).any (fun v => startsWith hash (formatPadded (hexOfInt v))))

namespace KeySpaceHandle

/-- The first bytes of the hashes routed to a node. -/
def routedBytes (h : KeySpaceHandle) (nodeName : String) : Set ℤ :=
  {v | ∃ hash, IsHash hash ∧ firstByte hash = v ∧ h.getManifestStorage hash = some nodeName}

/-- The first bytes whose hashes are all routed to a node. -/
def whollyRoutedBytes (h : KeySpaceHandle) (nodeName : String) : Set ℤ :=
  {v | v ∈ keySpace ∧ ∀ hash, IsHash hash → firstByte hash = v → h.getManifestStorage hash = some nodeName}

/-- A node of that name, in any state, installs the manager's file. Its local range is then what
the file routes to it, whichever way a first byte is taken to be routed. -/
def RangeIsRouted (h : KeySpaceHandle) (nodeName : String) : Prop :=
  ∀ x : KeySpaceHandle, x.mRepoPrefix = nodeName → ∀ version,
    let y := (x.onFetchCommandResponse version h.mKeySpaceFile).handle
    Set.Icc y.mStart y.mEnd = y.routedBytes nodeName ∧ Set.Icc y.mStart y.mEnd = y.whollyRoutedBytes nodeName

end KeySpaceHandle

/-- The first entry of a node, with range `s`, decides for it: no entry before takes a hash of the
range, and no later entry of the node is the first to take a hash of another byte. -/
structure Decides (pre : KeySpaceFile) (it : KeySpaceNode) (post : KeySpaceFile) (s : Span String ℤ) :
    Prop where
  parses : it.span = some s
  bound : s.lo ≤ s.hi → s.hi ≤ 255
  reached : ∀ hash, IsHash hash → firstByte hash ∈ s.points → ∀ node ∈ pre, node.takes hash = some false
  later : ∀ mid it' rest, post = mid ++ it' :: rest → it'.node = it.node →
    ∀ hash, IsHash hash → it'.takes hash = some true →
      firstByte hash ∈ s.points ∨ ∃ node ∈ pre ++ mid, node.takes hash ≠ some false

def FirstEntryDecides (h : KeySpaceHandle) (nodeName : String) : Prop :=
  ∃ file pre it post s, h.mKeySpaceFile = some file ∧ FirstEntry file nodeName pre it post ∧
    Decides pre it post s

/-! ### The first entry that takes a hash -/

section Search

variable {file pre post : KeySpaceFile} {it : KeySpaceNode} {s : Span String ℤ} {hash name nodeName : String}

lemma findStorage_cons (node : KeySpaceNode) (rest : KeySpaceFile) :
    findStorage hash (node :: rest) =
      (node.takes hash).bind (fun taken => if taken then some node.node else findStorage hash rest) := by
  unfold KeySpaceNode.takes KeySpaceNode.span
  rw [findStorage]
  cases stoi16 node.startText with
  | none => rfl
  | some start =>
    cases stoi16 node.endText with
    | none => rfl
    | some stop => rfl

lemma findStorage_eq_some_iff_first (hname : name ≠ "") :
    findStorage hash file = some name ↔ ∃ pre it post, file = pre ++ it :: post ∧ it.node = name ∧
      it.takes hash = some true ∧ ∀ node ∈ pre, node.takes hash = some false := by
  induction file with
  | nil => simpa [findStorage] using hname.symm
  | cons node rest ih =>
    rw [findStorage_cons]
    constructor
    · intro h
      obtain ⟨taken, htaken, h⟩ := Option.bind_eq_some_iff.mp h
      cases taken with
      | true =>
        rw [if_pos rfl, Option.some_inj] at h
        exact ⟨[], node, rest, rfl, h, htaken, by simp⟩
      | false =>
        rw [if_neg (by simp)] at h
        obtain ⟨pre, it, post, rfl, hn, hit, hpre⟩ := ih.mp h
        refine ⟨node :: pre, it, post, rfl, hn, hit, ?_⟩
        intro m hm
        obtain rfl | hm := List.mem_cons.mp hm
        · exact htaken
        · exact hpre m hm
    · intro h
      obtain ⟨pre, it, post, heq, hn, hit, hpre⟩ := h
      cases pre with
      | nil =>
        obtain ⟨rfl, rfl⟩ := List.cons_eq_cons.mp heq
        rw [hit, Option.bind_some, if_pos rfl, hn]
      | cons m pre =>
        obtain ⟨rfl, rfl⟩ := List.cons_eq_cons.mp heq
        rw [hpre _ List.mem_cons_self, Option.bind_some, if_neg (by simp)]
        exact ih.mpr ⟨pre, it, post, rfl, hn, hit, fun n hm => hpre n (List.mem_cons_of_mem _ hm)⟩

/-- An entry of a node is its first entry or comes after it. -/
lemma FirstEntry.before (hfe : FirstEntry file nodeName pre it post) {pre' post' : KeySpaceFile}
    {it' : KeySpaceNode} (heq : file = pre' ++ it' :: post') (hn : it'.node = nodeName) :
    (pre' = pre ∧ it' = it) ∨ ∃ mid, pre' = pre ++ it :: mid ∧ post = mid ++ it' :: post' := by
  rw [hfe.eq] at heq
  obtain ⟨mid, hpre, hpost⟩ | ⟨mid, hpre, hpost⟩ := List.append_eq_append_iff.mp heq
  · cases mid with
    | nil =>
      rw [List.nil_append, List.cons_eq_cons] at hpost
      exact Or.inl ⟨by rw [hpre, List.append_nil], hpost.1.symm⟩
    | cons m mid =>
      rw [List.cons_append, List.cons_eq_cons] at hpost
      exact Or.inr ⟨mid, by rw [hpre, hpost.1], hpost.2⟩
  · cases mid with
    | nil =>
      rw [List.nil_append, List.cons_eq_cons] at hpost
      exact Or.inl ⟨by rw [hpre, List.append_nil], hpost.1⟩
    | cons m mid =>
      rw [List.cons_append, List.cons_eq_cons] at hpost
      exact absurd hn (hfe.first it' (by simp [hpre, hpost.1]))

lemma takes_eq_some_true_iff (hs : it.span = some s) (h0 : 0 ≤ s.lo) (h1 : s.lo ≤ s.hi → s.hi ≤ 255)
    (hh : IsHash hash) : it.takes hash = some true ↔ firstByte hash ∈ s.points := by
  unfold KeySpaceNode.takes
  rw [hs, Option.map_some, Option.some_inj, Span.mem_points, hh.any_padded_iff h0 h1]

lemma takes_eq_some_false (hs : it.span = some s) (h : it.takes hash ≠ some true) :
    it.takes hash = some false := by
  unfold KeySpaceNode.takes at h ⊢
  rw [hs, Option.map_some] at h ⊢
  rw [Option.some_inj, ← Bool.not_eq_true]
  intro ht
  exact h (congrArg some ht)

end Search

/-! ### Installing a file -/

section Install

variable {h x y : KeySpaceHandle} {file pre post : KeySpaceFile} {it : KeySpaceNode} {s : Span String ℤ}
  {nodeName version : String}

/-- Both sets of routed bytes are the local range when the hashes of its bytes are those routed. -/
lemma ranges_routed_iff :
    (Set.Icc y.mStart y.mEnd = y.routedBytes nodeName ∧
        Set.Icc y.mStart y.mEnd = y.whollyRoutedBytes nodeName) ↔
      Set.Icc y.mStart y.mEnd ⊆ keySpace ∧ ∀ hash, IsHash hash →
        (y.getManifestStorage hash = some nodeName ↔ firstByte hash ∈ Set.Icc y.mStart y.mEnd) := by
  constructor
  · intro h
    obtain ⟨hsome, hall⟩ := h
    refine ⟨fun v hv => (hall ▸ hv).1, fun hash hh => ⟨fun hr => ?_, fun hv => ?_⟩⟩
    · rw [hsome]
      exact ⟨hash, hh, rfl, hr⟩
    · rw [hall] at hv
      exact hv.2 hash hh rfl
  · intro h
    obtain ⟨hsub, hiff⟩ := h
    have hbyte : ∀ v ∈ keySpace, ∃ hash, IsHash hash ∧ firstByte hash = v := by
      intro v hv
      obtain ⟨hv0, hv1⟩ := hv
      obtain ⟨hash, hh, hb⟩ := IsHash.exists_firstByte (b := v.toNat) (by omega)
      exact ⟨hash, hh, by omega⟩
    constructor
    · ext v
      constructor
      · intro hv
        obtain ⟨hash, hh, rfl⟩ := hbyte v (hsub hv)
        exact ⟨hash, hh, rfl, (hiff hash hh).mpr hv⟩
      · intro hv
        obtain ⟨hash, hh, rfl, hr⟩ := hv
        exact (hiff hash hh).mp hr
    · ext v
      constructor
      · intro hv
        refine ⟨hsub hv, fun hash hh hb => (hiff hash hh).mpr ?_⟩
        rwa [hb]
      · intro hv
        obtain ⟨hash, hh, rfl⟩ := hbyte v hv.1
        exact (hiff hash hh).mp (hv.2 hash hh rfl)

lemma install_eq (hf : h.mKeySpaceFile = some file) (hfe : FirstEntry file x.mRepoPrefix pre it post) :
    (x.onFetchCommandResponse version h.mKeySpaceFile).handle =
      ({ x with mVersion := version, mKeySpaceFile := some file }.assignRange it).handle := by
  unfold KeySpaceHandle.onFetchCommandResponse
  rw [hf]
  dsimp only
  rw [find_eq_some_iff.mpr ⟨pre, post, hfe⟩]

lemma assignRange_of_span (hs : it.span = some s) :
    (x.assignRange it).handle = { x with mStart := s.lo, mEnd := s.hi, rangeAssigned := true } := by
  obtain ⟨-, h1, h2⟩ := span_eq_some_iff.mp hs
  unfold KeySpaceHandle.assignRange
  rw [h1]
  dsimp only
  rw [h2]

/-- Where a bound does not parse the end of the range stays what it was. -/
lemma assignRange_of_not_parses (hs : it.span = none) :
    (x.assignRange it).handle = { x with mStart := (stoi16 it.startText).getD x.mStart } := by
  unfold KeySpaceNode.span at hs
  unfold KeySpaceHandle.assignRange
  cases h1 : stoi16 it.startText with
  | none => rfl
  | some start =>
    cases h2 : stoi16 it.endText with
    | none => rfl
    | some stop => simp [h1, h2] at hs

lemma exists_span_of_routed (hf : h.mKeySpaceFile = some file) (hfe : FirstEntry file nodeName pre it post)
    (hr : h.RangeIsRouted nodeName) : ∃ s, it.span = some s := by
  by_contra hne
  have hs : it.span = none := by
    rw [Option.eq_none_iff_forall_ne_some]
    intro s hs
    exact hne ⟨s, hs⟩
  -- two nodes of the name that differ in their old `m_end` only
  have hold : ∀ stop, Set.Icc ((stoi16 it.startText).getD 0) stop = h.routedBytes nodeName := by
    intro stop
    let x : KeySpaceHandle :=
      { mRepoPrefix := nodeName, mManagerPrefix := "", mStart := (stoi16 it.startText).getD 0, mEnd := stop }
    have hx := (hr x rfl "").1
    rw [install_eq hf hfe, assignRange_of_not_parses hs] at hx
    unfold KeySpaceHandle.routedBytes KeySpaceHandle.getManifestStorage at hx ⊢
    rw [hf]
    have hstart : (stoi16 it.startText).getD ((stoi16 it.startText).getD 0) = (stoi16 it.startText).getD 0 := by
      cases stoi16 it.startText <;> rfl
    rwa [← hstart]
  have hset := (hold ((stoi16 it.startText).getD 0 - 1)).trans (hold ((stoi16 it.startText).getD 0)).symm
  have hmem : (stoi16 it.startText).getD 0 ∈ Set.Icc ((stoi16 it.startText).getD 0)
      ((stoi16 it.startText).getD 0) := ⟨le_rfl, le_rfl⟩
  rw [← hset] at hmem
  have := hmem.2
  omega

/-- Over a first entry that parses, what routing gives the node is said about the file alone. -/
lemma rangeIsRouted_iff (hf : h.mKeySpaceFile = some file) (hfe : FirstEntry file nodeName pre it post)
    (hs : it.span = some s) :
    h.RangeIsRouted nodeName ↔ s.points ⊆ keySpace ∧ ∀ hash, IsHash hash →
      (findStorage hash file = some nodeName ↔ firstByte hash ∈ s.points) := by
  have hy : ∀ x : KeySpaceHandle, x.mRepoPrefix = nodeName → ∀ version,
      (x.onFetchCommandResponse version h.mKeySpaceFile).handle =
        { x with mVersion := version, mKeySpaceFile := some file, mStart := s.lo, mEnd := s.hi,
                 rangeAssigned := true } := by
    intro x hx version
    subst hx
    rw [install_eq hf hfe, assignRange_of_span hs]
  constructor
  · intro hr
    have hx := hr { mRepoPrefix := nodeName, mManagerPrefix := "", mStart := 0, mEnd := 0 } rfl ""
    rw [hy _ rfl, ranges_routed_iff] at hx
    exact hx
  · intro hr x hx version
    rw [hy x hx version]
    exact ranges_routed_iff.mpr hr

theorem routed_iff_decides (hname : nodeName ≠ "") (hfe : FirstEntry file nodeName pre it post)
    (hs : it.span = some s) (h0 : 0 ≤ s.lo) :
    (s.points ⊆ keySpace ∧ ∀ hash, IsHash hash →
      (findStorage hash file = some nodeName ↔ firstByte hash ∈ s.points)) ↔ Decides pre it post s := by
  constructor
  · intro hr
    obtain ⟨hsub, hiff⟩ := hr
    have hbound : s.lo ≤ s.hi → s.hi ≤ 255 := by
      intro hle
      have hmem : s.hi ∈ s.points := ⟨hle, le_rfl⟩
      exact (hsub hmem).2
    refine ⟨hs, hbound, ?_, ?_⟩
    · intro hash hh hb node hm
      obtain ⟨pre', it', post', heq, hn, -, hpre⟩ :=
        (findStorage_eq_some_iff_first hname).mp ((hiff hash hh).mpr hb)
      obtain ⟨rfl, -⟩ | ⟨mid, rfl, -⟩ := hfe.before heq hn
      · exact hpre node hm
      · exact hpre node (by simp [hm])
    · intro mid it' rest heq hn hash hh htakes
      by_contra hcon
      push Not at hcon
      apply hcon.1
      rw [← hiff hash hh, findStorage_eq_some_iff_first hname]
      refine ⟨pre ++ it :: mid, it', rest, by simp [hfe.eq, heq], hn.trans hfe.node, htakes, ?_⟩
      intro node hm
      rw [List.mem_append, List.mem_cons] at hm
      obtain hm | rfl | hm := hm
      · exact hcon.2 node (List.mem_append_left mid hm)
      · apply takes_eq_some_false hs
        rw [Ne, takes_eq_some_true_iff hs h0 hbound hh]
        exact hcon.1
      · exact hcon.2 node (List.mem_append_right pre hm)
  · intro hd
    refine ⟨fun v hv => ?_, fun hash hh => ⟨fun hr => ?_, fun hb => ?_⟩⟩
    · have hv0 := hv.1
      have hv1 := hv.2
      exact ⟨by omega, hv1.trans (hd.bound (hv0.trans hv1))⟩
    · obtain ⟨pre', it', post', heq, hn, htakes, hpre⟩ := (findStorage_eq_some_iff_first hname).mp hr
      obtain ⟨-, rfl⟩ | ⟨mid, rfl, hpost⟩ := hfe.before heq hn
      · exact (takes_eq_some_true_iff hs h0 hd.bound hh).mp htakes
      · obtain hb | ⟨node, hm, hne⟩ := hd.later mid it' post' hpost (hn.trans hfe.node.symm) hash hh htakes
        · exact hb
        · obtain hm | hm := List.mem_append.mp hm
          · exact absurd (hpre node (by simp [hm])) hne
          · exact absurd (hpre node (by simp [hm])) hne
    · rw [findStorage_eq_some_iff_first hname]
      refine ⟨pre, it, post, hfe.eq, hfe.node, ?_, hd.reached hash hh hb⟩
      exact (takes_eq_some_true_iff hs h0 hd.bound hh).mpr hb

end Install

/-! ### The files a manager reaches -/

/-- The start of every entry is written from a zero on, and so reads as no negative value. -/
def StartsFromZero (file : KeySpaceFile) : Prop :=
  ∀ node ∈ file, node.startText.toList.head? = some '0'

section Reachable

variable {h t : KeySpaceHandle} {file file' : KeySpaceFile}

lemma stoi16_nonneg {text : String} {v : ℤ} (h : text.toList.head? = some '0') (hv : stoi16 text = some v) :
    0 ≤ v := by
  obtain ⟨cs, hcs⟩ := List.head?_eq_some_iff.mp h
  unfold stoi16 at hv
  rw [hcs, List.dropWhile_cons_of_neg (by decide)] at hv
  obtain ⟨hv, -⟩ := Option.filter_eq_some_iff.mp hv
  have hread : readSigned ('0' :: cs) = (readMagnitude ('0' :: cs)).map Int.ofNat := by
    rw [readSigned]
    · intro _ h
      simp at h
    · intro _ h
      simp at h
  rw [hread, Option.map_eq_some_iff] at hv
  obtain ⟨n, -, rfl⟩ := hv
  exact Int.natCast_nonneg n

lemma head_hexText (v : ℤ) : ("0x" ++ hexOfInt v).toList.head? = some '0' := by
  rw [String.toList_append]
  rfl

lemma startsFromZero_cons {node : KeySpaceNode} :
    StartsFromZero (node :: file) ↔ node.startText.toList.head? = some '0' ∧ StartsFromZero file :=
  List.forall_mem_cons

lemma startsFromZero_append {file' : KeySpaceFile} :
    StartsFromZero (file ++ file') ↔ StartsFromZero file ∧ StartsFromZero file' := List.forall_mem_append

lemma startsFromZero_takeOver {toName stream : String} {fromStart fromEnd : ℤ}
    (hstream : stream = "" ∨ stream.toList.head? = some '0') (hz : StartsFromZero file)
    (ht : takeOver toName fromStart fromEnd stream file = some file') : StartsFromZero file' := by
  induction file generalizing stream file' with
  | nil =>
    cases ht
    exact hz
  | cons it rest ih =>
    obtain ⟨hit, hrest⟩ := startsFromZero_cons.mp hz
    have happend : ∀ v, (stream ++ ("0x" ++ hexOfInt v)).toList.head? = some '0' := by
      intro v
      obtain rfl | hs := hstream
      · rw [String.empty_append]
        exact head_hexText v
      · rw [String.toList_append, List.head?_append, hs]
        rfl
    obtain ⟨it', stream', rest', -, hentry, htake, rfl⟩ := takeOver_cons_eq_some ht
    obtain ⟨rfl, rfl⟩ | ⟨hstart, v, rfl⟩ := hentry
    · exact startsFromZero_cons.mpr ⟨hit, ih hstream hrest htake⟩
    · apply startsFromZero_cons.mpr
      refine ⟨?_, ih (Or.inr (happend v)) hrest htake⟩
      obtain hstart | hstart := hstart
      · rwa [hstart]
      · rw [hstart]
        exact happend v

/-- A join changes nothing in the file when the node to split is not listed. -/
lemma addStep_cases {c : AddNode} (hf : h.mKeySpaceFile = some file) (ht : addStep h c = some t) :
    t.mKeySpaceFile = some file ∨ ∃ pre it post s, FirstEntry file c.fromName pre it post ∧
      it.span = some s ∧ t.mKeySpaceFile = some (pre ++ keptNode it s :: post ++ [givenNode s c.toName]) := by
  cases hfind : file.find? (fun it => it.node = c.fromName) with
  | none =>
    simp only [addStep, KeySpaceHandle.handleAddCommand, hf, hfind] at ht
    cases ht
    exact Or.inl rfl
  | some it =>
    obtain ⟨pre, post, hfe⟩ := find_eq_some_iff.mp hfind
    cases hs : it.span with
    | none =>
      exfalso
      unfold KeySpaceNode.span at hs
      cases h1 : stoi16 it.startText with
      | none => simp [addStep, KeySpaceHandle.handleAddCommand, hf, hfind, h1] at ht
      | some start =>
        cases h2 : stoi16 it.endText with
        | none => simp [addStep, KeySpaceHandle.handleAddCommand, hf, hfind, h1, h2] at ht
        | some stop => simp [h1, h2] at hs
    | some s =>
      rw [addStep_eq hf hfe hs, Option.some_inj] at ht
      subst ht
      exact Or.inr ⟨pre, it, post, s, hfe, hs, rfl⟩

lemma startsFromZero_memberStep {cmd : MembershipCommand}
    (hz : ∃ file, h.mKeySpaceFile = some file ∧ StartsFromZero file) (ht : memberStep h cmd = some t) :
    ∃ file, t.mKeySpaceFile = some file ∧ StartsFromZero file := by
  obtain ⟨file, hf, hz⟩ := hz
  cases cmd with
  | addNode c =>
    obtain ht | ⟨pre, it, post, s, hfe, -, ht⟩ := addStep_cases hf ht
    · exact ⟨file, ht, hz⟩
    · refine ⟨_, ht, ?_⟩
      rw [hfe.eq, startsFromZero_append, startsFromZero_cons] at hz
      rw [startsFromZero_append, startsFromZero_append, startsFromZero_cons]
      refine ⟨hz, ?_⟩
      intro node hm
      rw [List.mem_singleton.mp hm]
      exact head_hexText _
  | delNode c =>
    obtain ⟨file₀, range, file', hf₀, -, htake, rfl⟩ := delStep_eq_some_iff.mp ht
    rw [hf, Option.some_inj] at hf₀
    subst hf₀
    refine ⟨file', rfl, startsFromZero_takeOver (Or.inl rfl) ?_ htake⟩
    intro node hm
    exact hz node (List.mem_of_mem_eraseP hm)

lemma startsFromZero_run {h₀ : KeySpaceHandle} {cmds : List MembershipCommand}
    (hrun : run memberStep h₀.initKeySpaceFile cmds = some h) :
    ∃ file, h.mKeySpaceFile = some file ∧ StartsFromZero file := by
  refine reachable_invariant (I := fun h : KeySpaceHandle =>
    ∃ file, h.mKeySpaceFile = some file ∧ StartsFromZero file) ?_ ?_ ⟨cmds, hrun⟩
  · intro h cmd t hz ht
    exact startsFromZero_memberStep hz ht
  · refine ⟨_, rfl, ?_⟩
    intro node hm
    have hhead : "0x00".toList.head? = some '0' := by decide
    rw [List.mem_singleton.mp hm, hhead]

end Reachable

/-! ### The range against routing -/

section LocalRange

variable {h₀ h : KeySpaceHandle} {cmds : List MembershipCommand} {nodeName : String}

lemma KeySpaceHandle.RingInv.rangeIsRouted (hinv : h.RingInv) (hlisted : nodeName ∈ h.nodeNames) :
    h.RangeIsRouted nodeName := by
  obtain ⟨file, hf, hpart⟩ := hinv.partitioned
  have hnames := hlisted
  rw [KeySpaceHandle.nodeNames_eq hf] at hnames
  obtain ⟨pre, it, post, hfe⟩ := exists_firstEntry hnames
  obtain ⟨s, hs⟩ := Option.isSome_iff_exists.mp (hpart.parses it (by simp [hfe.eq]))
  have hown := ownRange_onFetchCommandResponse (x := exampleNode nodeName) hinv hlisted ""
  rw [install_eq hf hfe, assignRange_of_span hs] at hown
  rw [rangeIsRouted_iff hf hfe hs]
  constructor
  · intro v hv
    obtain ⟨h0, -, h1⟩ := hown.bounds
    exact ⟨h0.trans hv.1, hv.2.trans h1⟩
  · intro hash hh
    exact hown.routed_iff hh

/-- At every file a manager reaches, the range a listed node takes from it is what the file routes
to the node exactly when its first entry decides. Joins of new names that split two values or more,
and leaves that keep the partition, lead to such files only. -/
theorem local_range_routed_iff (hrun : run memberStep h₀.initKeySpaceFile cmds = some h)
    (hname : nodeName ≠ "") (hlisted : nodeName ∈ h.nodeNames) :
    (h.RangeIsRouted nodeName ↔ FirstEntryDecides h nodeName) ∧
      (Meets memberStep KeepsRing h₀.initKeySpaceFile cmds → h.RangeIsRouted nodeName) := by
  constructor
  · obtain ⟨file, hf, hzero⟩ := startsFromZero_run hrun
    have hnames := hlisted
    rw [KeySpaceHandle.nodeNames_eq hf] at hnames
    obtain ⟨pre, it, post, hfe⟩ := exists_firstEntry hnames
    have hlo : ∀ s, it.span = some s → 0 ≤ s.lo := by
      intro s hs
      exact stoi16_nonneg (hzero it (by simp [hfe.eq])) (span_eq_some_iff.mp hs).2.1
    constructor
    · intro hr
      obtain ⟨s, hs⟩ := exists_span_of_routed hf hfe hr
      refine ⟨file, pre, it, post, s, hf, hfe, ?_⟩
      rw [← routed_iff_decides hname hfe hs (hlo s hs), ← rangeIsRouted_iff hf hfe hs]
      exact hr
    · intro hd
      obtain ⟨file', pre', it', post', s, hf', hfe', hd⟩ := hd
      rw [hf, Option.some_inj] at hf'
      subst hf'
      have hit : it' = it := by
        have h1 := find_eq_some_iff.mpr ⟨pre, post, hfe⟩
        rw [find_eq_some_iff.mpr ⟨pre', post', hfe'⟩, Option.some_inj] at h1
        exact h1
      subst hit
      rw [rangeIsRouted_iff hf hfe' hd.parses, routed_iff_decides hname hfe' hd.parses (hlo s hd.parses)]
      exact hd
  · intro hkeeps
    exact (ringInv_run (ringInv_initKeySpaceFile h₀) hkeeps hrun).rangeIsRouted hlisted

/-- The node that joined first has `128..191`, after the manager's `0..127`. -/
theorem local_range_routed_first_joiner :
    run memberStep exampleManager.initKeySpaceFile (twoJoins.map .addNode) = some afterTwoJoins ∧
      afterTwoJoins.RangeIsRouted "/a/repo" := by
  have hkeeps : Meets memberStep KeepsRing exampleManager.initKeySpaceFile (twoJoins.map .addNode) :=
    meets_map_addNode (by decide) (by decide)
  have hrun : run memberStep exampleManager.initKeySpaceFile (twoJoins.map .addNode) = some afterTwoJoins := by
    rw [run_map_addNode]
    rfl
  have hlisted : "/a/repo" ∈ afterTwoJoins.nodeNames := by decide
  exact ⟨hrun, (local_range_routed_iff hrun (by decide) hlisted).2 hkeeps⟩

/-- A node that joins twice has the entries `128..255` and `64..127` and takes the first. The hash
`40…` is routed to it by the second. -/
theorem second_join_outside_range :
    ∃ h, run memberStep exampleManager.initKeySpaceFile
        [.addNode ⟨"/m/repo", "/a/repo"⟩, .addNode ⟨"/m/repo", "/a/repo"⟩] = some h ∧
      "/a/repo" ∈ h.nodeNames ∧ (∀ node ∈ h.mKeySpaceFile.getD [], node.span.isSome) ∧
      ¬ h.RangeIsRouted "/a/repo" := by
  refine ⟨_, rfl, by decide, by decide, ?_⟩
  intro hr
  have hx := (hr (exampleNode "/a/repo") rfl "v2").1
  have hmem : (64 : ℤ) ∈ Set.Icc (128 : ℤ) 255 := by
    apply hx.symm.subset
    exact ⟨"4000000000000000000000000000000000000000", by decide, by decide, by decide⟩
  exact absurd hmem.1 (by decide)

end LocalRange

end Difs
