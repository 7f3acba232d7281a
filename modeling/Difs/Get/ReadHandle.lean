import Difs.Insert.Keys
import Difs.Lib.Threads

/-!
# Gets

A get is answered with what the node that its hash is routed to answers to a find. The handle
keeps the get Interest in a process under the random id that the callbacks of the find are bound
to. An Interest received stands for its name. The other node may answer a find with anything.
-/

namespace Difs

open EventRun Threads

variable {L : NameLibrary} {sha1 : String → String}

/-- What `extractParameter` makes of an Interest: a parameter with a name, the error that the
handler catches, or another exception. -/
inductive Extracted (L : NameLibrary) where
  | parameter (name : L.Name)
  | malformed
  | threw

/-- A get Interest, the key space it is routed by and the id its process gets. -/
structure GetCommand (L : NameLibrary) where
  interest : L.Name
  keySpace : KeySpaceHandle
  random : UInt64
deriving DecidableEq

structure FindInterest where
  repo : String
  hash : String
  processId : UInt64
  lifetime : ℕ
deriving DecidableEq, Repr

inductive ReplyContent where
  | bytes (content : List UInt8)
  | response (code : ℕ) (text : String)
deriving DecidableEq, Repr

/-- A Data packet put on the face. -/
structure Reply (L : NameLibrary) where
  name : L.Name
  content : ReplyContent

structure ReadHandle.ProcessInfo (L : NameLibrary) where
  interest : L.Name := []

structure ReadHandle (L : NameLibrary) where
  mProcesses : UInt64 → Option (ReadHandle.ProcessInfo L) := fun _ => none
  mInterestLifetime : ℕ := 4000

namespace ReadHandle

/-- `m_processes[processId]`. -/
def process (h : ReadHandle L) (processId : UInt64) : ProcessInfo L := (h.mProcesses processId).getD {}

def setProcess (h : ReadHandle L) (processId : UInt64) (process : ProcessInfo L) : ReadHandle L :=
  { h with mProcesses := Function.update h.mProcesses processId (some process) }

def eraseProcess (h : ReadHandle L) (processId : UInt64) : ReadHandle L :=
  { h with mProcesses := Function.update h.mProcesses processId none }

def negativeReply (interest : L.Name) (text : String) (statusCode : ℕ) : Reply L :=
  ⟨interest, .response statusCode text⟩

def onGetInterest (sha1 : String → String) (extractParameter : L.Name → Extracted L) (h : ReadHandle L)
    (c : GetCommand L) : Option (Reaction (ReadHandle L) FindInterest (Reply L)) :=
  match extractParameter c.interest with
  | .malformed => some { node := h, output := [negativeReply c.interest "Parameter malformed" 403] }
  | .threw => none
  | .parameter name =>
    let hash := sha1 (getText name)
    (c.keySpace.getManifestStorage hash).map (fun repo =>
      { node := h.setProcess c.random { interest := c.interest }
        calls := [⟨repo, hash, c.random, h.mInterestLifetime⟩] })

def onFindCommandResponse (h : ReadHandle L) (content : List UInt8) (processId : UInt64) :
    Reaction (ReadHandle L) FindInterest (Reply L) :=
  let process := h.process processId
  { node := h.eraseProcess processId
    output := [if content.length = 0 then ⟨process.interest, .bytes []⟩ else ⟨process.interest, .bytes content⟩] }

/-- Bound for a nack as well. -/
def onFindCommandTimeout (h : ReadHandle L) (processId : UInt64) : Reaction (ReadHandle L) FindInterest (Reply L) where
  node := h.eraseProcess processId
  output := [negativeReply (h.process processId).interest "Manifest timeout" 403]

end ReadHandle

/-- A find is answered with the content of a Data packet. -/
def readHandle (sha1 : String → String) (extractParameter : L.Name → Extracted L) :
    Handlers (ReadHandle L) (GetCommand L) FindInterest (List UInt8) (Reply L) where
  onCommand h _ c := h.onGetInterest sha1 extractParameter c
  onEnd h find
    | some content => some (h.onFindCommandResponse content find.processId)
    | none => some (h.onFindCommandTimeout find.processId)

/-! ### The thread of a get -/

/-- The reply to a get whose find has ended with that content, or without an answer. -/
def replyTo (interest : L.Name) : Option (List UInt8) → Reply L
  | some content => ⟨interest, .bytes content⟩
  | none => ⟨interest, .response 403 "Manifest timeout"⟩

/-- The find of a get, for the hash of the name in its own parameter. -/
structure FindOf (sha1 : String → String) (extractParameter : L.Name → Extracted L) (c : GetCommand L)
    (find : FindInterest) : Prop where
  extracted : ∃ name, extractParameter c.interest = .parameter name ∧ find.hash = sha1 (getText name)
  routed : c.keySpace.getManifestStorage find.hash = some find.repo
  processId : find.processId = c.random

/-- A malformed get is replied to at once. Any other has its find out and its Interest in a
process, or the find has ended, the get was replied to with the outcome, and the process is gone. -/
inductive GetThread (sha1 : String → String) (extractParameter : L.Name → Extracted L) (h : ReadHandle L)
    (c : GetCommand L) : List FindInterest → List (LogRecord FindInterest (List UInt8) (Reply L)) → Prop where
  | malformed (hm : extractParameter c.interest = .malformed) : GetThread sha1 extractParameter h c []
      [.output ⟨c.interest, .response 403 "Parameter malformed"⟩]
  | waiting {find : FindInterest} (hf : FindOf sha1 extractParameter c find)
      (hp : h.mProcesses c.random = some ⟨c.interest⟩) : GetThread sha1 extractParameter h c [find] [.call find]
  | replied {find : FindInterest} (hf : FindOf sha1 extractParameter c find) (outcome : Option (List UInt8))
      (hp : h.mProcesses c.random = none) : GetThread sha1 extractParameter h c []
      [.call find, .ended find outcome, .output (replyTo c.interest outcome)]

/-- Two gets that draw an id draw different ones. -/
def ApartGets (extractParameter : L.Name → Extracted L) (c c' : GetCommand L) : Prop :=
  ∀ name name', extractParameter c.interest = .parameter name → extractParameter c'.interest = .parameter name' →
    c.random ≠ c'.random

section Gets

variable {extractParameter : L.Name → Extracted L} {h t : ReadHandle L} {c c' : GetCommand L} {find : FindInterest}
  {calls : List FindInterest} {records : List (LogRecord FindInterest (List UInt8) (Reply L))}
  {r : Reaction (ReadHandle L) FindInterest (Reply L)} {outcome : Option (List UInt8)}

/-- A thread is not disturbed by what happens to the processes of other ids. -/
lemma GetThread.frame (ht : GetThread sha1 extractParameter h c calls records)
    (hsame : ∀ name, extractParameter c.interest = .parameter name → t.mProcesses c.random = h.mProcesses c.random) :
    GetThread sha1 extractParameter t c calls records := by
  cases ht with
  | malformed hm => exact .malformed hm
  | waiting hf hp =>
    obtain ⟨name, hname, -⟩ := hf.extracted
    exact .waiting hf ((hsame name hname).trans hp)
  | replied hf outcome hp =>
    obtain ⟨name, hname, -⟩ := hf.extracted
    exact .replied hf outcome ((hsame name hname).trans hp)

/-- All that a get does: it is malformed, or makes a process and sends a find. -/
lemma onGetInterest_cases (hr : h.onGetInterest sha1 extractParameter c = some r) :
    (extractParameter c.interest = .malformed ∧
        r = { node := h, output := [⟨c.interest, .response 403 "Parameter malformed"⟩] }) ∨
      ∃ find, FindOf sha1 extractParameter c find ∧
        r = { node := h.setProcess c.random ⟨c.interest⟩, calls := [find] } := by
  unfold ReadHandle.onGetInterest at hr
  cases hx : extractParameter c.interest with
  | malformed =>
    rw [hx] at hr
    exact Or.inl ⟨rfl, (Option.some.inj hr).symm⟩
  | threw =>
    rw [hx] at hr
    cases hr
  | parameter name =>
    rw [hx] at hr
    obtain ⟨repo, hrepo, rfl⟩ := Option.map_eq_some_iff.mp hr
    exact Or.inr ⟨_, ⟨⟨name, hx, rfl⟩, hrepo, rfl⟩, rfl⟩

/-- The end of a find replies to the Interest in its process and erases the process. -/
lemma onEnd_readHandle (hp : h.mProcesses find.processId = some ⟨c.interest⟩) :
    (readHandle sha1 extractParameter).onEnd h find outcome =
      some { node := h.eraseProcess find.processId, output := [replyTo c.interest outcome] } := by
  have hprocess : h.process find.processId = ⟨c.interest⟩ := by
    unfold ReadHandle.process
    rw [hp]
    rfl
  cases outcome with
  | none =>
    unfold readHandle ReadHandle.onFindCommandTimeout
    simp only [hprocess]
    rfl
  | some content =>
    unfold readHandle ReadHandle.onFindCommandResponse
    simp only [hprocess]
    by_cases hlength : content.length = 0
    · rw [if_pos hlength, List.length_eq_zero_iff.mp hlength]
      rfl
    · rw [if_neg hlength]
      rfl

/-- Only the find of a thread ends in it, once. -/
lemma GetThread.ends (ht : GetThread sha1 extractParameter h c calls records) (hfind : find ∈ calls)
    (hr : (readHandle sha1 extractParameter).onEnd h find outcome = some r) :
    FindOf sha1 extractParameter c find ∧ calls = [find] ∧ records = [.call find] ∧
      r = { node := h.eraseProcess find.processId, output := [replyTo c.interest outcome] } := by
  cases ht with
  | malformed hm => cases hfind
  | replied hf outcome hp => cases hfind
  | waiting hf hp =>
    rw [List.mem_singleton] at hfind
    subst hfind
    rw [onEnd_readHandle (hf.processId ▸ hp), Option.some_inj] at hr
    exact ⟨hf, rfl, rfl, hr.symm⟩

lemma ApartGets.symm (hap : ApartGets extractParameter c c') : ApartGets extractParameter c' c :=
  fun name name' hname hname' => (hap name' name hname' hname).symm

lemma keeps_getThread : Keeps (readHandle sha1 extractParameter) (fun c _ c' => ApartGets extractParameter c c')
    (fun h _ c => GetThread sha1 extractParameter h c) where
  command h a c r hr := by
    obtain ⟨hm, rfl⟩ | ⟨find, hf, rfl⟩ := onGetInterest_cases hr
    · exact .malformed hm
    · exact .waiting hf (Function.update_self ..)
  ends h a c calls records find outcome r ht hfind hr := by
    obtain ⟨hf, rfl, rfl, rfl⟩ := ht.ends hfind hr
    rw [List.erase_cons_head]
    apply GetThread.replied hf outcome
    rw [← hf.processId]
    exact Function.update_self ..
  frameCommand h a c calls records b c' r hab hap ht hr := by
    apply ht.frame
    intro name hname
    obtain ⟨-, rfl⟩ | ⟨find, hf, rfl⟩ := onGetInterest_cases hr
    · rfl
    · obtain ⟨name', hname', -⟩ := hf.extracted
      exact Function.update_of_ne (hap name name' hname hname') ..
  frameEnds h a c calls records b c' calls' records' find outcome r hab hap ht ht' hfind hr := by
    apply ht.frame
    intro name hname
    obtain ⟨hf, -, -, rfl⟩ := ht'.ends hfind hr
    obtain ⟨name', hname', -⟩ := hf.extracted
    rw [ReadHandle.eraseProcess, hf.processId]
    exact Function.update_of_ne (hap name name' hname hname') ..

/-- However many gets overlap, each has its own find, and is replied to under its own name when
that has ended, with its outcome. -/
theorem gets_answered_apart {lifetime : ℕ} {es : List (Event (GetCommand L) FindInterest (List UInt8))}
    {s : System (ReadHandle L) (GetCommand L) FindInterest (List UInt8) (Reply L)} {a : ℕ}
    (hrun : run (step (readHandle sha1 extractParameter)) { node := { mInterestLifetime := lifetime } } es = some s)
    (hdistinct : s.commands.Pairwise (ApartGets extractParameter)) (hc : s.commands[a]? = some c) :
    GetThread sha1 extractParameter s.node c (s.pendingOf a) (s.thread a) :=
  (Threaded.run keeps_getThread (fun _ _ => ApartGets.symm) (threaded_start _) hrun hdistinct).thread a c hc

end Gets

/-- Interests with the name asked for in their second component. -/
def exampleExtract (interest : plainNames.Name) : Extracted plainNames :=
  match interest with
  | [_, name] => .parameter [name]
  | _ => .malformed

def filmGet (random : UInt64) : GetCommand plainNames := ⟨[plainComponent "get", film], exampleKeySpace, random⟩

def filmFind (processId : UInt64) : FindInterest := ⟨"/a/repo", archiveDigest "/film", processId, 4000⟩

/-- Two gets of one object: the find of the second is answered first, that of the first times out. -/
def filmGets : List (Event (GetCommand plainNames) FindInterest (List UInt8)) :=
  [.command (filmGet 7), .command (filmGet 8), .ends 1 (filmFind 8) (some [1]), .ends 0 (filmFind 7) none]

theorem film_gets_answered_apart :
    ∃ s, run (step (readHandle archiveDigest exampleExtract)) { node := { mInterestLifetime := 4000 } } filmGets =
        some s ∧
      GetThread archiveDigest exampleExtract s.node (filmGet 7) (s.pendingOf 0) (s.thread 0) ∧
      GetThread archiveDigest exampleExtract s.node (filmGet 8) (s.pendingOf 1) (s.thread 1) := by
  have hdistinct : [filmGet 7, filmGet 8].Pairwise (ApartGets exampleExtract) := by
    rw [List.pairwise_pair]
    intro name name' _ _
    decide
  have hcommands : (run (step (readHandle archiveDigest exampleExtract)) { node := { mInterestLifetime := 4000 } }
      filmGets).map System.commands = some [filmGet 7, filmGet 8] := by decide +kernel
  obtain ⟨s, hrun, hs⟩ := Option.map_eq_some_iff.mp hcommands
  rw [← hs] at hdistinct
  refine ⟨s, hrun, ?_, ?_⟩
  · exact gets_answered_apart hrun hdistinct (by rw [hs]; rfl)
  · exact gets_answered_apart hrun hdistinct (by rw [hs]; rfl)

end Difs
