import Difs.Command.Parameter
import Difs.Lib.EventRun

/-!
# Requests and retries of the client

A delete or get request is a command Interest. Its handlers send it again after a timeout or a
nack, and they take the name for it from the Interest that failed.
-/

namespace Difs.Command

open Tlv

/-- Names are lists of components. -/
def clientCodecs : Codecs := ⟨blocksCodec tlv.Name, elementsCodec tlv.ForwardingHint⟩

abbrev ClientName := clientCodecs.name.Value

instance : DecidableEq ClientName :=
  inferInstanceAs (DecidableEq {bs : List Block // (bs.flatMap Block.wire).length < 2 ^ 64})

namespace tlv

def GenericNameComponent : BlockType := ⟨8, by decide, by decide⟩

end tlv

/-- A block that is no component is wrapped in one. -/
def componentOf (value : Block) : Option Block :=
  if value.type = tlv.GenericNameComponent then some value
  else if h : value.wire.length < 2 ^ 64 then some ⟨tlv.GenericNameComponent, value.wire, h⟩
  else none

def ClientName.append (name : ClientName) (components : List Block) : Option ClientName :=
  if h : ((name.1 ++ components).flatMap Block.wire).length < 2 ^ 64 then some ⟨name.1 ++ components, h⟩ else none

/-- A flag that is absent was never set, and has the default of ndn-cxx. -/
structure CommandInterest where
  name : ClientName
  forwardingHint : Option clientCodecs.delegationList.Value
  interestLifetime : ℕ
  canBePrefix : Option Bool
  mustBeFresh : Bool

inductive FileCommand where
  | delete
  | get
deriving DecidableEq

/-- `sent` has the Interests in the order in which they were expressed, `pending` the one that has
no answer, with the handlers that wait for it. -/
structure RequestClient where
  mCommonName : ClientName
  mRepoPrefix : ClientName
  mForwardingHint : Option clientCodecs.delegationList.Value
  mInterestLifetime : ℕ
  mRetryCount : ℤ
  sent : List CommandInterest := []
  pending : Option (FileCommand × CommandInterest) := none

def MAX_RETRY : ℤ := 3

namespace RequestClient

/-- What the command signer puts behind a name. Its clock and its nonce differ from one call to the next. -/
abbrev Signer := ℕ → List Block → List Block

variable (signer : Signer)

/-- The component of a word. -/
def word (text : List UInt8) (h : text.length < 2 ^ 64) : Block := ⟨tlv.GenericNameComponent, text, h⟩

def deleteWord : Block := word [0x64, 0x65, 0x6c, 0x65, 0x74, 0x65] (by decide)

def getWord : Block := word [0x67, 0x65, 0x74] (by decide)

/-- The name of a command Interest, when so many have been signed before. There is none when an
encoding has too many bytes. -/
def commandName (signed : ℕ) (cmdPrefix : ClientName) (command : Block)
    (parameter : RepoCommandParameter clientCodecs) : Option ClientName := do
  let wire ← parameter.wireEncode.1
  let component ← componentOf wire
  let cmd ← cmdPrefix.append [command, component]
  cmd.append (signer signed cmd.1)

def expressInterest (c : RequestClient) (command : FileCommand) (interest : CommandInterest) : RequestClient :=
  { c with
    sent := c.sent ++ [interest]
    pending := some (command, interest) }

def deleteFile (c : RequestClient) (name : ClientName) : RequestClient :=
  let parameter : RepoCommandParameter clientCodecs :=
    (({} : RepoCommandParameter clientCodecs).setProcessId 0).setName name
  match commandName signer c.sent.length c.mCommonName deleteWord parameter with
  | none => c
  | some name => c.expressInterest .delete {
      name := name
      forwardingHint := c.mForwardingHint
      interestLifetime := c.mInterestLifetime
      canBePrefix := none
      mustBeFresh := true }

def getFile (c : RequestClient) (name : ClientName) : RequestClient :=
  let parameter : RepoCommandParameter clientCodecs := ({} : RepoCommandParameter clientCodecs).setName name
  match commandName signer c.sent.length c.mRepoPrefix getWord parameter with
  | none => c
  | some name => c.expressInterest .get {
      name := name
      forwardingHint := c.mForwardingHint
      interestLifetime := c.mInterestLifetime
      canBePrefix := some true
      mustBeFresh := true }

/-- The body of the handlers of timeouts and nacks. -/
def retry (request : RequestClient → ClientName → RequestClient) (c : RequestClient) (interest : CommandInterest) :
    RequestClient :=
  let counted := { c with mRetryCount := c.mRetryCount + 1 }
  if c.mRetryCount < MAX_RETRY then request counted interest.name else counted

def onDeleteCommandTimeout (c : RequestClient) (interest : CommandInterest) : RequestClient :=
  c.retry (deleteFile signer) interest

def onDeleteCommandNack (c : RequestClient) (interest : CommandInterest) : RequestClient :=
  c.retry (deleteFile signer) interest

def onGetCommandTimeout (c : RequestClient) (interest : CommandInterest) : RequestClient :=
  c.retry (getFile signer) interest

def onGetCommandNack (c : RequestClient) (interest : CommandInterest) : RequestClient :=
  c.retry (getFile signer) interest

inductive Failure where
  | timeout
  | nack
deriving DecidableEq

/-- Only an Interest without an answer fails, and it fails once. -/
def step (c : RequestClient) (failure : Failure) : Option RequestClient :=
  c.pending.map (fun pending =>
    let answered := { c with pending := none }
    match pending.1, failure with
    | .delete, .timeout => answered.onDeleteCommandTimeout signer pending.2
    | .delete, .nack => answered.onDeleteCommandNack signer pending.2
    | .get, .timeout => answered.onGetCommandTimeout signer pending.2
    | .get, .nack => answered.onGetCommandNack signer pending.2)

def request (c : RequestClient) : FileCommand → ClientName → RequestClient
  | .delete => c.deleteFile signer
  | .get => c.getFile signer

def cmdPrefix (c : RequestClient) : FileCommand → ClientName
  | .delete => c.mCommonName
  | .get => c.mRepoPrefix

end RequestClient

/-- The parameter is read from the component behind the command, as the handlers of a node do. -/
def CommandInterest.parameter (interest : CommandInterest) (cmdPrefix : ClientName) :
    Option (RepoCommandParameter clientCodecs) := do
  let component ← interest.name.1[cmdPrefix.1.length + 1]?
  let wire ← toBlock component.value
  (RepoCommandParameter.wireDecode {} wire).toOption

/-! ### One request -/

lemma length_wire_le {b : Block} {bs : List Block} (h : b ∈ bs) : b.wire.length ≤ (bs.flatMap Block.wire).length := by
  rw [List.flatMap_def]
  exact (List.sublist_flatten_of_mem (List.mem_map_of_mem h)).length_le

namespace FileCommand

def word : FileCommand → Block
  | delete => RequestClient.deleteWord
  | get => RequestClient.getWord

def parameter (name : ClientName) : FileCommand → RepoCommandParameter clientCodecs
  | delete => (({} : RepoCommandParameter clientCodecs).setProcessId 0).setName name
  | get => ({} : RepoCommandParameter clientCodecs).setName name

lemma mName_parameter (command : FileCommand) (name : ClientName) : (command.parameter name).mName = some name := by
  cases command <;> rfl

lemma mWire_parameter (command : FileCommand) (name : ClientName) : (command.parameter name).mWire = none := by
  cases command <;> rfl

lemma ownTypes_parameter (command : FileCommand) (name : ClientName) : (command.parameter name).OwnTypes := by
  constructor
  all_goals
    intro b hb
    cases command <;> cases hb

lemma encode_mem_blocks (command : FileCommand) (name : ClientName) :
    clientCodecs.name.encode name ∈ (command.parameter name).blocks := by
  cases command <;> exact List.mem_cons_self

end FileCommand

lemma ClientName.append_eq_some {name appended : ClientName} {components : List Block}
    (h : name.append components = some appended) : appended.1 = name.1 ++ components := by
  unfold ClientName.append at h
  split_ifs at h
  rw [← Option.some.inj h]

lemma componentOf_eq_some {wire component : Block} (htype : wire.type = tlv.RepoCommandParameter)
    (h : componentOf wire = some component) : component.value = wire.wire := by
  have hwrap : ¬ wire.type = tlv.GenericNameComponent := by
    rw [htype]
    decide
  unfold componentOf at h
  rw [if_neg hwrap] at h
  split_ifs at h
  rw [← Option.some.inj h]

namespace RequestClient

variable {signer : Signer} {c c' t : RequestClient} {command : FileCommand} {name n first second : ClientName}
  {signed : ℕ}

/-- The name of the Interest of a request. -/
def requestName (signer : Signer) (c : RequestClient) (signed : ℕ) (command : FileCommand) (name : ClientName) :
    Option ClientName :=
  commandName signer signed (c.cmdPrefix command) command.word (command.parameter name)

/-- An Interest with the settings of the client. -/
def interestOf (c : RequestClient) (command : FileCommand) (name : ClientName) : CommandInterest where
  name := name
  forwardingHint := c.mForwardingHint
  interestLifetime := c.mInterestLifetime
  canBePrefix := if command = .get then some true else none
  mustBeFresh := true

lemma request_eq (signer : Signer) (c : RequestClient) (command : FileCommand) (name : ClientName) :
    c.request signer command name = match requestName signer c c.sent.length command name with
      | none => c
      | some n => c.expressInterest command (c.interestOf command n) := by
  cases command <;> rfl

lemma request_of_none (h : requestName signer c c.sent.length command name = none) :
    c.request signer command name = c := by
  rw [request_eq, h]

lemma request_of_some (h : requestName signer c c.sent.length command name = some n) :
    c.request signer command name = c.expressInterest command (c.interestOf command n) := by
  rw [request_eq, h]

lemma exists_of_requestName (h : requestName signer c signed command name = some n) :
    ∃ wire component : Block, toBlock ((command.parameter name).wireEncodeTo {}).buffer = some wire ∧
      component.value = wire.wire ∧
      ∃ signature, n.1 = (c.cmdPrefix command).1 ++ [command.word, component] ++ signature := by
  unfold requestName commandName at h
  simp only [Option.bind_eq_bind, Option.bind_eq_some_iff] at h
  obtain ⟨wire, hwire, component, hcomponent, cmd, hcmd, hn⟩ := h
  have hblock : toBlock ((command.parameter name).wireEncodeTo {}).buffer = some wire := by
    unfold RepoCommandParameter.wireEncode at hwire
    rw [FileCommand.mWire_parameter] at hwire
    exact hwire
  refine ⟨wire, component, hblock, ?_, signer signed cmd.1, ?_⟩
  · exact componentOf_eq_some (ParameterFields.toBlock_wireEncodeTo.mp hblock).1 hcomponent
  · rw [ClientName.append_eq_some hn, ClientName.append_eq_some hcmd]

/-- A node reads from the Interest of a request the name that was asked for. -/
theorem parameter_of_requestName (h : requestName signer c signed command name = some n) (interest : CommandInterest)
    (hname : interest.name = n) :
    ∃ p, interest.parameter (c.cmdPrefix command) = some p ∧ p.mName = some name := by
  obtain ⟨wire, component, hwire, hvalue, signature, hn⟩ := exists_of_requestName h
  have hget : n.1[(c.cmdPrefix command).1.length + 1]? = some component := by
    rw [hn, List.append_assoc, List.getElem?_append_right (Nat.le_add_right _ 1), Nat.add_sub_cancel_left]
    rfl
  have hblock : toBlock component.value = some wire := toBlock_eq_some.mpr hvalue
  have hdecode := RepoCommandParameter.wireDecode_of_toBlock (command.ownTypes_parameter name) hwire
  refine ⟨{ command.parameter name with mWire := some wire }, ?_, command.mName_parameter name⟩
  unfold CommandInterest.parameter
  rw [hname, hget]
  dsimp only [Option.bind_eq_bind, Option.bind_some]
  rw [hblock, Option.bind_some, hdecode]
  rfl

/-- The Interest of a request has a longer name than the one that was asked for. -/
lemma length_lt_of_requestName (h : requestName signer c signed command name = some n) :
    (name.1.flatMap Block.wire).length < (n.1.flatMap Block.wire).length := by
  obtain ⟨wire, component, hwire, hvalue, signature, hn⟩ := exists_of_requestName h
  have hparameter := length_wire_le (command.encode_mem_blocks name)
  have hcomponent : component.wire.length ≤ (n.1.flatMap Block.wire).length := by
    apply length_wire_le
    rw [hn]
    simp
  have hencode : (clientCodecs.name.encode name).value.length = (name.1.flatMap Block.wire).length := rfl
  have hheader := length_varNumber_pos (clientCodecs.name.encode name).type.number
  rw [← (ParameterFields.toBlock_wireEncodeTo.mp hwire).2, Block.length_wire, hencode] at hparameter
  rw [Block.length_wire, hvalue, Block.length_wire] at hcomponent
  omega

/-! ### A run of failures -/

lemma step_eq_some {failure : Failure} : c.step signer failure = some c' ↔ ∃ command interest,
    c.pending = some (command, interest) ∧
      c' = { c with pending := none }.retry (fun c => c.request signer command) interest := by
  unfold step
  rw [Option.map_eq_some_iff]
  constructor
  · rintro ⟨⟨command, interest⟩, hpending, rfl⟩
    refine ⟨command, interest, hpending, ?_⟩
    cases command <;> cases failure <;> rfl
  · rintro ⟨command, interest, hpending, rfl⟩
    refine ⟨(command, interest), hpending, ?_⟩
    cases command <;> cases failure <;> rfl

lemma length_request_le (signer : Signer) (c : RequestClient) (command : FileCommand) (name : ClientName) :
    (c.request signer command name).sent.length ≤ c.sent.length + 1 := by
  cases h : requestName signer c c.sent.length command name with
  | none =>
    rw [request_of_none h]
    exact Nat.le_succ _
  | some n =>
    rw [request_of_some h]
    exact (List.length_append ..).le

lemma mRetryCount_request (c : RequestClient) (command : FileCommand) (name : ClientName) :
    (c.request signer command name).mRetryCount = c.mRetryCount := by
  cases h : requestName signer c c.sent.length command name with
  | none => rw [request_of_none h]
  | some n =>
    rw [request_of_some h]
    rfl

lemma sent_prefix_request (c : RequestClient) (command : FileCommand) (name : ClientName) :
    c.sent <+: (c.request signer command name).sent := by
  cases h : requestName signer c c.sent.length command name with
  | none => rw [request_of_none h]
  | some n =>
    rw [request_of_some h]
    exact List.prefix_append _ _

/-- Every Interest after the first was counted, up to the limit. -/
structure Counted (c : RequestClient) : Prop where
  nonneg : 0 ≤ c.mRetryCount
  length_le : (c.sent.length : ℤ) ≤ 1 + min c.mRetryCount MAX_RETRY

lemma Counted.step {failure : Failure} (h : c.Counted) (hstep : c.step signer failure = some c') : c'.Counted := by
  obtain ⟨command, interest, -, rfl⟩ := step_eq_some.mp hstep
  have hnonneg := h.nonneg
  have hlength := h.length_le
  unfold retry
  dsimp only
  split_ifs with hlt
  · have hmore := length_request_le signer { c with pending := none, mRetryCount := c.mRetryCount + 1 }
      command interest.name
    constructor
    · rw [mRetryCount_request]
      dsimp only
      omega
    · rw [mRetryCount_request]
      dsimp only at hmore ⊢
      omega
  · constructor
    · dsimp only
      omega
    · dsimp only
      omega

/-- A client that has sent nothing yet. -/
structure Fresh (c : RequestClient) : Prop where
  mRetryCount : c.mRetryCount = 0
  sent : c.sent = []
  pending : c.pending = none

lemma Fresh.counted (h : c.Fresh) (command : FileCommand) (name : ClientName) :
    (c.request signer command name).Counted := by
  have hlength := length_request_le signer c command name
  rw [h.sent, List.length_nil] at hlength
  constructor
  · rw [mRetryCount_request, h.mRetryCount]
  · rw [mRetryCount_request, h.mRetryCount]
    have hmin : min (0 : ℤ) MAX_RETRY = 0 := by decide
    omega

/-- A request is sent at most once more for every retry. -/
theorem length_sent_le (hfresh : c.Fresh) {failures : List Failure}
    (hrun : EventRun.run (step signer) (c.request signer command name) failures = some t) :
    (t.sent.length : ℤ) ≤ 1 + MAX_RETRY := by
  have hcounted := EventRun.reachable_invariant (fun c failure c' hc hstep => Counted.step hc hstep)
    (hfresh.counted command name) ⟨failures, hrun⟩
  have hlength := hcounted.length_le
  omega

lemma sent_prefix_run {failures : List Failure} (hrun : EventRun.run (step signer) c failures = some t) :
    c.sent <+: t.sent := by
  apply EventRun.reachable_invariant (I := fun t => c.sent <+: t.sent) _ (List.prefix_rfl) ⟨failures, hrun⟩
  intro d failure d' hd hstep
  obtain ⟨command, interest, -, rfl⟩ := step_eq_some.mp hstep
  apply hd.trans
  unfold retry
  dsimp only
  split_ifs
  · exact sent_prefix_request { d with pending := none, mRetryCount := d.mRetryCount + 1 } command interest.name
  · exact List.prefix_rfl

/-! ### What the retries ask for -/

/-- All Interests ask for the name, and they are one more than the retries at most. -/
def Repeats (cmdPrefix name : ClientName) (sent : List CommandInterest) : Prop :=
  (∀ interest ∈ sent, ∃ p, interest.parameter cmdPrefix = some p ∧ p.mName = some name) ∧
    (sent.length : ℤ) ≤ 1 + MAX_RETRY

/-- The name of the first Interest can be encoded in a second one. -/
def FitsAgain (signer : Signer) (c : RequestClient) (command : FileCommand) (name : ClientName) : Prop :=
  ∃ first second, requestName signer c 0 command name = some first ∧ requestName signer c 1 command first = some second

lemma Fresh.requestName_of_some (hfresh : c.Fresh) (h : requestName signer c 0 command name = some n) :
    c.request signer command name = c.expressInterest command (c.interestOf command n) := by
  apply request_of_some
  rw [hfresh.sent]
  exact h

lemma Fresh.requestName_of_none (hfresh : c.Fresh) (h : requestName signer c 0 command name = none) :
    c.request signer command name = c := by
  apply request_of_none
  rw [hfresh.sent]
  exact h

/-- Where no Interest waits for an answer, nothing fails. -/
lemma run_of_pending_none (h : c.pending = none) {failures : List Failure}
    (hrun : EventRun.run (step signer) c failures = some t) : failures = [] ∧ c = t := by
  cases failures with
  | nil => exact ⟨rfl, Option.some.inj hrun⟩
  | cons failure rest =>
    obtain ⟨d, hstep, -⟩ := EventRun.run_cons_eq_some.mp hrun
    obtain ⟨command, interest, hpending, -⟩ := step_eq_some.mp hstep
    rw [h] at hpending
    cases hpending

/-- The client after the first failure, before it sends again. -/
def failedOnce (c : RequestClient) (command : FileCommand) (first : ClientName) : RequestClient :=
  { c.expressInterest command (c.interestOf command first) with
    mRetryCount := c.mRetryCount + 1
    pending := none }

/-- The first failure asks for the name of the Interest. -/
lemma Fresh.step_request (hfresh : c.Fresh) (hfirst : requestName signer c 0 command name = some first)
    {failure : Failure} (hstep : (c.request signer command name).step signer failure = some c') :
    c' = (c.failedOnce command first).request signer command first := by
  obtain ⟨command', interest, hpending, rfl⟩ := step_eq_some.mp hstep
  rw [hfresh.requestName_of_some hfirst] at hpending ⊢
  cases hpending
  have hlt : c.mRetryCount < MAX_RETRY := by
    rw [hfresh.mRetryCount]
    decide
  exact if_pos hlt

lemma Fresh.sent_failedOnce (hfresh : c.Fresh) (first : ClientName) :
    (c.failedOnce command first).sent = [c.interestOf command first] := by
  unfold failedOnce expressInterest
  dsimp only
  rw [hfresh.sent, List.nil_append]

lemma Fresh.requestName_failedOnce (hfresh : c.Fresh) (first : ClientName) :
    requestName signer (c.failedOnce command first) (c.failedOnce command first).sent.length command first =
      requestName signer c 1 command first := by
  rw [hfresh.sent_failedOnce, List.length_singleton]
  cases command <;> rfl

/-- The first Interest asks for the name. -/
lemma first_asks (hfirst : requestName signer c 0 command name = some first) :
    ∀ interest ∈ [c.interestOf command first], ∃ p, interest.parameter (c.cmdPrefix command) = some p ∧
      p.mName = some name :=
  List.forall_mem_singleton.mpr (parameter_of_requestName hfirst (c.interestOf command first) rfl)

/-- The second Interest asks for the name of the first, which is longer. -/
lemma second_asks_other (hfirst : requestName signer c 0 command name = some first)
    (hsecond : requestName signer c 1 command first = some second) :
    ¬ ∃ p, (c.interestOf command second).parameter (c.cmdPrefix command) = some p ∧ p.mName = some name := by
  rintro ⟨p, hp, hrepeated⟩
  have hlonger := length_lt_of_requestName hfirst
  obtain ⟨q, hq, hname⟩ := parameter_of_requestName hsecond (c.interestOf command second) rfl
  rw [hp, Option.some_inj] at hq
  rw [hq, hname, Option.some_inj] at hrepeated
  rw [hrepeated] at hlonger
  exact lt_irrefl _ hlonger

/-- The Interests of a request all ask for its name exactly when the first one is not followed by
another. -/
theorem repeats_request_iff (signer : Signer) (hfresh : c.Fresh) (command : FileCommand) (name : ClientName)
    {failures : List Failure} (hrun : EventRun.run (step signer) (c.request signer command name) failures = some t) :
    Repeats (c.cmdPrefix command) name t.sent ↔ failures = [] ∨ ¬ FitsAgain signer c command name := by
  have hcount := length_sent_le hfresh hrun
  cases hfirst : requestName signer c 0 command name with
  | none =>
    -- nothing was sent, so nothing can fail
    rw [hfresh.requestName_of_none hfirst] at hrun
    obtain ⟨rfl, rfl⟩ := run_of_pending_none hfresh.pending hrun
    refine iff_of_true ⟨?_, hcount⟩ (Or.inl rfl)
    rw [hfresh.sent]
    exact List.forall_mem_nil _
  | some first =>
    cases failures with
    | nil =>
      cases hrun
      refine iff_of_true ⟨?_, hcount⟩ (Or.inl rfl)
      have hone : (c.request signer command name).sent = [c.interestOf command first] := by
        rw [hfresh.requestName_of_some hfirst]
        exact hfresh.sent_failedOnce first
      rw [hone]
      exact first_asks hfirst
    | cons failure rest =>
      obtain ⟨d, hstep, hrest⟩ := EventRun.run_cons_eq_some.mp hrun
      rw [hfresh.step_request hfirst hstep] at hrest
      cases hsecond : requestName signer c 1 command first with
      | none =>
        have hnone := hsecond
        rw [← hfresh.requestName_failedOnce] at hnone
        rw [request_of_none hnone] at hrest
        obtain ⟨rfl, rfl⟩ := run_of_pending_none rfl hrest
        refine iff_of_true ⟨?_, hcount⟩ (Or.inr ?_)
        · rw [hfresh.sent_failedOnce]
          exact first_asks hfirst
        · rintro ⟨first', second, hfirst', hfits⟩
          rw [hfirst, Option.some_inj] at hfirst'
          rw [hfirst', hfits] at hsecond
          cases hsecond
      | some second =>
        have hfits : FitsAgain signer c command name := ⟨first, second, hfirst, hsecond⟩
        refine iff_of_false ?_ (not_or.mpr ⟨List.cons_ne_nil _ _, not_not.mpr hfits⟩)
        rintro ⟨hall, -⟩
        apply second_asks_other hfirst hsecond
        apply hall
        rw [← hfresh.requestName_failedOnce] at hsecond
        rw [request_of_some hsecond] at hrest
        apply (sent_prefix_run hrest).subset
        exact List.mem_append_right _ List.mem_cons_self

/-- The names `/film` and `/repo`. -/
def filmRequest : ClientName := ⟨[word [0x66, 0x69, 0x6c, 0x6d] (by decide)], by decide⟩

def repoPrefix : ClientName := ⟨[word [0x72, 0x65, 0x70, 0x6f] (by decide)], by decide⟩

def repoClient : RequestClient where
  mCommonName := repoPrefix
  mRepoPrefix := repoPrefix
  mForwardingHint := none
  mInterestLifetime := 4000
  mRetryCount := 0

/-- A signature of one byte. -/
def shortSigner : Signer := fun _ _ => [word [0] (by decide)]

theorem film_requested : Repeats repoPrefix filmRequest (repoClient.request shortSigner .get filmRequest).sent := by
  have hfresh : repoClient.Fresh := ⟨rfl, rfl, rfl⟩
  have hrun : EventRun.run (step shortSigner) (repoClient.request shortSigner .get filmRequest) [] =
    some (repoClient.request shortSigner .get filmRequest) := rfl
  exact (repeats_request_iff shortSigner hfresh .get filmRequest hrun).mpr (Or.inl rfl)

/-- The Interest after a timeout asks for the name of the Interest before it. -/
theorem film_not_requested_again : ¬ ∀ (signer : Signer) (c : RequestClient) (command : FileCommand) (name : ClientName)
    (failures : List Failure) (t : RequestClient), c.Fresh →
      EventRun.run (step signer) (c.request signer command name) failures = some t →
        Repeats (c.cmdPrefix command) name t.sent := by
  intro h
  have hother : (EventRun.run (step shortSigner) (repoClient.request shortSigner .get filmRequest) [.timeout]).any
      (fun t => t.sent.any (fun interest =>
        (interest.parameter repoPrefix).bind (fun p => p.mName) ≠ some filmRequest)) = true := by
    decide +kernel
  obtain ⟨t, hrun, ht⟩ := (Option.any_eq_true _ _).mp hother
  obtain ⟨interest, hmem, hne⟩ := List.any_eq_true.mp ht
  obtain ⟨p, hp, hname⟩ := (h shortSigner repoClient .get filmRequest [.timeout] t ⟨rfl, rfl, rfl⟩ hrun).1 interest hmem
  apply of_decide_eq_true hne
  have hparameter : interest.parameter repoPrefix = some p := hp
  rw [hparameter, Option.bind_some, hname]

end RequestClient

end Difs.Command
