import Difs.Insert.WriteHandle
import Difs.Lib.Asserted

/-!
# Validated command parameters

The dispatcher passes on the parameter of a command when the fields that the command requires are
there, and no others than those and the optional ones. The getters of the numbers assert that their
field is there.
-/

namespace Difs

inductive RepoParameterField where
  | nodePrefix
  | name
  | fromKey
  | toKey
  | startBlockId
  | endBlockId
  | processId
  | interestLifetime
  | clusterPrefix
deriving DecidableEq

namespace RepoParameterField

/-- The fields in the order of their numbers. -/
def all : List RepoParameterField :=
  [nodePrefix, name, fromKey, toKey, startBlockId, endBlockId, processId, interestLifetime, clusterPrefix]

/-- `REPO_PARAMETER_FIELD`. -/
def text : RepoParameterField → String
  | nodePrefix => "NodePrefix"
  | name => "Name"
  | fromKey => "From"
  | toKey => "To"
  | startBlockId => "StartBlockId"
  | endBlockId => "EndBlockId"
  | processId => "ProcessId"
  | interestLifetime => "InterestLifetime"
  | clusterPrefix => "ClusterPrefix"

lemma mem_all (field : RepoParameterField) : field ∈ all := by
  cases field <;> decide

end RepoParameterField

/-- A parameter with the flags of all its fields. -/
structure CommandParameter (L : NameLibrary) extends RepoCommandParameter L where
  hasName : Bool := false
  hasFrom : Bool := false
  hasTo : Bool := false
  hasProcessId : Bool := false
  hasClusterPrefix : Bool := false
deriving DecidableEq

namespace CommandParameter

variable {L : NameLibrary}

def getPresentFields (p : CommandParameter L) : RepoParameterField → Bool
  | .nodePrefix => p.nodePrefix.isSome
  | .name => p.hasName
  | .fromKey => p.hasFrom
  | .toKey => p.hasTo
  | .startBlockId => p.hasStartBlockId
  | .endBlockId => p.hasEndBlockId
  | .processId => p.hasProcessId
  | .interestLifetime => p.hasInterestLifetime
  | .clusterPrefix => p.hasClusterPrefix

def getStartBlockId (p : CommandParameter L) : Asserted RepoParameterField UInt64 := do
  Asserted.assert p.hasStartBlockId .startBlockId
  return p.startBlockId

def getEndBlockId (p : CommandParameter L) : Asserted RepoParameterField UInt64 := do
  Asserted.assert p.hasEndBlockId .endBlockId
  return p.endBlockId

def getProcessId (p : CommandParameter L) : Asserted RepoParameterField UInt64 := do
  Asserted.assert p.hasProcessId .processId
  return p.processId

def getInterestLifetime (p : CommandParameter L) : Asserted RepoParameterField ℕ := do
  Asserted.assert p.hasInterestLifetime .interestLifetime
  return p.interestLifetime

end CommandParameter

structure FieldValidator where
  mRequired : RepoParameterField → Bool := fun _ => false
  mOptional : RepoParameterField → Bool := fun _ => false

namespace FieldValidator

def required (v : FieldValidator) (field : RepoParameterField) : FieldValidator :=
  { v with mRequired := Function.update v.mRequired field true }

def optional (v : FieldValidator) (field : RepoParameterField) : FieldValidator :=
  { v with mOptional := Function.update v.mOptional field true }

def validateField (v : FieldValidator) (present : RepoParameterField → Bool) (field : RepoParameterField) :
    Except String Unit :=
  if v.mRequired field then
    if present field then .ok () else .error (field.text ++ " is required but missing")
  else if present field && !v.mOptional field then .error (field.text ++ " is forbidden but present")
  else .ok ()

/-- The error is that of the first field that has one. -/
def validate (v : FieldValidator) (present : RepoParameterField → Bool) : Except String Unit :=
  RepoParameterField.all.forM (v.validateField present)

end FieldValidator

/-- A command with the check that it makes itself. -/
structure RepoCommand (L : NameLibrary) where
  mRequestValidator : FieldValidator
  check : CommandParameter L → Asserted RepoParameterField (Except String Unit) := fun _ => pure (.ok ())

namespace RepoCommand

variable {L : NameLibrary}

def validateRequest (c : RepoCommand L) (p : CommandParameter L) :
    Asserted RepoParameterField (Except String Unit) :=
  match c.mRequestValidator.validate p.getPresentFields with
  | .error what => pure (.error what)
  | .ok () => c.check p

def validateParameters (c : RepoCommand L) (p : CommandParameter L) : Asserted RepoParameterField Bool := do
  return (← c.validateRequest p).isOk

def insertCommand : RepoCommand L where
  mRequestValidator := (({} : FieldValidator).required .name).optional .startBlockId |>.optional .endBlockId
    |>.optional .nodePrefix

def insertCheckCommand : RepoCommand L where
  mRequestValidator := (({} : FieldValidator).required .name).required .processId |>.optional .nodePrefix

def deleteCheck (p : CommandParameter L) : Asserted RepoParameterField (Except String Unit) :=
  if p.hasStartBlockId || p.hasEndBlockId then
    if p.hasEndBlockId then do
      let startBlockId ← p.getStartBlockId
      let endBlockId ← p.getEndBlockId
      if startBlockId > endBlockId then return .error "start block Id is bigger than end block Id"
      else return .ok ()
    else pure (.error "Segmented deletion without EndBlockId, not implemented")
  else pure (.ok ())

def deleteCommand : RepoCommand L where
  mRequestValidator := (({} : FieldValidator).required .name).required .processId
  check := deleteCheck

end RepoCommand

/-! ### Accepted parameters -/

namespace FieldValidator

variable {v : FieldValidator} {present : RepoParameterField → Bool} {field : RepoParameterField}

lemma validateField_eq_ok : v.validateField present field = .ok () ↔
    (v.mRequired field → present field) ∧ (present field → v.mRequired field ∨ v.mOptional field) := by
  unfold validateField
  cases v.mRequired field <;> cases v.mOptional field <;> cases present field <;> simp

lemma forM_cons_eq (field : RepoParameterField) (fields : List RepoParameterField) :
    (field :: fields).forM (v.validateField present) =
      v.validateField present field >>= fun _ => fields.forM (v.validateField present) := rfl

lemma forM_eq_ok {fields : List RepoParameterField} :
    fields.forM (v.validateField present) = .ok () ↔ ∀ field ∈ fields, v.validateField present field = .ok () := by
  induction fields with
  | nil => exact iff_of_true rfl (List.forall_mem_nil _)
  | cons field fields ih =>
    rw [List.forall_mem_cons, ← ih, forM_cons_eq]
    cases v.validateField present field with
    | error what => exact iff_of_false nofun (fun h => nomatch h.1)
    | ok u => exact (and_iff_right rfl).symm

lemma exists_of_forM_eq_error {fields : List RepoParameterField} {what : String}
    (h : fields.forM (v.validateField present) = .error what) :
    ∃ before field after, fields = before ++ field :: after ∧
      (∀ f ∈ before, v.validateField present f = .ok ()) ∧ v.validateField present field = .error what := by
  induction fields with
  | nil => cases h
  | cons field fields ih =>
    rw [forM_cons_eq] at h
    cases hfield : v.validateField present field with
    | error other =>
      rw [hfield] at h
      cases h
      exact ⟨[], field, fields, rfl, List.forall_mem_nil _, hfield⟩
    | ok u =>
      rw [hfield] at h
      obtain ⟨before, failing, after, rfl, hbefore, hfailing⟩ := ih h
      exact ⟨field :: before, failing, after, rfl, List.forall_mem_cons.mpr ⟨hfield, hbefore⟩, hfailing⟩

/-- All required fields are there, and all others are optional. -/
theorem validate_eq_ok : v.validate present = .ok () ↔
    ∀ field, (v.mRequired field → present field) ∧ (present field → v.mRequired field ∨ v.mOptional field) := by
  unfold validate
  rw [forM_eq_ok]
  simp only [validateField_eq_ok, RepoParameterField.mem_all, true_imp_iff]

/-- A rejection names the first field that is missing or forbidden. -/
theorem validate_eq_error {what : String} (h : v.validate present = .error what) :
    ∃ before field after, RepoParameterField.all = before ++ field :: after ∧
      (∀ f ∈ before, v.validateField present f = .ok ()) ∧
      (v.mRequired field ∧ ¬ present field ∧ what = field.text ++ " is required but missing" ∨
        present field ∧ ¬ v.mRequired field ∧ ¬ v.mOptional field ∧
          what = field.text ++ " is forbidden but present") := by
  obtain ⟨before, field, after, hall, hbefore, hfield⟩ := exists_of_forM_eq_error h
  refine ⟨before, field, after, hall, hbefore, ?_⟩
  unfold validateField at hfield
  split_ifs at hfield with hrequired hpresent hforbidden
  · cases hfield
    exact Or.inl ⟨hrequired, hpresent, rfl⟩
  · cases hfield
    rw [Bool.and_eq_true, Bool.not_eq_true'] at hforbidden
    exact Or.inr ⟨hforbidden.1, hrequired, Bool.eq_false_iff.mp hforbidden.2, rfl⟩

end FieldValidator

namespace RepoCommand

variable {L : NameLibrary} {c : RepoCommand L} {p : CommandParameter L}

/-- The parameter is passed on to the handler. -/
def Accepts (c : RepoCommand L) (p : CommandParameter L) : Prop := (c.validateParameters p).value = true

lemma Accepts.fields (h : c.Accepts p) (field : RepoParameterField) :
    (c.mRequestValidator.mRequired field → p.getPresentFields field) ∧
      (p.getPresentFields field → c.mRequestValidator.mRequired field ∨ c.mRequestValidator.mOptional field) := by
  apply FieldValidator.validate_eq_ok.mp
  unfold Accepts validateParameters validateRequest at h
  cases hvalid : c.mRequestValidator.validate p.getPresentFields with
  | error what =>
    rw [hvalid] at h
    cases h
  | ok u => rfl

/-- A process id is among the fields that an insert must not have. -/
lemma insert_hasProcessId (h : insertCommand.Accepts p) : p.hasProcessId = false := by
  apply Bool.eq_false_iff.mpr
  intro hpresent
  exact ((h.fields .processId).2 hpresent).elim Bool.false_ne_true Bool.false_ne_true

lemma insertCheck_hasProcessId (h : insertCheckCommand.Accepts p) : p.hasProcessId = true :=
  (h.fields .processId).1 rfl

lemma delete_hasProcessId (h : deleteCommand.Accepts p) : p.hasProcessId = true :=
  (h.fields .processId).1 rfl

/-- No assertion fails in the validation itself: a delete has no blocks to check. -/
theorem failed_validateParameters_delete (p : CommandParameter L) :
    (deleteCommand.validateParameters p).failed = [] := by
  have hfailed : (deleteCommand.validateRequest p).failed = [] := by
    unfold validateRequest
    cases hvalid : deleteCommand.mRequestValidator.validate p.getPresentFields with
    | error what => rfl
    | ok u =>
      have hfields := FieldValidator.validate_eq_ok.mp hvalid
      have hstart : p.hasStartBlockId = false := Bool.eq_false_iff.mpr
        (fun hpresent => ((hfields .startBlockId).2 hpresent).elim Bool.false_ne_true Bool.false_ne_true)
      have hend : p.hasEndBlockId = false := Bool.eq_false_iff.mpr
        (fun hpresent => ((hfields .endBlockId).2 hpresent).elim Bool.false_ne_true Bool.false_ne_true)
      unfold deleteCommand deleteCheck
      dsimp only
      rw [hstart, hend]
      rfl
  unfold validateParameters
  rw [Asserted.failed_bind, hfailed]
  rfl

end RepoCommand

end Difs
