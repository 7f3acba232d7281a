import Mathlib

/-!
# Names

The names of the network library as far as the handlers use them, and the text operations
that the handlers apply to their URIs.
-/

namespace Difs

/-- Names are lists of components. The URI of a component has no slash and reads back, with or
without the slash in front, and so does the URI of a name. -/
structure NameLibrary where
  Component : Type
  decEq : DecidableEq Component
  componentUri : Component → String
  uri : List Component → String
  ofUri : String → List Component
  segment : UInt64 → Component
  slash_not_mem : ∀ c, '/' ∉ (componentUri c).toList
  uri_singleton : ∀ c, uri [c] = "/" ++ componentUri c
  ofUri_componentUri : ∀ c, ofUri (componentUri c) = [c]
  ofUri_uri : ∀ cs, ofUri (uri cs) = cs

namespace NameLibrary

variable (L : NameLibrary)

abbrev Name := List L.Component

instance : DecidableEq L.Component := L.decEq

def appendSegment (name : L.Name) (segmentNo : UInt64) : L.Name := name ++ [L.segment segmentNo]

variable {L}

lemma uri_injective : Function.Injective L.uri := Function.LeftInverse.injective L.ofUri_uri

end NameLibrary

/-! ### `std::string` -/

/-- `std::string::npos`. -/
def npos : ℕ := 2 ^ 64 - 1

/-- `std::string::rfind` of one character. -/
def rfind (text : String) (ch : Char) : ℕ :=
  match text.toList.reverse.findIdx? (fun d => d = ch) with
  | none => npos
  | some k => text.toList.length - 1 - k

/-- `std::string::substr` up to the end. -/
def substr (text : String) (pos : ℕ) : String := String.ofList (text.toList.drop pos)

lemma rfind_head {ch : Char} {text : String} (h : ch ∉ text.toList) : rfind (String.singleton ch ++ text) ch = 0 := by
  have hrev : (String.singleton ch ++ text).toList.reverse = text.toList.reverse ++ [ch] := by simp
  have hidx : (text.toList.reverse ++ [ch]).findIdx? (fun d => d = ch) = some text.toList.length := by
    rw [List.findIdx?_append, List.findIdx?_eq_none_iff.mpr]
    · simp
    · intro d hd
      simp only [decide_eq_false_iff_not]
      rintro rfl
      exact h (List.mem_reverse.mp hd)
  unfold rfind
  rw [hrev, hidx]
  simp

lemma substr_append (s t : String) : substr (s ++ t) s.toList.length = t := by
  simp [substr]

/-! ### Components that are their own URIs -/

structure PlainComponent where
  text : String
  ne : text ≠ ""
  slash : '/' ∉ text.toList
deriving DecidableEq

namespace PlainComponent

def read (cs : List Char) : Option PlainComponent :=
  if h : cs ≠ [] ∧ '/' ∉ cs then
    some ⟨String.ofList cs, by simpa using h.1, by simpa using h.2⟩
  else none

lemma read_toList (c : PlainComponent) : read c.text.toList = some c := by
  have h : c.text.toList ≠ [] ∧ '/' ∉ c.text.toList := ⟨by simpa using c.ne, c.slash⟩
  unfold read
  rw [dif_pos h]
  simp

def segment (segmentNo : UInt64) : PlainComponent where
  text := "seg=" ++ Nat.repr segmentNo.toNat
  ne := by
    intro h
    have hlen := congrArg String.length h
    rw [String.length_append] at hlen
    simp at hlen
  slash := by
    rw [String.toList_append, Nat.toList_repr, List.mem_append]
    rintro (h | h)
    · simp at h
    · have hdigit := Nat.isDigit_of_mem_toDigits (by decide) (by decide) h
      simp at hdigit

def uri (cs : List PlainComponent) : String :=
  String.ofList ('/' :: ['/'].intercalate (cs.map (fun c => c.text.toList)))

def ofUri (text : String) : List PlainComponent :=
  let chars := if text.toList.head? = some '/' then text.toList.tail else text.toList
  (chars.splitOn '/').filterMap read

lemma ofUri_uri (cs : List PlainComponent) : ofUri (uri cs) = cs := by
  have hread : (cs.map (fun c => c.text.toList)).filterMap read = cs := by
    rw [List.filterMap_map]
    have hsome : read ∘ (fun c : PlainComponent => c.text.toList) = some := funext read_toList
    rw [hsome, List.filterMap_some]
  unfold ofUri uri
  simp only [String.toList_ofList, List.head?_cons, if_true, List.tail_cons]
  cases cs with
  | nil => simp [read]
  | cons c cs =>
    rw [List.splitOn_intercalate, hread]
    · intro l hl
      obtain ⟨d, -, rfl⟩ := List.mem_map.mp hl
      exact d.slash
    · simp

lemma ofUri_text (c : PlainComponent) : ofUri c.text = [c] := by
  have hhead : c.text.toList.head? ≠ some '/' := by
    intro h
    exact c.slash (List.mem_of_mem_head? h)
  have hsplit : c.text.toList.splitOn '/' = [c.text.toList] := by
    have h : (['/'].intercalate [c.text.toList]).splitOn '/' = [c.text.toList] :=
      List.splitOn_intercalate '/' (by simpa using c.slash) (by simp)
    simpa using h
  unfold ofUri
  rw [if_neg hhead]
  dsimp only
  rw [hsplit, List.filterMap_cons, read_toList, List.filterMap_nil]

end PlainComponent

/-- Names whose components need no escapes. -/
def plainNames : NameLibrary where
  Component := PlainComponent
  decEq := inferInstance
  componentUri := PlainComponent.text
  uri := PlainComponent.uri
  ofUri := PlainComponent.ofUri
  segment := PlainComponent.segment
  slash_not_mem := PlainComponent.slash
  uri_singleton := by
    intro c
    ext1
    simp [PlainComponent.uri]
  ofUri_componentUri := PlainComponent.ofUri_text
  ofUri_uri := PlainComponent.ofUri_uri

end Difs
