import Difs.Lib.HexText

/-!
# Property trees

A node has a text and children with keys, of which several may be equal. A path of keys leads to
the first child of each key. Numbers are written and read as whole texts, in decimal digits, and
have to be 32-bit integers.
-/

namespace PropertyTree

inductive PTree where
  | node (data : String) (children : List (String × PTree))

/-! ### Numbers -/

/-- `stream << v`. -/
def writeInt (v : ℤ) : String := String.ofList ((if v < 0 then ['-'] else []) ++ Nat.toDigits 10 v.natAbs)

/-- Digits, and nothing but space after them. -/
def readMagnitude (cs : List Char) : Option ℕ :=
  if cs.takeWhile Char.isDigit = [] ∨ ¬ (cs.dropWhile Char.isDigit).all HexText.isSpace then none
  else some (Nat.ofDigitChars 10 (cs.takeWhile Char.isDigit) 0)

def readSigned : List Char → Option ℤ
  | '-' :: cs => (readMagnitude cs).map (fun n => -Int.ofNat n)
  | '+' :: cs => (readMagnitude cs).map Int.ofNat
  | cs => (readMagnitude cs).map Int.ofNat

/-- `none` is a text that is no 32-bit integer. -/
def readInt (text : String) : Option ℤ :=
  (readSigned (text.toList.dropWhile HexText.isSpace)).filter (fun v => -2 ^ 31 ≤ v ∧ v < 2 ^ 31)

example : readInt " +7 " = some 7 ∧ readInt "2147483648" = none ∧ readInt "1.5" = none := by decide

lemma isSpace_of_isDigit {c : Char} (h : c.isDigit = true) : HexText.isSpace c = false := by
  simp only [Char.isDigit, Bool.and_eq_true, decide_eq_true_eq, ge_iff_le, UInt32.le_iff_toNat_le] at h
  have hlow : ¬ c ≤ '\r' := by
    rw [Char.le_def, UInt32.le_iff_toNat_le]
    have hr : ('\r' : Char).val.toNat = 13 := rfl
    have hzero : ('0' : Char).val.toNat = 48 := rfl
    omega
  have hspace : c ≠ ' ' := by
    rintro rfl
    exact absurd h.1 (by decide)
  simp [HexText.isSpace, hlow, hspace]

lemma readMagnitude_toDigits (n : ℕ) : readMagnitude (Nat.toDigits 10 n) = some n := by
  have hdigit (c : Char) (hc : c ∈ Nat.toDigits 10 n) : c.isDigit = true :=
    Nat.isDigit_of_mem_toDigits (by decide) (by decide) hc
  have htake : (Nat.toDigits 10 n).takeWhile Char.isDigit = Nat.toDigits 10 n := List.takeWhile_eq_self_iff.mpr hdigit
  have hdrop : (Nat.toDigits 10 n).dropWhile Char.isDigit = [] := List.dropWhile_eq_nil_iff.mpr hdigit
  have hne : Nat.toDigits 10 n ≠ [] := Nat.toDigits_ne_nil
  unfold readMagnitude
  rw [htake, hdrop, if_neg (by simp [hne]), Nat.ofDigitChars_toDigits (by decide) (by decide)]

lemma exists_toDigits_eq_cons (n : ℕ) : ∃ c cs, Nat.toDigits 10 n = c :: cs ∧ c.isDigit = true := by
  obtain ⟨c, cs, heq⟩ := List.exists_cons_of_ne_nil (Nat.toDigits_ne_nil (n := n) (b := 10))
  refine ⟨c, cs, heq, Nat.isDigit_of_mem_toDigits (n := n) (b := 10) (by decide) (by decide) ?_⟩
  rw [heq]
  exact List.mem_cons_self

lemma readSigned_toDigits (n : ℕ) : readSigned (Nat.toDigits 10 n) = some (n : ℤ) := by
  obtain ⟨c, cs, heq, hc⟩ := exists_toDigits_eq_cons n
  have hread : readSigned (Nat.toDigits 10 n) = (readMagnitude (Nat.toDigits 10 n)).map Int.ofNat := by
    rw [heq]
    unfold readSigned
    split
    · rename_i heq'
      obtain ⟨rfl, -⟩ := List.cons.inj heq'
      cases hc
    · rename_i heq'
      obtain ⟨rfl, -⟩ := List.cons.inj heq'
      cases hc
    · rfl
  rw [hread, readMagnitude_toDigits]
  rfl

theorem readInt_writeInt {v : ℤ} (h0 : -2 ^ 31 ≤ v) (h1 : v < 2 ^ 31) : readInt (writeInt v) = some v := by
  have hread : readSigned (((if v < 0 then ['-'] else []) ++ Nat.toDigits 10 v.natAbs).dropWhile HexText.isSpace) =
      some v := by
    by_cases hneg : v < 0
    · rw [if_pos hneg]
      have hsign : (['-'] ++ Nat.toDigits 10 v.natAbs).dropWhile HexText.isSpace =
          '-' :: Nat.toDigits 10 v.natAbs := rfl
      rw [hsign, readSigned, readMagnitude_toDigits]
      simp only [Option.map_some, Int.ofNat_eq_natCast, Option.some.injEq]
      omega
    · rw [if_neg hneg, List.nil_append]
      obtain ⟨c, cs, heq, hc⟩ := exists_toDigits_eq_cons v.natAbs
      have hspace := isSpace_of_isDigit hc
      have hdrop : (Nat.toDigits 10 v.natAbs).dropWhile HexText.isSpace = Nat.toDigits 10 v.natAbs := by
        rw [heq, List.dropWhile_cons_of_neg (by rw [hspace]; exact Bool.false_ne_true)]
      rw [hdrop, readSigned_toDigits]
      simp only [Option.some.injEq]
      omega
  unfold readInt writeInt
  rw [String.toList_ofList, hread, Option.filter_some, if_pos]
  exact decide_eq_true ⟨h0, h1⟩

lemma range_of_readInt {text : String} {v : ℤ} (h : readInt text = some v) : -2 ^ 31 ≤ v ∧ v < 2 ^ 31 := by
  have hfilter := (Option.filter_eq_some_iff.mp h).2
  exact of_decide_eq_true hfilter

/-! ### Paths -/

namespace PTree

def data : PTree → String
  | node data _ => data

def children : PTree → List (String × PTree)
  | node _ children => children

def empty : PTree := node "" []

def find (t : PTree) (key : String) : Option PTree := t.children.lookup key

def getChild : List String → PTree → Option PTree
  | [], t => some t
  | key :: path, t => (t.find key).bind (getChild path)

def get (t : PTree) (path : List String) : Option String := (t.getChild path).map data

def getInt (t : PTree) (path : List String) : Option ℤ := (t.get path).bind readInt

/-- Changes the first child of a key, or adds one. -/
def alter (key : String) (change : Option PTree → PTree) : List (String × PTree) → List (String × PTree)
  | [] => [(key, change none)]
  | (other, t) :: children =>
    if other = key then (key, change (some t)) :: children else (other, t) :: alter key change children

/-- Writes a text at a path and makes the nodes that are missing on the way. -/
def put : List String → String → PTree → PTree
  | [], value, t => node value t.children
  | key :: path, value, t => node t.data (alter key (fun child => put path value (child.getD empty)) t.children)

def addChild (t : PTree) (key : String) (child : PTree) : PTree := node t.data (t.children ++ [(key, child)])

def putInt (path : List String) (v : ℤ) (t : PTree) : PTree := t.put path (writeInt v)

variable {key other : String} {path path' : List String} {value : String} {t child : PTree}

lemma lookup_alter (key other : String) (change : Option PTree → PTree) (children : List (String × PTree)) :
    (alter key change children).lookup other =
      if other = key then some (change (children.lookup key)) else children.lookup other := by
  induction children with
  | nil =>
    by_cases h : other = key
    · simp [alter, List.lookup, h]
    · simp [alter, List.lookup, h, beq_false_of_ne h]
  | cons head children ih =>
    obtain ⟨k, t⟩ := head
    unfold alter
    by_cases hk : k = key
    · rw [if_pos hk, hk]
      by_cases h : other = key
      · simp [h]
      · simp [List.lookup_cons, h, beq_false_of_ne h]
    · rw [if_neg hk, List.lookup_cons, ih]
      by_cases h : other = key
      · have hne : (other == k) = false := by
          rw [h]
          exact beq_false_of_ne (fun heq => hk heq.symm)
        have hne' : (key == k) = false := beq_false_of_ne (fun heq => hk heq.symm)
        rw [hne, if_pos h, if_pos h, List.lookup_cons, hne']
      · rw [if_neg h, if_neg h, List.lookup_cons]

@[simp] lemma getChild_nil (t : PTree) : t.getChild [] = some t := rfl

@[simp] lemma getChild_cons (t : PTree) (key : String) (path : List String) :
    t.getChild (key :: path) = (t.find key).bind (getChild path) := rfl

@[simp] lemma find_put_cons (key : String) (path : List String) (value : String) (t : PTree) (other : String) :
    (t.put (key :: path) value).find other =
      if other = key then some (((t.find key).getD empty).put path value) else t.find other :=
  lookup_alter key other _ t.children

@[simp] lemma data_put_nil (value : String) (t : PTree) : (t.put [] value).data = value := rfl

@[simp] lemma find_addChild (t : PTree) (key : String) (child : PTree) (other : String) :
    (t.addChild key child).find other = (t.find other).or (if other = key then some child else none) := by
  unfold find addChild
  change (t.children ++ [(key, child)]).lookup other = _
  rw [List.lookup_append]
  by_cases h : other = key
  · simp [h]
  · simp [h, List.lookup, beq_false_of_ne h]

@[simp] lemma find_empty (key : String) : empty.find key = none := rfl

end PTree

end PropertyTree
