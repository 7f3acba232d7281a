import Mathlib

/-!
# Hexadecimal text of machine integers

`hexOfInt` is the text a C++ stream in `std::hex` mode gives a 32-bit `int`, `stoi16` is
`std::stoi(text, 0, 16)`. They are inverse on nonnegative values. The second half relates
text prefixes of strings of lower-case digits to the number their first two digits spell.
-/

namespace HexText

def digitValue (c : Char) : Option ℕ :=
  if '0' ≤ c ∧ c ≤ '9' then some (c.toNat - 48)
  else if 'a' ≤ c ∧ c ≤ 'f' then some (c.toNat - 87)
  else if 'A' ≤ c ∧ c ≤ 'F' then some (c.toNat - 55)
  else none

/-- Reads hexadecimal digits as far as they go. -/
def readDigits : ℕ → List Char → ℕ
  | acc, [] => acc
  | acc, c :: cs =>
    match digitValue c with
    | some d => readDigits (16 * acc + d) cs
    | none => acc

/-- Drops an optional `0x`, which counts only in front of a digit. -/
def skipPrefix : List Char → List Char
  | '0' :: x :: c :: cs =>
    if (x = 'x' ∨ x = 'X') ∧ (digitValue c).isSome then c :: cs else '0' :: x :: c :: cs
  | cs => cs

def readMagnitude (cs : List Char) : Option ℕ :=
  match skipPrefix cs with
  | [] => none
  | c :: rest => if (digitValue c).isSome then some (readDigits 0 (c :: rest)) else none

def readSigned : List Char → Option ℤ
  | '-' :: cs => (readMagnitude cs).map (fun n => -Int.ofNat n)
  | '+' :: cs => (readMagnitude cs).map Int.ofNat
  | cs => (readMagnitude cs).map Int.ofNat

def isSpace (c : Char) : Bool :=
  c = ' ' ∨ ('\t' ≤ c ∧ c ≤ '\r')

/-- `std::stoi(text, 0, 16)`; `none` is `invalid_argument` or `out_of_range`. -/
def stoi16 (text : String) : Option ℤ :=
  (readSigned (text.toList.dropWhile isSpace)).filter (fun v => -2 ^ 31 ≤ v ∧ v < 2 ^ 31)

/-- `stream << std::hex << v` for a 32-bit `int`: a negative value prints as its
two's complement. -/
def hexOfInt (v : ℤ) : String :=
  String.ofList (Nat.toDigits 16 (v % 2 ^ 32).toNat)

example : hexOfInt (-1) = "ffffffff" ∧ stoi16 "0xffffffff" = none := by decide

lemma digitValue_digitChar : ∀ d < 16, digitValue d.digitChar = some d := by
  decide

lemma digitChar_injective {a b : ℕ} (ha : a < 16) (hb : b < 16) (h : a.digitChar = b.digitChar) :
    a = b := by
  have h1 := digitValue_digitChar a ha
  rw [h, digitValue_digitChar b hb] at h1
  exact (Option.some.inj h1).symm

lemma readDigits_digitChar {d : ℕ} (hd : d < 16) (acc : ℕ) (cs : List Char) :
    readDigits acc (d.digitChar :: cs) = readDigits (16 * acc + d) cs := by
  simp only [readDigits, digitValue_digitChar d hd]

lemma readDigits_toDigits (n : ℕ) (cs : List Char) :
    readDigits 0 (Nat.toDigits 16 n ++ cs) = readDigits n cs := by
  induction n using Nat.base_induction 16 (by omega) generalizing cs with
  | single m hm =>
    rw [Nat.toDigits_of_lt_base hm, List.singleton_append, readDigits_digitChar hm]
    simp
  | digit m k hk hm ih =>
    rw [← Nat.toDigits_append_toDigits (by omega) hm hk, List.append_assoc, ih,
      Nat.toDigits_of_lt_base hk, List.singleton_append, readDigits_digitChar hk]

lemma toDigits_eq_digitChar_cons (n : ℕ) :
    ∃ d < 16, ∃ cs, Nat.toDigits 16 n = d.digitChar :: cs := by
  induction n using Nat.base_induction 16 (by omega) with
  | single m hm => exact ⟨m, hm, [], Nat.toDigits_of_lt_base hm⟩
  | digit m k hk hm ih =>
    obtain ⟨d, hd, cs, h⟩ := ih
    refine ⟨d, hd, cs ++ Nat.toDigits 16 k, ?_⟩
    rw [← Nat.toDigits_append_toDigits (by omega) hm hk, h, List.cons_append]

lemma readMagnitude_toDigits (n : ℕ) :
    readMagnitude ('0' :: 'x' :: Nat.toDigits 16 n) = some n := by
  obtain ⟨d, hd, cs, h⟩ := toDigits_eq_digitChar_cons n
  have hr := readDigits_toDigits n []
  rw [List.append_nil, readDigits] at hr
  rw [h] at hr ⊢
  have hs : (digitValue d.digitChar).isSome = true := by rw [digitValue_digitChar d hd]; rfl
  simp only [readMagnitude, skipPrefix, hs, true_or, and_self, if_true, hr]

/-- The text of a nonnegative `int` reads back as that `int`. -/
theorem stoi16_hexOfInt {v : ℤ} (h0 : 0 ≤ v) (h1 : v < 2 ^ 31) :
    stoi16 ("0x" ++ hexOfInt v) = some v := by
  have hn : ((v % 2 ^ 32).toNat : ℤ) = v := by omega
  have ht : ("0x" ++ hexOfInt v).toList = '0' :: 'x' :: Nat.toDigits 16 (v % 2 ^ 32).toNat := by
    simp [hexOfInt]
  have hd : ('0' :: 'x' :: Nat.toDigits 16 (v % 2 ^ 32).toNat).dropWhile isSpace =
      '0' :: 'x' :: Nat.toDigits 16 (v % 2 ^ 32).toNat :=
    List.dropWhile_cons_of_neg (by decide)
  rw [stoi16, ht, hd, readSigned, readMagnitude_toDigits, Option.map_some, Int.ofNat_eq_natCast, hn]
  · simp only [Option.filter_some]
    rw [if_pos (by simpa using ⟨by omega, by omega⟩)]
  · intro _ h
    simp at h
  · intro _ h
    simp at h

/-! ### Prefixes of digit strings -/

/-- The digits `std::hex` prints. -/
def lowerDigits : List Char := "0123456789abcdef".toList

lemma mem_lowerDigits {c : Char} (h : c ∈ lowerDigits) : ∃ d < 16, c = d.digitChar := by
  have hdigits : lowerDigits = (List.range 16).map Nat.digitChar := by decide
  rw [hdigits] at h
  obtain ⟨d, hd, rfl⟩ := List.mem_map.mp h
  exact ⟨d, List.mem_range.mp hd, rfl⟩

/-- The number spelt by the first two digits. -/
def leadingByte (cs : List Char) : ℕ := readDigits 0 (cs.take 2)

lemma leadingByte_cons {a b : ℕ} (ha : a < 16) (hb : b < 16) (cs : List Char) :
    leadingByte (a.digitChar :: b.digitChar :: cs) = 16 * a + b := by
  simp only [leadingByte, List.take_succ_cons, List.take_zero]
  rw [readDigits_digitChar ha, readDigits_digitChar hb, readDigits]
  omega

lemma exists_leading_digits {cs : List Char} (hl : 2 ≤ cs.length) (hd : ∀ c ∈ cs, c ∈ lowerDigits) :
    ∃ a < 16, ∃ b < 16, ∃ rest, cs = a.digitChar :: b.digitChar :: rest := by
  match cs, hl, hd with
  | x :: y :: rest, _, hd =>
    obtain ⟨a, ha, rfl⟩ := mem_lowerDigits (hd x (by simp))
    obtain ⟨b, hb, rfl⟩ := mem_lowerDigits (hd y (by simp))
    exact ⟨a, ha, b, hb, rest, rfl⟩

lemma leadingByte_lt {cs : List Char} (hl : 2 ≤ cs.length) (hd : ∀ c ∈ cs, c ∈ lowerDigits) :
    leadingByte cs < 256 := by
  obtain ⟨a, ha, b, hb, rest, rfl⟩ := exists_leading_digits hl hd
  rw [leadingByte_cons ha hb]
  omega

lemma toDigits_two {n : ℕ} (h0 : 16 ≤ n) (h1 : n < 256) :
    Nat.toDigits 16 n = [(n / 16).digitChar, (n % 16).digitChar] := by
  rw [Nat.toDigits_of_base_le (by omega) h0, Nat.toDigits_of_lt_base (by omega)]
  rfl

lemma digitChar_pair_prefix_iff {a b c d : ℕ} (ha : a < 16) (hb : b < 16) (hc : c < 16) (hd : d < 16)
    (rest : List Char) :
    [c.digitChar, d.digitChar] <+: a.digitChar :: b.digitChar :: rest ↔ c = a ∧ d = b := by
  simp only [List.cons_prefix_cons, List.nil_prefix, and_true]
  constructor
  · rintro ⟨h1, h2⟩
    exact ⟨digitChar_injective hc ha h1, digitChar_injective hd hb h2⟩
  · rintro ⟨rfl, rfl⟩
    exact ⟨rfl, rfl⟩

/-- Without padding, a value below 16 matches every string whose first digit it is. -/
theorem toDigits_prefix_iff {n : ℕ} (hn : n < 256) {cs : List Char} (hl : 2 ≤ cs.length)
    (hd : ∀ c ∈ cs, c ∈ lowerDigits) :
    Nat.toDigits 16 n <+: cs ↔ if n < 16 then leadingByte cs / 16 = n else leadingByte cs = n := by
  obtain ⟨a, ha, b, hb, rest, rfl⟩ := exists_leading_digits hl hd
  rw [leadingByte_cons ha hb]
  by_cases h16 : n < 16
  · rw [Nat.toDigits_of_lt_base h16, if_pos h16]
    simp only [List.cons_prefix_cons, List.nil_prefix, and_true]
    constructor
    · intro h
      have := digitChar_injective h16 ha h
      omega
    · intro h
      have : n = a := by omega
      rw [this]
  · rw [toDigits_two (by omega) hn, if_neg h16,
      digitChar_pair_prefix_iff ha hb (by omega) (by omega)]
    omega

/-- Padded to two digits, a value matches exactly the strings that spell it. -/
theorem leftpad_toDigits_prefix_iff {n : ℕ} (hn : n < 256) {cs : List Char} (hl : 2 ≤ cs.length)
    (hd : ∀ c ∈ cs, c ∈ lowerDigits) :
    (Nat.toDigits 16 n).leftpad 2 '0' <+: cs ↔ leadingByte cs = n := by
  by_cases h16 : n < 16
  · obtain ⟨a, ha, b, hb, rest, rfl⟩ := exists_leading_digits hl hd
    have hpad : (Nat.toDigits 16 n).leftpad 2 '0' = [Nat.digitChar 0, n.digitChar] := by
      rw [Nat.toDigits_of_lt_base h16]
      rfl
    rw [hpad, leadingByte_cons ha hb, digitChar_pair_prefix_iff ha hb (by omega) h16]
    omega
  · have hpad : (Nat.toDigits 16 n).leftpad 2 '0' = Nat.toDigits 16 n := by
      rw [toDigits_two (by omega) hn]
      rfl
    rw [hpad, toDigits_prefix_iff hn hl hd, if_neg h16]

end HexText
