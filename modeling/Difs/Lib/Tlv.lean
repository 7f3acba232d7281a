import Mathlib

/-!
# The NDN packet format

Variable-length numbers, non-negative integers and the blocks made of them. A reader takes an
item off the front of the bytes; it succeeds exactly on the bytes that the writer gives, followed
by anything. Numbers are accepted in their shortest form only, integers at each of their widths.
-/

namespace Tlv

/-- The `k` low bytes of a number, the most significant first. -/
def bigEndian : ℕ → ℕ → List UInt8
  | 0, _ => []
  | k + 1, n => bigEndian k (n / 256) ++ [UInt8.ofNat n]

def ofBigEndian (bytes : List UInt8) : ℕ := bytes.foldl (fun n b => 256 * n + b.toNat) 0

lemma length_bigEndian (k n : ℕ) : (bigEndian k n).length = k := by
  induction k generalizing n with
  | zero => rfl
  | succ k ih => rw [bigEndian, List.length_append, ih, List.length_singleton]

lemma ofBigEndian_append (bytes : List UInt8) (b : UInt8) :
    ofBigEndian (bytes ++ [b]) = 256 * ofBigEndian bytes + b.toNat := by
  unfold ofBigEndian
  rw [List.foldl_append, List.foldl_cons, List.foldl_nil]

lemma ofBigEndian_bigEndian {k n : ℕ} (h : n < 256 ^ k) : ofBigEndian (bigEndian k n) = n := by
  induction k generalizing n with
  | zero =>
    have hzero : n = 0 := by omega
    rw [hzero]
    rfl
  | succ k ih =>
    have hdiv : n / 256 < 256 ^ k := by
      rw [pow_succ] at h
      omega
    rw [bigEndian, ofBigEndian_append, ih hdiv, UInt8.toNat_ofNat']
    omega

lemma bigEndian_ofBigEndian (bytes : List UInt8) : bigEndian bytes.length (ofBigEndian bytes) = bytes := by
  induction bytes using List.reverseRecOn with
  | nil => rfl
  | append_singleton bytes b ih =>
    have hb := b.toNat_lt
    have hdiv : (256 * ofBigEndian bytes + b.toNat) / 256 = ofBigEndian bytes := by omega
    rw [ofBigEndian_append, List.length_append, List.length_singleton, bigEndian, hdiv, ih]
    congr 2
    apply UInt8.toNat_inj.mp
    rw [UInt8.toNat_ofNat']
    omega

lemma ofBigEndian_lt (bytes : List UInt8) : ofBigEndian bytes < 256 ^ bytes.length := by
  induction bytes using List.reverseRecOn with
  | nil => simp [ofBigEndian]
  | append_singleton bytes b ih =>
    have hb := b.toNat_lt
    rw [ofBigEndian_append, List.length_append, List.length_singleton, pow_succ]
    omega

/-! ### Variable-length numbers -/

def varNumber (n : ℕ) : List UInt8 :=
  if n < 253 then [UInt8.ofNat n]
  else if n < 2 ^ 16 then 253 :: bigEndian 2 n
  else if n < 2 ^ 32 then 254 :: bigEndian 4 n
  else 255 :: bigEndian 8 n

def readFixed (k least : ℕ) (bytes : List UInt8) : Option (ℕ × List UInt8) :=
  if k ≤ bytes.length ∧ least ≤ ofBigEndian (bytes.take k) then some (ofBigEndian (bytes.take k), bytes.drop k)
  else none

def readVarNumber : List UInt8 → Option (ℕ × List UInt8)
  | [] => none
  | b :: bytes =>
    if b.toNat < 253 then some (b.toNat, bytes)
    else if b.toNat = 253 then readFixed 2 253 bytes
    else if b.toNat = 254 then readFixed 4 (2 ^ 16) bytes
    else readFixed 8 (2 ^ 32) bytes

variable {n : ℕ} {bytes rest : List UInt8}

lemma readFixed_eq_some {k least : ℕ} :
    readFixed k least bytes = some (n, rest) ↔ least ≤ n ∧ n < 256 ^ k ∧ bytes = bigEndian k n ++ rest := by
  unfold readFixed
  constructor
  · intro h
    split at h
    · rename_i hk
      simp only [Option.some.injEq, Prod.mk.injEq] at h
      have hlen : (bytes.take k).length = k := by
        rw [List.length_take]
        omega
      have hlt := ofBigEndian_lt (bytes.take k)
      have hback := bigEndian_ofBigEndian (bytes.take k)
      rw [hlen] at hlt hback
      rw [← h.1, ← h.2]
      refine ⟨hk.2, hlt, ?_⟩
      rw [hback, List.take_append_drop]
    · simp at h
  · intro h
    obtain ⟨hleast, hlt, rfl⟩ := h
    have htake : (bigEndian k n ++ rest).take k = bigEndian k n := by
      rw [List.take_append_of_le_length (length_bigEndian k n).ge, List.take_of_length_le (length_bigEndian k n).le]
    have hdrop : (bigEndian k n ++ rest).drop k = rest := by
      rw [List.drop_append_of_le_length (length_bigEndian k n).ge, List.drop_of_length_le (length_bigEndian k n).le,
        List.nil_append]
    rw [htake, hdrop, ofBigEndian_bigEndian hlt, if_pos]
    rw [List.length_append, length_bigEndian]
    omega

lemma readVarNumber_varNumber (h : n < 2 ^ 64) : readVarNumber (varNumber n ++ rest) = some (n, rest) := by
  unfold varNumber
  split_ifs with h1 h2 h3
  · have hn : (UInt8.ofNat n).toNat = n := by
      rw [UInt8.toNat_ofNat']
      omega
    simp only [List.cons_append, List.nil_append, readVarNumber, hn, if_pos h1]
  · rw [List.cons_append, readVarNumber, if_neg (by decide), if_pos (by decide)]
    exact readFixed_eq_some.mpr ⟨by omega, by omega, rfl⟩
  · rw [List.cons_append, readVarNumber, if_neg (by decide), if_neg (by decide), if_pos (by decide)]
    exact readFixed_eq_some.mpr ⟨by omega, by omega, rfl⟩
  · rw [List.cons_append, readVarNumber, if_neg (by decide), if_neg (by decide), if_neg (by decide)]
    exact readFixed_eq_some.mpr ⟨by omega, by omega, rfl⟩

lemma eq_of_readVarNumber (h : readVarNumber bytes = some (n, rest)) : n < 2 ^ 64 ∧ bytes = varNumber n ++ rest := by
  cases bytes with
  | nil => simp [readVarNumber] at h
  | cons b bytes =>
    have hb : b = UInt8.ofNat b.toNat := by
      apply UInt8.toNat_inj.mp
      rw [UInt8.toNat_ofNat', Nat.mod_eq_of_lt b.toNat_lt]
    rw [readVarNumber] at h
    split_ifs at h with h1 h2 h3
    · simp only [Option.some.injEq, Prod.mk.injEq] at h
      have hn : n < 253 := h.1 ▸ h1
      refine ⟨by omega, ?_⟩
      rw [varNumber, if_pos hn, ← h.1, ← h.2, ← hb]
      rfl
    · obtain ⟨hleast, hlt, rfl⟩ := readFixed_eq_some.mp h
      refine ⟨by omega, ?_⟩
      rw [varNumber, if_neg (by omega), if_pos (by omega), hb, h2]
      rfl
    · obtain ⟨hleast, hlt, rfl⟩ := readFixed_eq_some.mp h
      refine ⟨by omega, ?_⟩
      rw [varNumber, if_neg (by omega), if_neg (by omega), if_pos (by omega), hb, h3]
      rfl
    · obtain ⟨hleast, hlt, rfl⟩ := readFixed_eq_some.mp h
      have h255 : b.toNat = 255 := by
        have hb := b.toNat_lt
        omega
      refine ⟨by omega, ?_⟩
      rw [varNumber, if_neg (by omega), if_neg (by omega), if_neg (by omega), hb, h255]
      rfl

lemma length_varNumber_pos (n : ℕ) : 1 ≤ (varNumber n).length := by
  unfold varNumber
  split_ifs <;> simp

lemma length_varNumber_le (n : ℕ) : (varNumber n).length ≤ 9 := by
  unfold varNumber
  split_ifs <;> simp [length_bigEndian]

lemma length_varNumber_mono {m : ℕ} (h : n ≤ m) : (varNumber n).length ≤ (varNumber m).length := by
  unfold varNumber
  split_ifs <;> simp only [List.length_cons, List.length_nil, length_bigEndian] <;> omega

lemma length_varNumber_of_le (h : 2 ^ 32 ≤ n) : (varNumber n).length = 9 := by
  unfold varNumber
  rw [if_neg (by omega), if_neg (by omega), if_neg (by omega), List.length_cons, length_bigEndian]

/-! ### Non-negative integers -/

def nonNegativeInteger (n : UInt64) : List UInt8 :=
  if n.toNat < 2 ^ 8 then bigEndian 1 n.toNat
  else if n.toNat < 2 ^ 16 then bigEndian 2 n.toNat
  else if n.toNat < 2 ^ 32 then bigEndian 4 n.toNat
  else bigEndian 8 n.toNat

def readNonNegativeInteger (value : List UInt8) : Option UInt64 :=
  if value.length ∈ [1, 2, 4, 8] then some (UInt64.ofNat (ofBigEndian value)) else none

lemma readNonNegativeInteger_bigEndian {k : ℕ} {m : UInt64} (hk : k ∈ [1, 2, 4, 8]) (h : m.toNat < 256 ^ k) :
    readNonNegativeInteger (bigEndian k m.toNat) = some m := by
  unfold readNonNegativeInteger
  rw [length_bigEndian, if_pos hk, ofBigEndian_bigEndian h, UInt64.ofNat_toNat]

theorem readNonNegativeInteger_nonNegativeInteger (m : UInt64) :
    readNonNegativeInteger (nonNegativeInteger m) = some m := by
  have hm := m.toNat_lt
  unfold nonNegativeInteger
  split_ifs
  all_goals
    apply readNonNegativeInteger_bigEndian
    · simp
    · omega

lemma length_nonNegativeInteger_mem (m : UInt64) : (nonNegativeInteger m).length ∈ [1, 2, 4, 8] := by
  unfold nonNegativeInteger
  split_ifs <;> simp [length_bigEndian]

lemma length_nonNegativeInteger_lt (m : UInt64) : (nonNegativeInteger m).length < 2 ^ 64 := by
  have h := length_nonNegativeInteger_mem m
  simp only [List.mem_cons, List.not_mem_nil, or_false] at h
  omega

/-- No other form of an integer is shorter than the one that is written. -/
lemma length_nonNegativeInteger_le {value : List UInt8} {m : UInt64} (h : readNonNegativeInteger value = some m) :
    (nonNegativeInteger m).length ≤ value.length := by
  unfold readNonNegativeInteger at h
  split at h
  · rename_i hlen
    have hlt := ofBigEndian_lt value
    have hm : m.toNat = ofBigEndian value := by
      rw [← Option.some.inj h, UInt64.toNat_ofNat']
      apply Nat.mod_eq_of_lt
      simp only [List.mem_cons, List.not_mem_nil, or_false] at hlen
      obtain hlen | hlen | hlen | hlen := hlen <;> rw [hlen] at hlt <;> omega
    unfold nonNegativeInteger
    rw [hm]
    simp only [List.mem_cons, List.not_mem_nil, or_false] at hlen
    obtain hlen | hlen | hlen | hlen := hlen <;> rw [hlen] at hlt ⊢ <;>
      split_ifs <;> simp only [length_bigEndian] <;> omega
  · simp at h

/-! ### Blocks -/

@[ext] structure BlockType where
  number : ℕ
  pos : 0 < number
  lt : number < 2 ^ 32
deriving DecidableEq

/-- A block is its type and its value. -/
@[ext] structure Block where
  type : BlockType
  value : List UInt8
  length_lt : value.length < 2 ^ 64
deriving DecidableEq

namespace Block

def wire (b : Block) : List UInt8 := varNumber b.type.number ++ varNumber b.value.length ++ b.value

lemma length_wire (b : Block) :
    b.wire.length = (varNumber b.type.number).length + (varNumber b.value.length).length + b.value.length := by
  unfold wire
  rw [List.length_append, List.length_append]

lemma two_le_length_wire (b : Block) : 2 ≤ b.wire.length := by
  have htype := length_varNumber_pos b.type.number
  have hlength := length_varNumber_pos b.value.length
  rw [length_wire]
  omega

end Block

def readBlock (bytes : List UInt8) : Option (Block × List UInt8) := do
  let (type, bytes) ← readVarNumber bytes
  let (length, bytes) ← readVarNumber bytes
  if h : (0 < type ∧ type < 2 ^ 32) ∧ length ≤ bytes.length ∧ length < 2 ^ 64 then
    some (⟨⟨type, h.1.1, h.1.2⟩, bytes.take length, (List.length_take_le _ _).trans_lt h.2.2⟩, bytes.drop length)
  else none

theorem readBlock_eq_some {b : Block} : readBlock bytes = some (b, rest) ↔ bytes = b.wire ++ rest := by
  unfold readBlock Block.wire
  constructor
  · intro h
    simp only [Option.bind_eq_bind, Option.bind_eq_some_iff, Prod.exists] at h
    obtain ⟨type, bytes₁, h₁, length, bytes₂, h₂, h⟩ := h
    split at h
    · rename_i hlength
      simp only [Option.some.injEq, Prod.mk.injEq] at h
      have hlen : b.value.length = length := by
        rw [← h.1, List.length_take]
        omega
      rw [(eq_of_readVarNumber h₁).2, (eq_of_readVarNumber h₂).2, hlen, ← h.1, ← h.2]
      simp only [List.append_assoc, List.take_append_drop]
    · simp at h
  · rintro rfl
    have htype : b.type.number < 2 ^ 64 := by
      have h := b.type.lt
      omega
    simp only [List.append_assoc, Option.bind_eq_bind, readVarNumber_varNumber htype,
      readVarNumber_varNumber b.length_lt, Option.bind_some]
    have hlength : (0 < b.type.number ∧ b.type.number < 2 ^ 32) ∧ b.value.length ≤ (b.value ++ rest).length ∧
        b.value.length < 2 ^ 64 := ⟨⟨b.type.pos, b.type.lt⟩, by simp, b.length_lt⟩
    rw [dif_pos hlength]
    simp only [Option.some.injEq, Prod.mk.injEq, List.drop_left, and_true]
    ext1
    · rfl
    · exact List.take_left

lemma readBlock_wire (b : Block) : readBlock (b.wire ++ rest) = some (b, rest) := readBlock_eq_some.mpr rfl

/-- A buffer that is one block from its first byte to its last. -/
def toBlock (bytes : List UInt8) : Option Block :=
  match readBlock bytes with
  | some (b, []) => some b
  | _ => none

lemma toBlock_eq_some {b : Block} : toBlock bytes = some b ↔ bytes = b.wire := by
  unfold toBlock
  constructor
  · intro h
    split at h
    · rename_i b' hb
      rw [← Option.some.inj h, readBlock_eq_some.mp hb, List.append_nil]
    · simp at h
  · rintro rfl
    have h : readBlock (b.wire ++ []) = some (b, []) := readBlock_wire b
    rw [List.append_nil] at h
    rw [h]

def readBlocks : ℕ → List UInt8 → Option (List Block)
  | _, [] => some []
  | 0, _ => none
  | fuel + 1, bytes =>
    match readBlock bytes with
    | none => none
    | some (b, rest) => (readBlocks fuel rest).map (b :: ·)

/-- The elements of a value. Each takes at least one byte. -/
def elements (value : List UInt8) : Option (List Block) := readBlocks value.length value

lemma readBlocks_flatMap {bs : List Block} {fuel : ℕ} (h : (bs.flatMap Block.wire).length ≤ fuel) :
    readBlocks fuel (bs.flatMap Block.wire) = some bs := by
  induction bs generalizing fuel with
  | nil => cases fuel <;> rfl
  | cons b bs ih =>
    have hb := b.two_le_length_wire
    rw [List.flatMap_cons, List.length_append] at h
    cases fuel with
    | zero => omega
    | succ fuel =>
      have hne : b.wire ++ bs.flatMap Block.wire ≠ [] := by
        intro hnil
        have hlen := congrArg List.length hnil
        rw [List.length_append, List.length_nil] at hlen
        omega
      rw [List.flatMap_cons]
      rw [readBlocks.eq_3 _ _ hne, readBlock_wire]
      dsimp only
      rw [ih (by omega), Option.map_some]

lemma eq_of_readBlocks {bs : List Block} {fuel : ℕ} (h : readBlocks fuel bytes = some bs) :
    bytes = bs.flatMap Block.wire := by
  induction fuel generalizing bytes bs with
  | zero =>
    cases bytes with
    | nil =>
      rw [readBlocks] at h
      rw [← Option.some.inj h]
      rfl
    | cons b bytes => simp [readBlocks] at h
  | succ fuel ih =>
    by_cases hnil : bytes = []
    · rw [hnil, readBlocks] at h
      rw [← Option.some.inj h, hnil]
      rfl
    · rw [readBlocks.eq_3 _ _ hnil] at h
      split at h
      · simp at h
      · rename_i b rest hb
        obtain ⟨bs', hbs, rfl⟩ := Option.map_eq_some_iff.mp h
        rw [readBlock_eq_some.mp hb, ih hbs, List.flatMap_cons]

theorem elements_eq_some {bs : List Block} : elements bytes = some bs ↔ bytes = bs.flatMap Block.wire := by
  unfold elements
  constructor
  · exact eq_of_readBlocks
  · rintro rfl
    exact readBlocks_flatMap le_rfl

/-- The first element of a type. -/
def find (bs : List Block) (type : BlockType) : Option Block := bs.find? (fun b => b.type = type)

lemma mem_of_find {bs : List Block} {type : BlockType} {b : Block} (h : find bs type = some b) : b ∈ bs :=
  List.mem_of_find?_eq_some h

lemma type_of_find {bs : List Block} {type : BlockType} {b : Block} (h : find bs type = some b) : b.type = type := by
  have hb := List.find?_some h
  exact of_decide_eq_true hb

lemma find_erase {bs : List Block} {type : BlockType} {b : Block} (h : b.type ≠ type) :
    find (bs.erase b) type = find bs type := by
  unfold find
  induction bs with
  | nil => rfl
  | cons c bs ih =>
    by_cases hc : c = b
    · have hneg : ¬ decide (b.type = type) = true := by simpa using h
      rw [hc, List.erase_cons_head]
      symm
      apply List.find?_cons_of_neg
      exact hneg
    · rw [List.erase_cons_tail (by simpa using hc), List.find?_cons, List.find?_cons, ih]

/-- Fields that may be absent, each with the type of its block. -/
def present (fields : List (BlockType × Option Block)) : List Block := fields.filterMap Prod.snd

theorem find_present {fields : List (BlockType × Option Block)} {type : BlockType} {o : Option Block}
    (htypes : ∀ field ∈ fields, ∀ b ∈ field.2, b.type = field.1) (hnodup : (fields.map Prod.fst).Nodup)
    (h : (type, o) ∈ fields) : find (present fields) type = o := by
  unfold find present
  induction fields with
  | nil => simp at h
  | cons field fields ih =>
    have hhead := htypes field List.mem_cons_self
    have htail := fun f hf => htypes f (List.mem_cons_of_mem field hf)
    rw [List.map_cons, List.nodup_cons] at hnodup
    obtain rfl | h := List.mem_cons.mp h
    · have hnone : (fields.filterMap Prod.snd).find? (fun b => b.type = type) = none := by
        rw [List.find?_eq_none]
        intro b hb heq
        obtain ⟨f, hf, hfb⟩ := List.mem_filterMap.mp hb
        apply hnodup.1
        rw [← of_decide_eq_true heq, htail f hf b hfb]
        exact List.mem_map.mpr ⟨f, hf, rfl⟩
      cases o with
      | none => simp only [List.filterMap_cons, hnone]
      | some b =>
        rw [List.filterMap_cons]
        apply List.find?_cons_of_pos
        exact decide_eq_true (hhead b rfl)
    · have hne : field.1 ≠ type := by
        intro heq
        apply hnodup.1
        rw [heq]
        exact List.mem_map.mpr ⟨_, h, rfl⟩
      have hrest := ih htail hnodup.2 h
      obtain ⟨t, o'⟩ := field
      cases o' with
      | none => simpa only [List.filterMap_cons] using hrest
      | some b =>
        have hb : ¬ decide (b.type = type) = true := by
          rw [decide_eq_true_iff]
          exact (hhead b rfl).trans_ne hne
        rw [List.filterMap_cons]
        refine Eq.trans ?_ hrest
        apply List.find?_cons_of_neg
        exact hb

/-- What the first element of a type says, or what was there before. -/
def decodeField {α : Type} (bs : List Block) (type : BlockType) (decode : Block → Option α) (old : Option α) :
    Option (Option α) :=
  match find bs type with
  | none => some old
  | some b => (decode b).map some

section DecodeField

variable {α : Type} {type : BlockType} {decode : Block → Option α}

/-- A field that was written reads back as what it was. -/
theorem decodeField_present {fields : List (BlockType × Option Block)}
    (htypes : ∀ field ∈ fields, ∀ b ∈ field.2, b.type = field.1) (hnodup : (fields.map Prod.fst).Nodup)
    (field : Option α) (encode : α → Block) (hcodec : ∀ a, decode (encode a) = some a)
    (hfield : (type, field.map encode) ∈ fields) : decodeField (present fields) type decode none = some field := by
  unfold decodeField
  rw [find_present htypes hnodup hfield]
  cases field with
  | none => rfl
  | some a => simp only [Option.map_some, hcodec]

lemma of_decodeField {bs : List Block} {field : Option α} (h : decodeField bs type decode none = some field) {a : α}
    (ha : field = some a) : ∃ b, find bs type = some b ∧ b.type = type ∧ decode b = some a := by
  unfold decodeField at h
  split at h
  · rw [ha] at h
    simp at h
  · rename_i b hb
    refine ⟨b, hb, type_of_find hb, ?_⟩
    rw [ha, Option.map_eq_some_iff] at h
    obtain ⟨a', ha', heq⟩ := h
    rw [ha', Option.some.inj heq]

lemma decodeField_eq_none {bs : List Block} {old : Option α} :
    decodeField bs type decode old = none ↔ ∃ b, find bs type = some b ∧ decode b = none := by
  unfold decodeField
  cases find bs type with
  | none => simp
  | some b => simp

/-- A field is absent only where no element has its type. -/
lemma find_eq_none_of_decodeField {bs : List Block} (h : decodeField bs type decode none = some none) :
    find bs type = none := by
  unfold decodeField at h
  cases hfind : find bs type with
  | none => rfl
  | some b => simp [hfind] at h

/-- A field that was read is written in no more bytes than it was read from. -/
lemma length_le_of_decodeField {bs : List Block} {field : Option α} (encode : α → Block)
    (h : decodeField bs type decode none = some field)
    (hle : ∀ b a, b.type = type → decode b = some a → (encode a).wire.length ≤ b.wire.length) :
    ∀ b ∈ field.map encode, ∃ b', find bs type = some b' ∧ b.wire.length ≤ b'.wire.length := by
  intro b hb
  obtain ⟨a, ha, rfl⟩ := Option.map_eq_some_iff.mp hb
  obtain ⟨b', hfind, htype, hdecode⟩ := of_decodeField h ha
  exact ⟨b', hfind, hle b' a htype hdecode⟩

end DecodeField

/-- Fields that take no more bytes than the first elements of their types fit in the elements. -/
theorem length_present_le {fields : List (BlockType × Option Block)} {bs : List Block}
    (hnodup : (fields.map Prod.fst).Nodup)
    (h : ∀ field ∈ fields, ∀ b ∈ field.2, ∃ b', find bs field.1 = some b' ∧ b.wire.length ≤ b'.wire.length) :
    ((present fields).flatMap Block.wire).length ≤ (bs.flatMap Block.wire).length := by
  unfold present
  induction fields generalizing bs with
  | nil => simp
  | cons field fields ih =>
    obtain ⟨type, o⟩ := field
    rw [List.map_cons, List.nodup_cons] at hnodup
    have htail := fun f hf => h f (List.mem_cons_of_mem _ hf)
    cases o with
    | none => simpa only [List.filterMap_cons] using ih hnodup.2 htail
    | some b =>
      obtain ⟨b', hb', hle⟩ := h (type, some b) List.mem_cons_self b rfl
      have hrest : ∀ f ∈ fields, ∀ c ∈ f.2, ∃ c', find (bs.erase b') f.1 = some c' ∧
          c.wire.length ≤ c'.wire.length := by
        intro f hf c hc
        have hne : b'.type ≠ f.1 := by
          rw [type_of_find hb']
          rintro rfl
          exact hnodup.1 (List.mem_map.mpr ⟨f, hf, rfl⟩)
        rw [find_erase hne]
        exact htail f hf c hc
      have hperm := (List.perm_cons_erase (mem_of_find hb')).flatMap_right Block.wire
      have hlen := ih hnodup.2 hrest
      rw [List.filterMap_cons, hperm.length_eq]
      simp only [List.flatMap_cons, List.length_append]
      omega

/-! ### Writing back to front -/

/-- A non-negative integer as a block. -/
def integerBlock (type : BlockType) (m : UInt64) : Block where
  type := type
  value := nonNegativeInteger m
  length_lt := length_nonNegativeInteger_lt m

lemma length_integerBlock_le {b : Block} {m : UInt64} (h : readNonNegativeInteger b.value = some m) :
    (integerBlock b.type m).wire.length ≤ b.wire.length := by
  have hvalue := length_nonNegativeInteger_le h
  have hlength := length_varNumber_mono hvalue
  rw [Block.length_wire, Block.length_wire]
  unfold integerBlock
  dsimp only
  omega

lemma length_integerBlock_wire_le (type : BlockType) (m : UInt64) : (integerBlock type m).wire.length ≤ 26 := by
  have hvalue := length_nonNegativeInteger_mem m
  have htype := length_varNumber_le type.number
  have hlength := length_varNumber_le (nonNegativeInteger m).length
  simp only [List.mem_cons, List.not_mem_nil, or_false] at hvalue
  rw [Block.length_wire]
  unfold integerBlock
  dsimp only
  omega

/-- The bytes written so far, with the count that the writer keeps of them. -/
structure Encoder where
  buffer : List UInt8 := []
  totalLength : ℕ := 0

namespace Encoder

def prependByteArray (e : Encoder) (array : List UInt8) : Encoder :=
  { buffer := array ++ e.buffer, totalLength := e.totalLength + array.length }

def prependVarNumber (e : Encoder) (n : ℕ) : Encoder := e.prependByteArray (varNumber n)

def prependBlock (e : Encoder) (b : Block) : Encoder := e.prependByteArray b.wire

def prependNonNegativeInteger (e : Encoder) (m : UInt64) : Encoder := e.prependByteArray (nonNegativeInteger m)

/-- An integer, the length it took and its type. -/
def prependInteger (e : Encoder) (type : BlockType) (m : UInt64) : Encoder :=
  let variableLength := (nonNegativeInteger m).length
  ((e.prependNonNegativeInteger m).prependVarNumber variableLength).prependVarNumber type.number

def prependSome {α : Type} (e : Encoder) (field : Option α) (prepend : Encoder → α → Encoder) : Encoder :=
  match field with
  | none => e
  | some a => prepend e a

/-- The length of all that was written and the type of the whole. -/
def close (e : Encoder) (type : BlockType) : Encoder :=
  (e.prependVarNumber e.totalLength).prependVarNumber type.number

def ofBlocks (bs : List Block) : Encoder :=
  { buffer := bs.flatMap Block.wire, totalLength := (bs.flatMap Block.wire).length }

lemma prependBlock_ofBlocks (bs : List Block) (b : Block) : (ofBlocks bs).prependBlock b = ofBlocks (b :: bs) := by
  unfold prependBlock prependByteArray ofBlocks
  rw [List.flatMap_cons, List.length_append, Nat.add_comm]

lemma prependInteger_eq (e : Encoder) (type : BlockType) (m : UInt64) :
    e.prependInteger type m = e.prependBlock (integerBlock type m) := by
  simp only [prependInteger, prependVarNumber, prependNonNegativeInteger, prependByteArray, prependBlock, Block.wire,
    integerBlock, List.append_assoc, List.length_append, mk.injEq, true_and]
  omega

lemma prependSome_ofBlocks {α : Type} {prepend : Encoder → α → Encoder} {block : α → Block}
    (h : ∀ e a, prepend e a = e.prependBlock (block a)) (fields : List (BlockType × Option Block)) (type : BlockType)
    (field : Option α) :
    (ofBlocks (present fields)).prependSome field prepend = ofBlocks (present ((type, field.map block) :: fields)) := by
  cases field with
  | none => rfl
  | some a => exact (h _ a).trans (prependBlock_ofBlocks _ _)

theorem toBlock_close {bs : List Block} {type : BlockType} {b : Block} :
    toBlock ((ofBlocks bs).close type).buffer = some b ↔ b.type = type ∧ b.value = bs.flatMap Block.wire := by
  have hclose : ((ofBlocks bs).close type).buffer =
      varNumber type.number ++ (varNumber (bs.flatMap Block.wire).length ++ bs.flatMap Block.wire) := rfl
  have hlt (t : BlockType) : t.number < 2 ^ 64 := by
    have h := t.lt
    omega
  rw [toBlock_eq_some, hclose]
  generalize bs.flatMap Block.wire = value
  unfold Block.wire
  rw [List.append_assoc]
  constructor
  · intro h
    have htype : readVarNumber (varNumber type.number ++ (varNumber value.length ++ value)) =
        some (type.number, varNumber value.length ++ value) := readVarNumber_varNumber (hlt type)
    rw [h, readVarNumber_varNumber (hlt b.type), Option.some.injEq, Prod.mk.injEq] at htype
    have hlen := congrArg List.length htype.2
    have hle := length_varNumber_le b.value.length
    have hlength := b.length_lt
    rw [List.length_append, List.length_append] at hlen
    have hbound : value.length < 2 ^ 64 := by
      by_contra hge
      rw [length_varNumber_of_le (n := value.length) (by omega)] at hlen
      omega
    have hread : readVarNumber (varNumber b.value.length ++ b.value) = some (b.value.length, b.value) :=
      readVarNumber_varNumber hlength
    rw [htype.2, readVarNumber_varNumber hbound, Option.some.injEq, Prod.mk.injEq] at hread
    exact ⟨BlockType.ext htype.1, hread.2.symm⟩
  · intro h
    rw [← h.1, ← h.2]

end Encoder

/-! ### Values with a block of their own -/

/-- Values that are written as blocks of one type and read back from them. -/
structure Codec (type : BlockType) where
  Value : Type
  encode : Value → Block
  decode : Block → Option Value
  type_encode : ∀ v, (encode v).type = type
  decode_encode : ∀ v, decode (encode v) = some v
  encode_decode : ∀ b v, b.type = type → decode b = some v → encode v = b

/-- Values that are the blocks of a type whose values consist of elements. -/
def elementsCodec (type : BlockType) : Codec type where
  Value := {b : Block // b.type = type ∧ (elements b.value).isSome}
  encode v := v.1
  decode b := if h : b.type = type ∧ (elements b.value).isSome then some ⟨b, h⟩ else none
  type_encode v := v.2.1
  decode_encode v := dif_pos v.2
  encode_decode b v _ h := by
    split at h
    · rw [← Option.some.inj h]
    · simp at h

/-- Values that are lists of elements, as long as a length can say how many bytes they have. -/
def blocksCodec (type : BlockType) : Codec type where
  Value := {bs : List Block // (bs.flatMap Block.wire).length < 2 ^ 64}
  encode v := ⟨type, v.1.flatMap Block.wire, v.2⟩
  decode b := (elements b.value).bind
    (fun bs => if h : (bs.flatMap Block.wire).length < 2 ^ 64 then some ⟨bs, h⟩ else none)
  type_encode _ := rfl
  decode_encode v := by
    rw [elements_eq_some.mpr rfl, Option.bind_some, dif_pos v.2]
  encode_decode b v htype h := by
    obtain ⟨bs, hbs, hv⟩ := Option.bind_eq_some_iff.mp h
    split_ifs at hv with hlength
    rw [← Option.some.inj hv]
    exact Block.ext htype.symm (elements_eq_some.mp hbs).symm

end Tlv
