import Mathlib

/-!
# Input streams

A stream over bytes with a position, as `seekg` and `read` see it. A stream that has failed stays
where it is and gives nothing.
-/

structure InputStream where
  bytes : List UInt8
  pos : ℕ := 0
  failbit : Bool := false
  eofbit : Bool := false
  gcount : ℕ := 0

namespace InputStream

/-- There is nothing to read past the end. -/
def seekg (s : InputStream) (pos : ℕ) : InputStream :=
  if s.failbit then { s with eofbit := false }
  else if pos ≤ s.bytes.length then { s with eofbit := false, pos := pos }
  else { s with eofbit := false, failbit := true }

/-- A read that gets less than it asked for fails, with what it got. -/
def read (s : InputStream) (n : ℤ) : List UInt8 × InputStream :=
  if s.failbit ∨ s.eofbit then ([], { s with failbit := true, gcount := 0 })
  else
    let chunk := (s.bytes.drop s.pos).take n.toNat
    let short : Bool := (chunk.length : ℤ) ≠ n
    (chunk, { s with pos := s.pos + chunk.length, failbit := short, eofbit := short, gcount := chunk.length })

lemma gcount_read (s : InputStream) (n : ℤ) : (s.read n).2.gcount = (s.read n).1.length := by
  unfold read
  split_ifs <;> rfl

lemma length_read_le (s : InputStream) (n : ℤ) : (s.read n).1.length ≤ n.toNat := by
  unfold read
  split_ifs
  · exact Nat.zero_le _
  · exact List.length_take_le _ _

lemma bytes_read (s : InputStream) (n : ℤ) : (s.read n).2.bytes = s.bytes := by
  unfold read
  split_ifs <;> rfl

lemma bytes_seekg (s : InputStream) (pos : ℕ) : (s.seekg pos).bytes = s.bytes := by
  unfold seekg
  split_ifs <;> rfl

/-- A stream that has not failed gives the bytes at a position, as long as they are there. -/
lemma read_seekg (s : InputStream) (pos k : ℕ) (h : s.failbit = false) (hle : pos + k ≤ s.bytes.length) :
    ((s.seekg pos).read k).1 = (s.bytes.drop pos).take k ∧ ((s.seekg pos).read k).2.failbit = false := by
  have hpos : pos ≤ s.bytes.length := by omega
  have hseek : s.seekg pos = { s with eofbit := false, pos := pos } := by
    unfold seekg
    rw [if_neg (by simp [h]), if_pos hpos]
  have hlength : ((s.bytes.drop pos).take k).length = k := by
    rw [List.length_take, List.length_drop]
    omega
  rw [hseek]
  unfold read
  rw [if_neg (by simp [h])]
  simp [hlength]

end InputStream
