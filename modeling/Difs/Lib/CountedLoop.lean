import Mathlib

/-!
# Counted loops over a machine word

`for (i = start; i <= stop; ++i)` with 64-bit counters. The loop runs its body once for each
number from `start` to `stop` and returns, unless `stop` is the largest word: the counter wraps
and never passes it.
-/

namespace CountedLoop

variable {σ : Type*} (body : UInt64 → σ → σ)

/-- `none` is a loop that goes on after so many tests. -/
def forUpTo (stop : UInt64) : ℕ → UInt64 → σ → Option σ
  | 0, _, _ => none
  | fuel + 1, i, s => if i ≤ stop then forUpTo stop fuel (i + 1) (body i s) else some s

/-- The numbers from `start` to `stop`. -/
def upTo (start stop : UInt64) : List UInt64 :=
  (List.range' start.toNat (stop.toNat + 1 - start.toNat)).map UInt64.ofNat

variable {body} {start stop i : UInt64} {s t : σ} {fuel : ℕ}

lemma toNat_succ (h : i.toNat < 2 ^ 64 - 1) : (i + 1).toNat = i.toNat + 1 := by
  rw [UInt64.toNat_add, UInt64.toNat_one, Nat.mod_eq_of_lt (by omega)]

lemma toNat_ofNat {k : ℕ} (h : k < 2 ^ 64) : (UInt64.ofNat k).toNat = k := UInt64.toNat_ofNat_of_lt' h

lemma mem_upTo : i ∈ upTo start stop ↔ start ≤ i ∧ i ≤ stop := by
  unfold upTo
  rw [List.mem_map, UInt64.le_iff_toNat_le, UInt64.le_iff_toNat_le]
  have hstop := stop.toNat_lt
  constructor
  · intro h
    obtain ⟨k, hk, rfl⟩ := h
    rw [List.mem_range'_1] at hk
    rw [toNat_ofNat (by omega)]
    omega
  · intro h
    refine ⟨i.toNat, List.mem_range'_1.mpr (by omega), ?_⟩
    exact UInt64.ofNat_toNat

lemma nodup_upTo (start stop : UInt64) : (upTo start stop).Nodup := by
  unfold upTo
  have hstop := stop.toNat_lt
  apply List.Nodup.map_on _ (List.nodup_range')
  intro a ha b hb h
  rw [List.mem_range'_1] at ha hb
  have hnat := congrArg UInt64.toNat h
  rwa [toNat_ofNat (by omega), toNat_ofNat (by omega)] at hnat

lemma count_upTo : (upTo start stop).count i = if start ≤ i ∧ i ≤ stop then 1 else 0 := by
  split_ifs with h
  · exact List.count_eq_one_of_mem (nodup_upTo start stop) (mem_upTo.mpr h)
  · exact List.count_eq_zero_of_not_mem (fun hm => h (mem_upTo.mp hm))

lemma length_upTo : (upTo start stop).length = stop.toNat + 1 - start.toNat := by
  unfold upTo
  rw [List.length_map, List.length_range']

lemma upTo_cons (h : i ≤ stop) (hi : i.toNat < 2 ^ 64 - 1) : upTo i stop = i :: upTo (i + 1) stop := by
  rw [UInt64.le_iff_toNat_le] at h
  unfold upTo
  rw [toNat_succ hi]
  have hlen : stop.toNat + 1 - i.toNat = (stop.toNat + 1 - (i.toNat + 1)) + 1 := by omega
  rw [hlen, List.range'_succ, List.map_cons, UInt64.ofNat_toNat]

lemma upTo_nil (h : ¬ i ≤ stop) : upTo i stop = [] := by
  rw [UInt64.le_iff_toNat_le] at h
  unfold upTo
  have hlen : stop.toNat + 1 - i.toNat = 0 := by omega
  rw [hlen]
  rfl

/-- Below the largest word the loop returns what the body makes of the numbers in turn. -/
theorem forUpTo_eq_some (hstop : stop.toNat < 2 ^ 64 - 1) (hfuel : stop.toNat + 1 - i.toNat < fuel) :
    forUpTo body stop fuel i s = some ((upTo i stop).foldl (fun s i => body i s) s) := by
  induction fuel generalizing i s with
  | zero => omega
  | succ fuel ih =>
    rw [forUpTo]
    by_cases hi : i ≤ stop
    · have hle := UInt64.le_iff_toNat_le.mp hi
      have hsucc := toNat_succ (i := i) (by omega)
      rw [if_pos hi, upTo_cons hi (by omega), List.foldl_cons]
      exact ih (by omega)
    · rw [if_neg hi, upTo_nil hi]
      rfl

/-- Every word is at most the largest one, the one that wrapped as well. -/
theorem forUpTo_eq_none (hstop : stop.toNat = 2 ^ 64 - 1) : forUpTo body stop fuel i s = none := by
  induction fuel generalizing i s with
  | zero => rfl
  | succ fuel ih =>
    have hi : i ≤ stop := by
      have hlt := i.toNat_lt
      rw [UInt64.le_iff_toNat_le]
      omega
    rw [forUpTo, if_pos hi]
    exact ih

/-- A loop that returns has stopped at the same result for any larger number of tests. -/
theorem eq_foldl_of_forUpTo (h : forUpTo body stop fuel i s = some t) :
    t = (upTo i stop).foldl (fun s i => body i s) s := by
  by_cases hstop : stop.toNat = 2 ^ 64 - 1
  · rw [forUpTo_eq_none hstop] at h
    cases h
  · have hlt := stop.toNat_lt
    induction fuel generalizing i s with
    | zero => cases h
    | succ fuel ih =>
      rw [forUpTo] at h
      by_cases hi : i ≤ stop
      · have hle := UInt64.le_iff_toNat_le.mp hi
        rw [if_pos hi] at h
        rw [upTo_cons hi (by omega), List.foldl_cons]
        exact ih h
      · rw [if_neg hi] at h
        cases h
        rw [upTo_nil hi]
        rfl

theorem forUpTo_returns_iff : (∃ fuel t, forUpTo body stop fuel start s = some t) ↔ stop.toNat ≠ 2 ^ 64 - 1 := by
  constructor
  · intro h hstop
    obtain ⟨fuel, t, ht⟩ := h
    rw [forUpTo_eq_none hstop] at ht
    cases ht
  · intro hstop
    have hlt := stop.toNat_lt
    exact ⟨_, _, forUpTo_eq_some (by omega) (Nat.lt_succ_self _)⟩

end CountedLoop
