import QueryPlanAdapters.Numeric.Double
import Mathlib.Algebra.Order.Field.Basic
import Mathlib.Algebra.Order.Field.Power
import Mathlib.Tactic.Linarith
import Mathlib.Tactic.Positivity
import Mathlib.Tactic.Ring

/-!
# Integers among the doubles

An integer of at most 53 bits is a double, so that a product of two of them is exact, and so
is a quotient that is an integer.
-/

namespace Double

theorem binaryExponent_natCast {n : Nat} (hn : n ≠ 0) : binaryExponent n = n.log2 := by
  have hle : (2 : ℚ) ^ n.log2 ≤ n := by exact_mod_cast Nat.log2_self_le hn
  have hone : Nat.log2 1 = 0 := by decide
  simp [binaryExponent, hone, hle]

theorem roundTiesToEven_intCast (m : ℤ) : roundTiesToEven m = m := by
  simp [roundTiesToEven]

/-- An integer of at most 53 bits is a double. -/
theorem nearestEven_natCast {n : Nat} (hn : n ≠ 0) (hbits : n < 2 ^ 53) :
    nearestEven n = finite n := by
  have hlog : n.log2 < 53 := (Nat.log2_lt hn).mpr hbits
  have hexponent : max (binaryExponent |(n : ℚ)|) (-1022) = (n.log2 : ℤ) := by
    rw [Nat.abs_cast, binaryExponent_natCast hn]
    omega
  have hulp : (2 : ℚ) ^ ((n.log2 : ℤ) - 52) ≠ 0 := by positivity
  -- Its units in the last place are a whole number of them.
  have hunits : |(n : ℚ)| / (2 : ℚ) ^ ((n.log2 : ℤ) - 52) = ((n * 2 ^ (52 - n.log2) : ℕ) : ℤ) := by
    have hsum : ((52 - n.log2 : ℕ) : ℤ) + ((n.log2 : ℤ) - 52) = 0 := by omega
    rw [Nat.abs_cast, div_eq_iff hulp]
    push_cast
    rw [mul_assoc, ← zpow_natCast, ← zpow_add₀ two_ne_zero, hsum, zpow_zero, mul_one]
  have hmagnitude : (((n * 2 ^ (52 - n.log2) : ℕ) : ℤ) : ℚ) * (2 : ℚ) ^ ((n.log2 : ℤ) - 52) = n := by
    rw [← hunits, div_mul_cancel₀ _ hulp, Nat.abs_cast]
  have hnonzero : (n : ℚ) ≠ 0 := by exact_mod_cast hn
  have hsmall : ¬ (2 : ℚ) ^ (1024 : Nat) ≤ n := by
    rw [not_le]
    calc (n : ℚ) < (2 : ℚ) ^ 53 := by exact_mod_cast hbits
      _ ≤ 2 ^ 1024 := pow_le_pow_right₀ one_le_two (by decide)
  have hpos : ¬ (n : ℚ) < 0 := not_lt.mpr (Nat.cast_nonneg n)
  simp only [nearestEven, hexponent]
  rw [hunits, roundTiesToEven_intCast, hmagnitude, if_neg hnonzero, if_neg hsmall, if_neg hpos]

theorem ofRat_natCast {n : Nat} (hbits : n < 2 ^ 53) : ofRat n = finite n := by
  rw [ofRat]
  split
  next hzero => rw [hzero]
  next hzero => exact nearestEven_natCast (by exact_mod_cast hzero) hbits

theorem ofInt_natCast {n : Nat} (hbits : n < 2 ^ 53) : ofInt n = finite n := by
  rw [ofInt, Int.cast_natCast, ofRat_natCast hbits]

theorem signBit_natCast (n : Nat) : (finite n).signBit = false := by
  simp [signBit]

theorem mul_natCast {m n : Nat} (hbits : m * n < 2 ^ 53) :
    (finite m).mul (finite n) = finite (m * n : ℕ) := by
  rw [mul]
  simp only [isNaN, isInfinite, Bool.or_self, Bool.false_eq_true, if_false]
  split
  next hzero =>
    have hproduct : m * n = 0 := by simpa [isZero, isFinite, toRat] using hzero
    rw [signed, signBit_natCast, signBit_natCast, if_pos rfl, hproduct]
    rfl
  next =>
    have hproduct : (finite m).toRat * (finite n).toRat = (m * n : ℕ) := by simp [toRat]
    rw [hproduct, ofRat_natCast hbits]

theorem div_natCast {m n : Nat} (hn : n ≠ 0) (hbits : m < 2 ^ 53) :
    (finite (m * n : ℕ)).div (finite n) = finite m := by
  have hdivisor : (finite (n : ℚ)).isZero = false := by simpa [isZero, isFinite, toRat] using hn
  rw [div, hdivisor]
  simp only [isNaN, isInfinite, Bool.or_self, Bool.false_eq_true, if_false]
  split
  next hzero =>
    obtain rfl : m = 0 := by
      have hproduct : m * n = 0 := by simpa [isZero, isFinite, toRat] using hzero
      exact (Nat.mul_eq_zero.mp hproduct).resolve_right hn
    rw [signed, signBit_natCast, signBit_natCast, if_pos rfl]
    rfl
  next =>
    have hquotient : (finite (m * n : ℕ)).toRat / (finite n).toRat = m := by
      have hnonzero : (n : ℚ) ≠ 0 := by exact_mod_cast hn
      simp [toRat, hnonzero]
    rw [hquotient, ofRat_natCast hbits]

theorem trunc_natCast (n : Nat) : (finite n).trunc = n := by
  simp [trunc, toRat]

theorem toRat_of_isInteger {d : Double} (h : d.isInteger = true) : d.toRat = d.trunc := by
  rw [isInteger, Bool.and_eq_true, decide_eq_true_iff] at h
  rw [trunc, h.2, Nat.cast_one, Int.tdiv_one]
  exact (Rat.den_eq_one_iff _).mp h.2 |>.symm

/-- Truncation is the floor on one side of zero and the ceiling on the other. -/
theorem trunc_eq (d : Double) : d.trunc = if 0 ≤ d.toRat then ⌊d.toRat⌋ else ⌈d.toRat⌉ := by
  rw [trunc]
  generalize d.toRat = q
  split
  next hq => rw [Int.tdiv_eq_ediv_of_nonneg (Rat.num_nonneg.mpr hq), Rat.floor_def']
  next hq =>
    have hnum : 0 ≤ (-q).num := Rat.num_nonneg.mpr (neg_nonneg.mpr (le_of_not_ge hq))
    rw [← neg_neg q, Int.ceil_neg, Rat.floor_def', ← Int.tdiv_eq_ediv_of_nonneg hnum,
      Rat.num_neg_eq_neg_num (-q), Int.neg_tdiv, neg_neg]
    rfl

/-- A lower bound of the whole part is a bound of the number, on the side of zero where it
stands. -/
theorem le_trunc_iff (d : Double) (k : ℤ) :
    k ≤ d.trunc ↔ if 0 < k then (k : ℚ) ≤ d.toRat else (k : ℚ) - 1 < d.toRat := by
  rw [trunc_eq]
  generalize d.toRat = q
  by_cases hq : 0 ≤ q
  · rw [if_pos hq, Int.le_floor]
    split
    · exact Iff.rfl
    next hk =>
      have hnonpos : (k : ℚ) ≤ 0 := by exact_mod_cast not_lt.mp hk
      exact iff_of_true (hnonpos.trans hq) (by linarith)
  · rw [if_neg hq, Int.le_ceil_iff]
    split
    next hk =>
      have hone : (1 : ℚ) ≤ k := by exact_mod_cast hk
      have hneg := not_le.mp hq
      exact iff_of_false (by linarith) (by linarith)
    · exact Iff.rfl

theorem trunc_le_iff (d : Double) (k : ℤ) :
    d.trunc ≤ k ↔ if k < 0 then d.toRat ≤ k else d.toRat < k + 1 := by
  rw [trunc_eq]
  generalize d.toRat = q
  by_cases hq : 0 ≤ q
  · rw [if_pos hq, Int.floor_le_iff]
    split
    next hk =>
      have hone : (k : ℚ) ≤ -1 := by exact_mod_cast Int.le_sub_one_of_lt hk
      exact iff_of_false (by linarith) (by linarith)
    · exact Iff.rfl
  · rw [if_neg hq, Int.ceil_le]
    have hneg := not_le.mp hq
    split
    · exact Iff.rfl
    next hk =>
      have hnonneg : (0 : ℚ) ≤ k := by exact_mod_cast not_lt.mp hk
      exact iff_of_true (by linarith) (by linarith)

end Double
