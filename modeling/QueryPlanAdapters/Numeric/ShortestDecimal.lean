import QueryPlanAdapters.Numeric.NearestEven
import Mathlib.Data.Int.Log
import Mathlib.Data.Nat.Log
import Mathlib.Data.Nat.Prime.Int
import Mathlib.Tactic.NormNum.Prime

/-!
# Shortest decimals

The numbers that round to one double lie together, and a decimal of seventeen digits is among
them. The shortest decimal of a double has the fewest digits that are read back as it; of those
with as few it is the nearest, and of two as near it is the one with an even last digit.
-/

namespace Double

/-! ## What is read as a double -/

/-- A magnitude that is a double. -/
structure IsMagnitude (d : ℚ) : Prop where
  pos : 0 < d
  stored : nearestEven d = finite d

variable {x a : ℚ}

theorem nearestEven_eq_finite_iff {d : ℚ} (hx : 0 < x) (hd : 0 < d) :
    nearestEven x = finite d ↔ roundedMagnitude x = d ∧ d < 2 ^ (1024 : ℕ) := by
  rw [nearestEven_eq, abs_of_pos hx]
  simp only [if_neg hx.not_gt]
  constructor
  · intro h
    split at h
    · exact absurd (finite.inj h) hd.ne
    next =>
      split at h
      · cases h
      next hsmall =>
        obtain rfl := finite.inj h
        exact ⟨rfl, not_le.mp hsmall⟩
  · rintro ⟨rfl, hsmall⟩
    rw [if_neg hd.ne', if_neg (not_le.mpr hsmall)]

/-- What lies between two numbers that are read as a double is read as it. -/
theorem nearestEven_of_between {d y z : ℚ} (hd : 0 < d) (hx : 0 < x) (hxy : x ≤ y) (hyz : y ≤ z)
    (hreadX : nearestEven x = finite d) (hreadZ : nearestEven z = finite d) :
    nearestEven y = finite d := by
  have hy := hx.trans_le hxy
  rw [nearestEven_eq_finite_iff hx hd] at hreadX
  rw [nearestEven_eq_finite_iff (hy.trans_le hyz) hd] at hreadZ
  rw [nearestEven_eq_finite_iff hy hd]
  refine ⟨le_antisymm ?_ ?_, hreadX.2⟩
  · rw [← hreadZ.1]
    exact roundedMagnitude_mono hy hyz
  · rw [← hreadX.1]
    exact roundedMagnitude_mono hx hxy

/-! ## How near is near enough -/

theorem roundTiesToEven_of_near {n : ℤ} (h : |a - n| < 1 / 2) : roundTiesToEven a = n := by
  obtain ⟨hlow, hhigh⟩ := abs_lt.mp h
  have hfloorLe := Int.floor_le a
  have hltFloor := Int.lt_floor_add_one a
  have hle : ⌊a⌋ ≤ n := by
    have hcast : (⌊a⌋ : ℚ) < ((n + 1 : ℤ) : ℚ) := by push_cast; linarith
    exact Int.lt_add_one_iff.mp (by exact_mod_cast hcast)
  have hge : n ≤ ⌊a⌋ + 1 := by
    have hcast : (n : ℚ) < ((⌊a⌋ + 1 + 1 : ℤ) : ℚ) := by push_cast; linarith
    exact Int.lt_add_one_iff.mp (by exact_mod_cast hcast)
  rw [roundTiesToEven_eq]
  obtain hsame | hnext := hle.eq_or_lt
  · rw [hsame, if_pos (by linarith)]
  · obtain rfl : n = ⌊a⌋ + 1 := by omega
    push_cast at hlow hhigh
    rw [if_neg (by linarith), if_pos (by linarith)]

/-- A magnitude against the unit of its last bit. -/
theorem magnitude_bounds (ha : 0 < a) :
    a < 2 ^ 53 * 2 ^ (roundingExponent a - 52) ∧
      (-1022 < roundingExponent a → 2 ^ 52 * 2 ^ (roundingExponent a - 52) ≤ a) := by
  have hhigh : (2 : ℚ) ^ 53 * 2 ^ (roundingExponent a - 52) = 2 ^ (roundingExponent a + 1) := by
    rw [← zpow_natCast, ← zpow_add₀ two_ne_zero]
    congr 1
    push_cast
    ring
  have hlow : (2 : ℚ) ^ 52 * 2 ^ (roundingExponent a - 52) = 2 ^ roundingExponent a := by
    rw [← zpow_natCast, ← zpow_add₀ two_ne_zero]
    congr 1
    push_cast
    ring
  rw [hhigh, hlow]
  constructor
  · apply (binaryExponent_spec ha).2.trans_le
    apply zpow_le_zpow_right₀ one_le_two
    rw [roundingExponent]
    omega
  · intro hnormal
    have hexponent : roundingExponent a = binaryExponent a := by
      rw [roundingExponent] at hnormal ⊢
      omega
    rw [hexponent]
    exact (binaryExponent_spec ha).1

/-- A magnitude is an integer of units, also of the units of a lower exponent. -/
theorem exists_units {d : ℚ} (hself : roundedMagnitude d = d) {e : ℤ}
    (he : e ≤ roundingExponent d) : ∃ n : ℤ, d = n * 2 ^ (e - 52) := by
  obtain ⟨k, hk⟩ := Int.eq_ofNat_of_zero_le (sub_nonneg.mpr he)
  refine ⟨roundTiesToEven (d / 2 ^ (roundingExponent d - 52)) * 2 ^ k, ?_⟩
  have hsplit : roundingExponent d - 52 = (k : ℤ) + (e - 52) := by omega
  calc d = roundTiesToEven (d / 2 ^ (roundingExponent d - 52)) *
        2 ^ (roundingExponent d - 52) := hself.symm
    _ = _ := by
        rw [hsplit, two_zpow_natCast_add]
        push_cast
        ring

/-- Within half a unit of a double, whichever binade it is in. -/
theorem roundedMagnitude_of_near {d : ℚ} (hx : 0 < x) (hd : 0 < d)
    (hself : roundedMagnitude d = d) (hnear : |x - d| < d / 2 ^ 54) : roundedMagnitude x = d := by
  obtain ⟨hlow, hhigh⟩ := abs_lt.mp hnear
  obtain ⟨hxHigh, hxLow⟩ := magnitude_bounds hx
  obtain ⟨hdHigh, -⟩ := magnitude_bounds hd
  obtain hle | hlt := le_or_gt (roundingExponent x) (roundingExponent d)
  · -- In units of the number, the double is an integer of at most 53 bits.
    obtain ⟨n, hn⟩ := exists_units hself hle
    rw [roundedMagnitude]
    have hulp : (0 : ℚ) < 2 ^ (roundingExponent x - 52) := by positivity
    generalize (2 : ℚ) ^ (roundingExponent x - 52) = ulp at hulp hn hxHigh ⊢
    have hbits : n ≤ 2 ^ 53 := by
      have hbound : (n : ℚ) * ulp < ((2 ^ 53 + 1 : ℤ) : ℚ) * ulp := by
        rw [← hn]
        push_cast
        linarith
      exact Int.lt_add_one_iff.mp (by exact_mod_cast lt_of_mul_lt_mul_right hbound hulp.le)
    have hbitsCast : (n : ℚ) ≤ 2 ^ 53 := by exact_mod_cast hbits
    have hhalf : d / 2 ^ 54 ≤ ulp / 2 := by
      have hscaled := mul_le_mul_of_nonneg_right hbitsCast hulp.le
      rw [← hn] at hscaled
      linarith
    rw [roundTiesToEven_of_near (n := n), ← hn]
    have hunits : x / ulp - n = (x - d) / ulp := by
      rw [hn, sub_div, mul_div_cancel_right₀ _ hulp.ne']
    rw [hunits, abs_div, abs_of_pos hulp, div_lt_iff₀ hulp]
    linarith
  · -- The number is in a higher binade, a whole unit away.
    exfalso
    obtain ⟨n, hn⟩ := exists_units hself le_rfl
    have hstep : (2 : ℚ) * 2 ^ (roundingExponent d - 52) ≤ 2 ^ (roundingExponent x - 52) := by
      rw [mul_comm, ← zpow_add_one₀ two_ne_zero]
      exact zpow_le_zpow_right₀ one_le_two (by omega)
    have hdLow : -1022 ≤ roundingExponent d := le_max_right _ _
    have hxLow := hxLow (by omega)
    have hulp : (0 : ℚ) < 2 ^ (roundingExponent d - 52) := by positivity
    generalize (2 : ℚ) ^ (roundingExponent d - 52) = ulp at hulp hn hdHigh hstep
    generalize (2 : ℚ) ^ (roundingExponent x - 52) = unit at hstep hxLow
    have hbits : n + 1 ≤ 2 ^ 53 := by
      rw [hn] at hdHigh
      exact_mod_cast lt_of_mul_lt_mul_right hdHigh hulp.le
    have hbitsCast : (n : ℚ) + 1 ≤ 2 ^ 53 := by exact_mod_cast hbits
    have hscaled := mul_le_mul_of_nonneg_right hbitsCast hulp.le
    rw [add_mul, ← hn, one_mul] at hscaled
    linarith

theorem IsMagnitude.reads_of_near {d : ℚ} (hd : IsMagnitude d) (hx : 0 < x)
    (hnear : |x - d| < d / 2 ^ 54) : nearestEven x = finite d := by
  obtain ⟨hself, hsmall⟩ := (nearestEven_eq_finite_iff hd.pos hd.pos).mp hd.stored
  rw [nearestEven_eq_finite_iff hx hd.pos]
  exact ⟨roundedMagnitude_of_near hx hd.pos hself hnear, hsmall⟩

/-! ## Decimals -/

/-- An integer times a power of ten. -/
structure Decimal where
  significand : ℕ
  exponent : ℤ
  deriving DecidableEq, Repr

namespace Decimal

def value (m : Decimal) : ℚ :=
  m.significand * 10 ^ m.exponent

def digits (m : Decimal) : ℕ :=
  Nat.log 10 m.significand + 1

variable {m : Decimal}

theorem digits_le_iff (hm : m.significand ≠ 0) {p : ℕ} : m.digits ≤ p ↔ m.significand < 10 ^ p := by
  rw [← Nat.log_lt_iff_lt_pow (by decide) hm]
  rfl

/-- A decimal in units of a lower power of ten. -/
theorem value_eq_units {e : ℤ} (h : e ≤ m.exponent) :
    m.value = ((m.significand * 10 ^ (m.exponent - e).toNat : ℕ) : ℚ) * 10 ^ e := by
  have hsplit : m.exponent = ((m.exponent - e).toNat : ℤ) + e := by omega
  rw [value]
  nth_rewrite 1 [hsplit]
  rw [zpow_add₀ (by norm_num), zpow_natCast]
  push_cast
  ring

/-- Of two decimals of one value, the one of the lower exponent has a multiple of the other's
significand. -/
theorem significand_of_value_eq {k : Decimal} (h : m.value = k.value)
    (he : m.exponent ≤ k.exponent) :
    m.significand = k.significand * 10 ^ (k.exponent - m.exponent).toNat := by
  rw [value_eq_units he, value] at h
  have hten : (10 : ℚ) ^ m.exponent ≠ 0 := by positivity
  exact_mod_cast mul_right_cancel₀ hten h

/-- Without a trailing zero, a decimal is known by its value. -/
theorem eq_of_value_eq {k : Decimal} (hm : m.significand % 10 ≠ 0) (hk : k.significand % 10 ≠ 0)
    (h : m.value = k.value) : m = k := by
  wlog he : m.exponent ≤ k.exponent generalizing m k
  · exact (this hk hm h.symm (le_of_not_ge he)).symm
  have hsignificand := significand_of_value_eq h he
  obtain hsame | hlt := he.eq_or_lt
  · rw [hsame, sub_self, Int.toNat_zero, pow_zero, mul_one] at hsignificand
    cases m
    cases k
    simp_all
  · exfalso
    obtain ⟨j, hj⟩ : ∃ j, (k.exponent - m.exponent).toNat = j + 1 :=
      ⟨(k.exponent - m.exponent).toNat - 1, by omega⟩
    rw [hj, pow_succ, ← mul_assoc] at hsignificand
    exact hm (by rw [hsignificand, Nat.mul_mod_left])

end Decimal

/-! ## The shortest decimal of a double -/

structure IsShortest (d : ℚ) (m : Decimal) : Prop where
  reads : nearestEven m.value = finite d
  fewest : ∀ k : Decimal, nearestEven k.value = finite d → m.digits ≤ k.digits
  nearest : ∀ k : Decimal, nearestEven k.value = finite d → k.digits ≤ m.digits →
    |m.value - d| ≤ |k.value - d|
  /-- Of two decimals as near, the lower one decides by its last digit. -/
  tie : ∀ k : Decimal, nearestEven k.value = finite d → k.digits ≤ m.digits →
    |m.value - d| = |k.value - d| →
      (m.value < k.value → m.significand % 2 = 0) ∧ (k.value < m.value → k.significand % 2 = 1)

variable {m : Decimal}

theorem significand_ne_zero {d : ℚ} (hd : 0 < d)
    (h : nearestEven m.value = finite d) : m.significand ≠ 0 := by
  intro hzero
  have hvalue : m.value = 0 := by rw [Decimal.value, hzero, Nat.cast_zero, zero_mul]
  rw [hvalue] at h
  exact hd.ne (finite.inj ((show nearestEven 0 = finite 0 by decide +kernel).symm.trans h))

/-- A shortest decimal has no trailing zero. -/
theorem IsShortest.not_trailing {d : ℚ} (hd : 0 < d) (h : IsShortest d m) :
    m.significand % 10 ≠ 0 := by
  intro hzero
  have hne := significand_ne_zero hd h.reads
  let shorter : Decimal := ⟨m.significand / 10, m.exponent + 1⟩
  have hsplit : m.significand = m.significand / 10 * 10 := by omega
  have hvalue : shorter.value = m.value := by
    rw [Decimal.value, Decimal.value, hsplit, zpow_add_one₀ (by norm_num)]
    simp only [shorter]
    push_cast
    ring
  have hdigits := h.fewest shorter (by rw [hvalue, h.reads])
  have hfits : m.significand < 10 ^ m.digits := (Decimal.digits_le_iff hne).mp le_rfl
  have hlog : 1 ≤ Nat.log 10 m.significand :=
    (Nat.le_log_iff_pow_le (by decide) hne).mpr (by omega)
  have hless : shorter.digits ≤ m.digits - 1 := by
    have hpow : 10 ^ m.digits = 10 ^ (m.digits - 1) * 10 := by
      rw [← pow_succ, Nat.sub_add_cancel (by simp [Decimal.digits])]
    rw [Decimal.digits_le_iff (by simp only [shorter]; omega)]
    simp only [shorter]
    omega
  simp only [Decimal.digits] at hdigits hless
  omega

/-! ## The two neighbours of as many digits -/

/-- The last place of a decimal of so many digits beside a magnitude. -/
def decimalUnit (d : ℚ) (digits : ℕ) : ℚ :=
  10 ^ (Int.log 10 d + 1 - digits)

def decimalBelow (d : ℚ) (digits : ℕ) : ℚ :=
  ⌊d / decimalUnit d digits⌋ * decimalUnit d digits

def decimalAbove (d : ℚ) (digits : ℕ) : ℚ :=
  ⌈d / decimalUnit d digits⌉ * decimalUnit d digits

section Neighbours

variable {d : ℚ} {p : ℕ}

variable {k : Decimal}

theorem decimalUnit_pos : 0 < decimalUnit d p := by
  rw [decimalUnit]
  positivity

theorem zpow_log_le (hd : 0 < d) : (10 : ℚ) ^ Int.log 10 d ≤ d := by
  exact_mod_cast Int.zpow_log_le_self (b := 10) (by decide) hd

theorem lt_zpow_log : d < (10 : ℚ) ^ (Int.log 10 d + 1) := by
  exact_mod_cast Int.lt_zpow_succ_log_self (b := 10) (by decide) d

/-- A number of one digit more than the last place has. -/
theorem pow_mul_decimalUnit (n : ℕ) :
    ((10 ^ n : ℤ) : ℚ) * decimalUnit d p = 10 ^ (Int.log 10 d + 1 - p + n) := by
  rw [decimalUnit, zpow_add₀ (a := (10 : ℚ)) (by norm_num) _ (n : ℤ), zpow_natCast]
  push_cast
  ring

theorem decimalBelow_le : decimalBelow d p ≤ d := by
  rw [decimalBelow, ← le_div_iff₀ decimalUnit_pos]
  exact Int.floor_le _

theorem le_decimalAbove : d ≤ decimalAbove d p := by
  rw [decimalAbove, ← div_le_iff₀ decimalUnit_pos]
  exact Int.le_ceil _

/-- The lower neighbour has all its digits. -/
theorem pow_le_floor (hd : 0 < d) (hp : 1 ≤ p) : (10 : ℤ) ^ (p - 1) ≤ ⌊d / decimalUnit d p⌋ := by
  rw [Int.le_floor, le_div_iff₀ decimalUnit_pos, pow_mul_decimalUnit]
  have hexponent : Int.log 10 d + 1 - p + ((p - 1 : ℕ) : ℤ) = Int.log 10 d := by omega
  rw [hexponent]
  exact zpow_log_le hd

theorem floor_lt_pow : ⌊d / decimalUnit d p⌋ < (10 : ℤ) ^ p := by
  rw [Int.floor_lt, div_lt_iff₀ decimalUnit_pos, pow_mul_decimalUnit]
  have hexponent : Int.log 10 d + 1 - p + (p : ℤ) = Int.log 10 d + 1 := by omega
  rw [hexponent]
  exact lt_zpow_log

theorem ceil_le_pow : ⌈d / decimalUnit d p⌉ ≤ (10 : ℤ) ^ p := by
  rw [Int.ceil_le, div_le_iff₀ decimalUnit_pos, pow_mul_decimalUnit]
  have hexponent : Int.log 10 d + 1 - p + (p : ℤ) = Int.log 10 d + 1 := by omega
  rw [hexponent]
  exact lt_zpow_log.le

theorem zpow_log_le_decimalBelow (hd : 0 < d) (hp : 1 ≤ p) :
    (10 : ℚ) ^ Int.log 10 d ≤ decimalBelow d p := by
  have hcast : ((10 ^ (p - 1) : ℤ) : ℚ) ≤ ⌊d / decimalUnit d p⌋ := by
    exact_mod_cast pow_le_floor hd hp
  have hscaled := mul_le_mul_of_nonneg_right hcast (decimalUnit_pos (d := d) (p := p)).le
  rw [pow_mul_decimalUnit] at hscaled
  have hexponent : Int.log 10 d + 1 - p + ((p - 1 : ℕ) : ℤ) = Int.log 10 d := by omega
  rwa [hexponent] at hscaled

theorem decimalBelow_pos (hd : 0 < d) (hp : 1 ≤ p) : 0 < decimalBelow d p :=
  lt_of_lt_of_le (by positivity) (zpow_log_le_decimalBelow hd hp)

/-- A decimal of no more digits is an integer of units, or is below the leading power of ten. -/
theorem units_or_small (hk : k.significand ≠ 0) (hdigits : k.digits ≤ p) :
    (∃ n : ℤ, k.value = n * decimalUnit d p) ∨ k.value < 10 ^ Int.log 10 d := by
  by_cases he : Int.log 10 d + 1 - p ≤ k.exponent
  · left
    refine ⟨(k.significand * 10 ^ (k.exponent - (Int.log 10 d + 1 - p)).toNat : ℕ), ?_⟩
    rw [Decimal.value_eq_units he, decimalUnit, Int.cast_natCast]
  · right
    have hfits : (k.significand : ℚ) < 10 ^ p := by
      exact_mod_cast (Decimal.digits_le_iff hk).mp hdigits
    calc k.value < 10 ^ p * 10 ^ k.exponent := by
          rw [Decimal.value]
          gcongr
      _ = 10 ^ ((p : ℤ) + k.exponent) := by
          rw [zpow_add₀ (by norm_num), zpow_natCast]
      _ ≤ 10 ^ Int.log 10 d := by
          apply zpow_le_zpow_right₀ (by norm_num)
          omega

theorem value_le_decimalBelow (hd : 0 < d) (hp : 1 ≤ p) (hk : k.significand ≠ 0)
    (hdigits : k.digits ≤ p) (hle : k.value ≤ d) : k.value ≤ decimalBelow d p := by
  obtain ⟨n, hn⟩ | hsmall := units_or_small (d := d) hk hdigits
  · rw [hn] at hle ⊢
    rw [← le_div_iff₀ decimalUnit_pos] at hle
    rw [decimalBelow]
    have hcast : (n : ℚ) ≤ ⌊d / decimalUnit d p⌋ := by exact_mod_cast Int.le_floor.mpr hle
    exact mul_le_mul_of_nonneg_right hcast decimalUnit_pos.le
  · exact hsmall.le.trans (zpow_log_le_decimalBelow hd hp)

theorem decimalAbove_le_value (hd : 0 < d) (hk : k.significand ≠ 0)
    (hdigits : k.digits ≤ p) (hle : d ≤ k.value) : decimalAbove d p ≤ k.value := by
  obtain ⟨n, hn⟩ | hsmall := units_or_small (d := d) hk hdigits
  · rw [hn] at hle ⊢
    rw [← div_le_iff₀ decimalUnit_pos] at hle
    rw [decimalAbove]
    have hcast : (⌈d / decimalUnit d p⌉ : ℚ) ≤ n := by exact_mod_cast Int.ceil_le.mpr hle
    exact mul_le_mul_of_nonneg_right hcast decimalUnit_pos.le
  · exact absurd (hle.trans_lt hsmall) (not_lt.mpr (zpow_log_le hd))

/-- If any decimal of so many digits is read back, then a neighbour is. -/
theorem neighbour_reads (hd : IsMagnitude d) (hp : 1 ≤ p)
    (hreads : nearestEven k.value = finite d) (hdigits : k.digits ≤ p) :
    nearestEven (decimalBelow d p) = finite d ∨ nearestEven (decimalAbove d p) = finite d := by
  have hk := significand_ne_zero hd.pos hreads
  have hvalue : 0 < k.value := by
    have hcast : (0 : ℚ) < k.significand := by exact_mod_cast Nat.pos_of_ne_zero hk
    rw [Decimal.value]
    positivity
  obtain hle | hge := le_total k.value d
  · left
    exact nearestEven_of_between hd.pos hvalue (value_le_decimalBelow hd.pos hp hk hdigits hle)
      decimalBelow_le hreads hd.stored
  · right
    exact nearestEven_of_between hd.pos hd.pos le_decimalAbove
      (decimalAbove_le_value hd.pos hk hdigits hge) hd.stored hreads

/-- Seventeen digits suffice. -/
theorem neighbour_reads_seventeen (hd : IsMagnitude d) :
    nearestEven (decimalBelow d 17) = finite d ∨ nearestEven (decimalAbove d 17) = finite d := by
  have hunit : decimalUnit d 17 ≤ d / 10 ^ 16 := by
    rw [le_div_iff₀ (by norm_num), mul_comm]
    have hexponent : Int.log 10 d + 1 - (17 : ℕ) + (16 : ℕ) = Int.log 10 d := by omega
    have hpow := pow_mul_decimalUnit (d := d) (p := 17) 16
    rw [hexponent, Int.cast_pow, Int.cast_ofNat] at hpow
    rw [hpow]
    exact zpow_log_le hd.pos
  have hwidth : decimalAbove d 17 - decimalBelow d 17 ≤ decimalUnit d 17 := by
    have hceil : (⌈d / decimalUnit d 17⌉ : ℚ) ≤ ⌊d / decimalUnit d 17⌋ + 1 := by
      exact_mod_cast Int.ceil_le_floor_add_one _
    have hscaled := mul_le_mul_of_nonneg_right hceil (decimalUnit_pos (d := d) (p := 17)).le
    rw [decimalAbove, decimalBelow]
    linarith
  have hbelow := decimalBelow_le (d := d) (p := 17)
  have habove := le_decimalAbove (d := d) (p := 17)
  have hpos := hd.pos
  obtain hlow | hhigh := le_total (d - decimalBelow d 17) (decimalAbove d 17 - d)
  · left
    apply hd.reads_of_near (decimalBelow_pos hd.pos (by decide))
    rw [abs_sub_comm, abs_of_nonneg (by linarith)]
    linarith
  · right
    apply hd.reads_of_near (hd.pos.trans_le habove)
    rw [abs_of_nonneg (by linarith)]
    linarith

/-- The nearer of the neighbours that are read back; of two as near, the one that the last digit
of the lower one chooses. -/
inductive Picks (d : ℚ) (p : ℕ) : ℚ → Prop
  | below (reads : nearestEven (decimalBelow d p) = finite d)
      (nearer : nearestEven (decimalAbove d p) = finite d →
        d - decimalBelow d p < decimalAbove d p - d ∨
          d - decimalBelow d p = decimalAbove d p - d ∧ ⌊d / decimalUnit d p⌋ % 2 = 0) :
      Picks d p (decimalBelow d p)
  | above (reads : nearestEven (decimalAbove d p) = finite d)
      (nearer : nearestEven (decimalBelow d p) = finite d →
        decimalAbove d p - d < d - decimalBelow d p ∨
          d - decimalBelow d p = decimalAbove d p - d ∧ ⌊d / decimalUnit d p⌋ % 2 = 1) :
      Picks d p (decimalAbove d p)

/-- The lower neighbour as a decimal of as many digits ends with the last digit of its units. -/
theorem significand_mod_two (hd : 0 < d) (hp : 1 ≤ p) (hk : k.significand ≠ 0)
    (hdigits : k.digits = p) (hvalue : k.value = decimalBelow d p) :
    (k.significand : ℤ) % 2 = ⌊d / decimalUnit d p⌋ % 2 := by
  have hfloor := pow_le_floor (p := p) hd hp
  obtain ⟨n, hn⟩ := Int.eq_ofNat_of_zero_le ((pow_nonneg (by decide) (p - 1)).trans hfloor)
  rw [decimalBelow, hn] at hvalue
  rw [hn] at hfloor ⊢
  have hnpow : 10 ^ (p - 1) ≤ n := by exact_mod_cast hfloor
  let low : Decimal := ⟨n, Int.log 10 d + 1 - p⟩
  have hlow : k.value = low.value := by
    rw [hvalue, Decimal.value, decimalUnit]
    rfl
  have hfits := (Decimal.digits_le_iff hk).mp hdigits.le
  have hpow : 10 ^ p = 10 ^ (p - 1) * 10 := by rw [← pow_succ, Nat.sub_add_cancel hp]
  have hhead : 10 ^ (p - 1) ≤ k.significand := by
    rw [← Nat.le_log_iff_pow_le (by decide) hk, ← hdigits, Decimal.digits, Nat.add_sub_cancel]
  have hlarge : ∀ j : ℕ, 1 ≤ j → 10 ≤ 10 ^ j := fun j hj => by
    calc 10 = 10 ^ 1 := rfl
      _ ≤ 10 ^ j := Nat.pow_le_pow_right (by decide) hj
  -- A different exponent would take a digit more or less.
  obtain hlt | heq | hgt := lt_trichotomy k.exponent low.exponent
  · exfalso
    have hsignificand := Decimal.significand_of_value_eq hlow hlt.le
    have hscaled := Nat.mul_le_mul hnpow (hlarge (low.exponent - k.exponent).toNat (by omega))
    rw [← hpow] at hscaled
    exact absurd (hsignificand.symm ▸ hscaled : 10 ^ p ≤ k.significand) (not_le.mpr hfits)
  · have hsignificand := Decimal.significand_of_value_eq hlow heq.le
    rw [heq, sub_self, Int.toNat_zero, pow_zero, mul_one] at hsignificand
    rw [hsignificand]
  · exfalso
    have hsignificand := Decimal.significand_of_value_eq hlow.symm hgt.le
    have hscaled := Nat.mul_le_mul hhead (hlarge (k.exponent - low.exponent).toNat (by omega))
    rw [← hpow, ← hsignificand] at hscaled
    have hfloorLt := floor_lt_pow (d := d) (p := p)
    rw [hn] at hfloorLt
    exact absurd hscaled (not_le.mpr (by exact_mod_cast hfloorLt))

/-- A nearest neighbour of the fewest digits is the shortest decimal. -/
theorem isShortest_of_picks (hd : IsMagnitude d) (hp : 1 ≤ p)
    (hfewest : ∀ k : Decimal, nearestEven k.value = finite d → p ≤ k.digits) {m : Decimal}
    (hdigits : m.digits ≤ p) (h : Picks d p m.value) : IsShortest d m := by
  have hreads : nearestEven m.value = finite d := by
    generalize m.value = v at h
    cases h with
    | below reads _ => exact reads
    | above reads _ => exact reads
  have hm := significand_ne_zero hd.pos hreads
  have hp' : m.digits = p := le_antisymm hdigits (hfewest m hreads)
  have hbelow := decimalBelow_le (d := d) (p := p)
  have habove := le_decimalAbove (d := d) (p := p)
  -- Where a decimal that is read back stands beside the neighbours.
  have hside : ∀ k : Decimal, nearestEven k.value = finite d → k.digits ≤ m.digits →
      k.value ≤ decimalBelow d p ∧ nearestEven (decimalBelow d p) = finite d ∨
        decimalAbove d p ≤ k.value ∧ nearestEven (decimalAbove d p) = finite d := by
    intro k hk hkDigits
    rw [hp'] at hkDigits
    have hne := significand_ne_zero hd.pos hk
    have hvalue : 0 < k.value := by
      have hcast : (0 : ℚ) < k.significand := by exact_mod_cast Nat.pos_of_ne_zero hne
      rw [Decimal.value]
      positivity
    obtain hle | hge := le_total k.value d
    · have hlow := value_le_decimalBelow hd.pos hp hne hkDigits hle
      exact .inl ⟨hlow, nearestEven_of_between hd.pos hvalue hlow hbelow hk hd.stored⟩
    · have hhigh := decimalAbove_le_value hd.pos hne hkDigits hge
      exact .inr ⟨hhigh, nearestEven_of_between hd.pos hd.pos habove hhigh hd.stored hk⟩
  have hparity : ∀ k : Decimal, nearestEven k.value = finite d → k.digits ≤ m.digits →
      k.value = decimalBelow d p → (k.significand : ℤ) % 2 = ⌊d / decimalUnit d p⌋ % 2 := by
    intro k hk hkDigits hvalue
    exact significand_mod_two hd.pos hp (significand_ne_zero hd.pos hk)
      (le_antisymm (hkDigits.trans hdigits) (hfewest k hk)) hvalue
  refine ⟨hreads, fun k hk => hdigits.trans (hfewest k hk), ?_, ?_⟩
  · intro k hk hkDigits
    obtain ⟨hkLow, hlow⟩ | ⟨hkHigh, hhigh⟩ := hside k hk hkDigits
    · rw [abs_sub_comm k.value, abs_of_nonneg (by linarith : 0 ≤ d - k.value)]
      generalize m.value = v at h
      cases h with
      | below _ _ =>
          rw [abs_sub_comm, abs_of_nonneg (by linarith)]
          linarith
      | above _ nearer =>
          rw [abs_of_nonneg (by linarith)]
          obtain hlt | ⟨heq, -⟩ := nearer hlow <;> linarith
    · rw [abs_of_nonneg (by linarith : 0 ≤ k.value - d)]
      generalize m.value = v at h
      cases h with
      | below _ nearer =>
          rw [abs_sub_comm, abs_of_nonneg (by linarith)]
          obtain hlt | ⟨heq, -⟩ := nearer hhigh <;> linarith
      | above _ _ =>
          rw [abs_of_nonneg (by linarith)]
          linarith
  · intro k hk hkDigits hsame
    have hmParity := hparity m hreads le_rfl
    have hkParity := hparity k hk hkDigits
    obtain ⟨hkLow, hlow⟩ | ⟨hkHigh, hhigh⟩ := hside k hk hkDigits
    · rw [abs_sub_comm k.value, abs_of_nonneg (by linarith : 0 ≤ d - k.value)] at hsame
      generalize m.value = v at h hsame hmParity
      cases h with
      | below _ _ =>
          rw [abs_sub_comm, abs_of_nonneg (by linarith)] at hsame
          exact ⟨fun hlt => by linarith, fun hlt => by linarith⟩
      | above _ nearer =>
          rw [abs_of_nonneg (by linarith)] at hsame
          refine ⟨fun hlt => by linarith, fun _ => ?_⟩
          obtain hlt | ⟨heq, hodd⟩ := nearer hlow
          · linarith
          · have := hkParity (by linarith)
            omega
    · rw [abs_of_nonneg (by linarith : 0 ≤ k.value - d)] at hsame
      generalize hv : m.value = v at h hsame hmParity
      cases h with
      | below _ nearer =>
          rw [abs_sub_comm, abs_of_nonneg (by linarith)] at hsame
          refine ⟨fun _ => ?_, fun hlt => by linarith⟩
          obtain hlt | ⟨heq, heven⟩ := nearer hhigh
          · linarith
          · have := hmParity rfl
            omega
      | above _ _ =>
          rw [abs_of_nonneg (by linarith)] at hsame
          exact ⟨fun hlt => by linarith, fun hlt => by linarith⟩

end Neighbours

/-- A value of the format: a finite one is a zero or plus or minus a magnitude. -/
def IsDouble : Double → Prop
  | finite q => q = 0 ∨ IsMagnitude |q|
  | _ => True

theorem IsDouble.exists_magnitude {d : Double} (h : IsDouble d) (hfinite : d.isFinite = true)
    (hzero : d.isZero = false) : ∃ q, d = finite q ∧ IsMagnitude |q| := by
  cases d with
  | finite q => exact ⟨q, rfl, h.resolve_left (of_decide_eq_false hzero)⟩
  | negZero => cases hzero
  | posInf | negInf | nan => cases hfinite

end Double
