import QueryPlanAdapters.Numeric.Integers
import QueryPlanAdapters.Numeric.Order
import Mathlib.Algebra.Order.Field.Basic
import Mathlib.Algebra.Order.Field.Power
import Mathlib.Algebra.Order.Floor.Ring
import Mathlib.Data.Rat.Floor
import Mathlib.Tactic.Positivity
import Mathlib.Tactic.Linarith
import Mathlib.Tactic.FieldSimp

/-!
# Rounding to nearest keeps the order

The nearest integer, a tie going to the even one, keeps the order of the rationals and
every integer. A magnitude between two powers of two has 53 significant bits between
them, so that magnitudes of different exponents round to either side of the power that
separates them, and the signs and the bound of the finite doubles keep the order too.
-/

namespace Double

/-! ## The nearest integer -/

variable {a q : ℚ} {n m : ℤ}

theorem roundTiesToEven_eq (a : ℚ) :
    roundTiesToEven a =
      if a - ⌊a⌋ < 1 / 2 then ⌊a⌋
      else if 1 / 2 < a - ⌊a⌋ then ⌊a⌋ + 1
      else if ⌊a⌋ % 2 = 0 then ⌊a⌋ else ⌊a⌋ + 1 := by
  have hfloor : ⌊a⌋ = a.num / a.den := Rat.floor_def a
  rw [roundTiesToEven, hfloor]

theorem floor_le_roundTiesToEven (a : ℚ) : ⌊a⌋ ≤ roundTiesToEven a := by
  rw [roundTiesToEven_eq]
  split_ifs <;> omega

theorem roundTiesToEven_le_floor_add_one (a : ℚ) : roundTiesToEven a ≤ ⌊a⌋ + 1 := by
  rw [roundTiesToEven_eq]
  split_ifs <;> omega

theorem roundTiesToEven_mono {a b : ℚ} (h : a ≤ b) : roundTiesToEven a ≤ roundTiesToEven b := by
  obtain heq | hlt := (Int.floor_mono h).eq_or_lt
  · rw [roundTiesToEven_eq a, roundTiesToEven_eq b, heq]
    split_ifs <;> first | omega | (exfalso; linarith)
  · calc roundTiesToEven a ≤ ⌊a⌋ + 1 := roundTiesToEven_le_floor_add_one a
      _ ≤ ⌊b⌋ := hlt
      _ ≤ roundTiesToEven b := floor_le_roundTiesToEven b

/-! ## The leading digit -/

/-- A positive rational lies in the binade of its exponent. -/
theorem binaryExponent_spec (ha : 0 < a) :
    (2 : ℚ) ^ binaryExponent a ≤ a ∧ a < (2 : ℚ) ^ (binaryExponent a + 1) := by
  have hnum : a.num.natAbs ≠ 0 := Int.natAbs_ne_zero.mpr (Rat.num_pos.mpr ha).ne'
  have hvalue : a = (a.num.natAbs : ℚ) / a.den := by
    have hcast : ((a.num.natAbs : ℤ) : ℚ) = a.num := by
      rw [Int.natAbs_of_nonneg (Rat.num_pos.mpr ha).le]
    rw [← Int.cast_natCast a.num.natAbs, hcast, Rat.num_div_den]
  have hden : (0 : ℚ) < a.den := by exact_mod_cast a.den_pos
  have hnumLow : (2 : ℚ) ^ (a.num.natAbs.log2 : ℤ) ≤ a.num.natAbs := by
    exact_mod_cast Nat.log2_self_le hnum
  have hnumHigh : (a.num.natAbs : ℚ) < (2 : ℚ) ^ ((a.num.natAbs.log2 : ℤ) + 1) := by
    exact_mod_cast Nat.lt_log2_self
  have hdenLow : (2 : ℚ) ^ (a.den.log2 : ℤ) ≤ a.den := by
    exact_mod_cast Nat.log2_self_le a.den_pos.ne'
  have hdenHigh : (a.den : ℚ) < (2 : ℚ) ^ ((a.den.log2 : ℤ) + 1) := by
    exact_mod_cast Nat.lt_log2_self
  -- The quotient of the two binades spans two of them, and the definition picks one.
  have hlow : (2 : ℚ) ^ ((a.num.natAbs.log2 : ℤ) - a.den.log2 - 1) ≤ a := by
    have hsplit : (2 : ℚ) ^ ((a.num.natAbs.log2 : ℤ) - a.den.log2 - 1) =
        2 ^ (a.num.natAbs.log2 : ℤ) / 2 ^ ((a.den.log2 : ℤ) + 1) := by
      rw [← zpow_sub₀ two_ne_zero]
      congr 1
      ring
    calc (2 : ℚ) ^ ((a.num.natAbs.log2 : ℤ) - a.den.log2 - 1)
        = 2 ^ (a.num.natAbs.log2 : ℤ) / 2 ^ ((a.den.log2 : ℤ) + 1) := hsplit
      _ ≤ a.num.natAbs / a.den := by gcongr
      _ = a := hvalue.symm
  have hhigh : a < (2 : ℚ) ^ ((a.num.natAbs.log2 : ℤ) - a.den.log2 + 1) := by
    have hsplit : (2 : ℚ) ^ ((a.num.natAbs.log2 : ℤ) - a.den.log2 + 1) =
        2 ^ ((a.num.natAbs.log2 : ℤ) + 1) / 2 ^ (a.den.log2 : ℤ) := by
      rw [← zpow_sub₀ two_ne_zero]
      congr 1
      ring
    calc a = a.num.natAbs / a.den := hvalue
      _ < 2 ^ ((a.num.natAbs.log2 : ℤ) + 1) / 2 ^ (a.den.log2 : ℤ) := by gcongr
      _ = (2 : ℚ) ^ ((a.num.natAbs.log2 : ℤ) - a.den.log2 + 1) := hsplit.symm
  simp only [binaryExponent]
  split
  next hbelow => exact ⟨hlow, by rwa [sub_add_cancel]⟩
  next habove => exact ⟨not_lt.mp habove, hhigh⟩

theorem binaryExponent_mono {b : ℚ} (ha : 0 < a) (h : a ≤ b) :
    binaryExponent a ≤ binaryExponent b := by
  have hpow : (2 : ℚ) ^ binaryExponent a < 2 ^ (binaryExponent b + 1) :=
    calc (2 : ℚ) ^ binaryExponent a ≤ a := (binaryExponent_spec ha).1
      _ ≤ b := h
      _ < 2 ^ (binaryExponent b + 1) := (binaryExponent_spec (ha.trans_le h)).2
  exact Int.lt_add_one_iff.mp ((zpow_lt_zpow_iff_right₀ one_lt_two).mp hpow)

/-! ## The rounded magnitude -/

/-- The exponent a magnitude is rounded at. -/
def roundingExponent (a : ℚ) : ℤ :=
  max (binaryExponent a) (-1022)

/-- A magnitude of 53 significant bits. -/
def roundedMagnitude (a : ℚ) : ℚ :=
  roundTiesToEven (a / 2 ^ (roundingExponent a - 52)) * 2 ^ (roundingExponent a - 52)

theorem roundedMagnitude_nonneg (ha : 0 ≤ a) : 0 ≤ roundedMagnitude a := by
  have hunits : 0 ≤ a / 2 ^ (roundingExponent a - 52) := by positivity
  have hround : 0 ≤ roundTiesToEven (a / 2 ^ (roundingExponent a - 52)) :=
    (Int.floor_nonneg.mpr hunits).trans (floor_le_roundTiesToEven _)
  have hcast : (0 : ℚ) ≤ roundTiesToEven (a / 2 ^ (roundingExponent a - 52)) := by
    exact_mod_cast hround
  rw [roundedMagnitude]
  positivity

theorem two_zpow_natCast_add (n : ℕ) (e : ℤ) :
    (2 : ℚ) ^ ((n : ℤ) + e) = ((2 ^ n : ℤ) : ℚ) * 2 ^ e := by
  rw [zpow_add₀ two_ne_zero, zpow_natCast, Int.cast_pow, Int.cast_ofNat]

/-- Rounding does not leave the binade upwards. -/
theorem roundedMagnitude_le (ha : 0 < a) : roundedMagnitude a ≤ 2 ^ (roundingExponent a + 1) := by
  have hulp : (0 : ℚ) < 2 ^ (roundingExponent a - 52) := by positivity
  have hexponent : binaryExponent a + 1 ≤ roundingExponent a + 1 := by
    rw [roundingExponent]
    omega
  have hbits : (2 : ℚ) ^ (roundingExponent a + 1) =
      ((2 ^ 53 : ℤ) : ℚ) * 2 ^ (roundingExponent a - 52) := by
    rw [← two_zpow_natCast_add]
    congr 1
    omega
  have hunits : a / 2 ^ (roundingExponent a - 52) ≤ ((2 ^ 53 : ℤ) : ℚ) := by
    rw [div_le_iff₀ hulp, ← hbits]
    exact (binaryExponent_spec ha).2.le.trans (zpow_le_zpow_right₀ one_le_two hexponent)
  have hround := roundTiesToEven_mono hunits
  rw [roundTiesToEven_intCast] at hround
  rw [hbits, roundedMagnitude]
  gcongr

/-- Nor downwards. -/
theorem le_roundedMagnitude (h : (2 : ℚ) ^ roundingExponent a ≤ a) :
    2 ^ roundingExponent a ≤ roundedMagnitude a := by
  have hulp : (0 : ℚ) < 2 ^ (roundingExponent a - 52) := by positivity
  have hbits : (2 : ℚ) ^ roundingExponent a =
      ((2 ^ 52 : ℤ) : ℚ) * 2 ^ (roundingExponent a - 52) := by
    rw [← two_zpow_natCast_add]
    congr 1
    omega
  have hunits : ((2 ^ 52 : ℤ) : ℚ) ≤ a / 2 ^ (roundingExponent a - 52) := by
    rwa [le_div_iff₀ hulp, ← hbits]
  have hround := roundTiesToEven_mono hunits
  rw [roundTiesToEven_intCast] at hround
  rw [hbits, roundedMagnitude]
  gcongr

theorem roundedMagnitude_mono {b : ℚ} (ha : 0 < a) (h : a ≤ b) :
    roundedMagnitude a ≤ roundedMagnitude b := by
  have hexponents : roundingExponent a ≤ roundingExponent b := by
    have := binaryExponent_mono ha h
    rw [roundingExponent, roundingExponent]
    omega
  obtain hsame | hlt := hexponents.eq_or_lt
  · have hround := @roundTiesToEven_mono (a / 2 ^ (roundingExponent b - 52))
      (b / 2 ^ (roundingExponent b - 52)) (by gcongr)
    rw [roundedMagnitude, roundedMagnitude, hsame]
    gcongr
  · have hexponent : roundingExponent b = binaryExponent b := by
      rw [roundingExponent] at hlt ⊢
      rw [roundingExponent] at hlt
      omega
    have hbinade : (2 : ℚ) ^ roundingExponent b ≤ b := by
      rw [hexponent]
      exact (binaryExponent_spec (ha.trans_le h)).1
    calc roundedMagnitude a ≤ 2 ^ (roundingExponent a + 1) := roundedMagnitude_le ha
      _ ≤ 2 ^ roundingExponent b := zpow_le_zpow_right₀ one_le_two hlt
      _ ≤ roundedMagnitude b := le_roundedMagnitude hbinade

/-! ## The rounding -/

theorem nearestEven_eq (q : ℚ) :
    nearestEven q =
      if roundedMagnitude |q| = 0 then if q < 0 then negZero else finite 0
      else if (2 : ℚ) ^ (1024 : Nat) ≤ roundedMagnitude |q| then if q < 0 then negInf else posInf
      else if q < 0 then finite (-roundedMagnitude |q|) else finite (roundedMagnitude |q|) :=
  rfl

/-- A magnitude, infinite from the bound of the finite doubles on. -/
def extendedMagnitude (m : ℚ) : WithTop ℚ :=
  if (2 : ℚ) ^ (1024 : Nat) ≤ m then ⊤ else m

theorem extendedMagnitude_mono {m n : ℚ} (h : m ≤ n) :
    extendedMagnitude m ≤ extendedMagnitude n := by
  rw [extendedMagnitude, extendedMagnitude]
  split
  next hm => rw [if_pos (hm.trans h)]
  next hm =>
    split
    · exact le_top
    · exact WithTop.coe_le_coe.mpr h

theorem zero_le_extendedMagnitude {m : ℚ} (h : 0 ≤ m) : ((0 : ℚ) : WithTop ℚ) ≤ extendedMagnitude m := by
  rw [extendedMagnitude]
  split
  · exact le_top
  · exact WithTop.coe_le_coe.mpr h

theorem toExtended_nearestEven_of_pos (h : 0 < q) :
    (nearestEven q).toExtended = (extendedMagnitude (roundedMagnitude q) : WithBot (WithTop ℚ)) := by
  rw [nearestEven_eq, abs_of_pos h, extendedMagnitude]
  simp only [if_neg h.not_gt]
  split
  next hzero =>
    have hbound : ¬ (2 : ℚ) ^ (1024 : Nat) ≤ 0 := not_le.mpr (by positivity)
    rw [hzero, if_neg hbound]
    rfl
  next => split <;> rfl

theorem toExtended_nearestEven_of_neg (h : q < 0) :
    (nearestEven q).toExtended =
      if (2 : ℚ) ^ (1024 : Nat) ≤ roundedMagnitude (-q) then (⊥ : WithBot (WithTop ℚ))
      else ((-roundedMagnitude (-q) : ℚ) : WithTop ℚ) := by
  rw [nearestEven_eq, abs_of_neg h]
  simp only [if_pos h]
  split
  next hzero =>
    have hbound : ¬ (2 : ℚ) ^ (1024 : Nat) ≤ 0 := not_le.mpr (by positivity)
    rw [hzero, if_neg hbound, neg_zero]
    rfl
  next => split <;> rfl

/-- A negative result does not stand above zero. -/
theorem toExtended_nearestEven_nonpos (h : q < 0) :
    (nearestEven q).toExtended ≤ ((0 : ℚ) : WithTop ℚ) := by
  rw [toExtended_nearestEven_of_neg h]
  split
  · exact bot_le
  · have := roundedMagnitude_nonneg (neg_nonneg.mpr h.le)
    exact WithBot.coe_le_coe.mpr (WithTop.coe_le_coe.mpr (neg_nonpos.mpr this))

theorem toExtended_nearestEven_nonneg (h : 0 < q) :
    ((0 : ℚ) : WithTop ℚ) ≤ (nearestEven q).toExtended := by
  rw [toExtended_nearestEven_of_pos h]
  exact WithBot.coe_le_coe.mpr (zero_le_extendedMagnitude (roundedMagnitude_nonneg h.le))

theorem toExtended_nearestEven_mono_of_neg {p : ℚ} (hq : q < 0) (h : p ≤ q) :
    (nearestEven p).toExtended ≤ (nearestEven q).toExtended := by
  have hmagnitudes := roundedMagnitude_mono (neg_pos.mpr hq) (neg_le_neg h)
  rw [toExtended_nearestEven_of_neg (h.trans_lt hq), toExtended_nearestEven_of_neg hq]
  split
  next => exact bot_le
  next hp =>
    rw [if_neg (fun hq => hp (hq.trans hmagnitudes))]
    exact WithBot.coe_le_coe.mpr (WithTop.coe_le_coe.mpr (neg_le_neg hmagnitudes))

/-- Rounding to nearest keeps the order. -/
theorem monotoneRounding_nearestEven : MonotoneRounding where
  isNaN q := by
    rw [ofRat]
    split
    · rfl
    · show (nearestEven q).isNaN = false
      rw [nearestEven_eq]
      split_ifs <;> rfl
  le {p q} h := by
    have hround : ∀ q : ℚ, q ≠ 0 → ofRat q = nearestEven q := fun q hq => if_neg hq
    obtain hp | rfl | hp := lt_trichotomy p 0
    · rw [hround p hp.ne]
      obtain hq | rfl | hq := lt_trichotomy q 0
      · rw [hround q hq.ne]
        exact toExtended_nearestEven_mono_of_neg hq h
      · exact toExtended_nearestEven_nonpos hp
      · rw [hround q hq.ne']
        exact (toExtended_nearestEven_nonpos hp).trans (toExtended_nearestEven_nonneg hq)
    · obtain rfl | hq := h.eq_or_lt
      · exact le_rfl
      · rw [hround q hq.ne']
        exact toExtended_nearestEven_nonneg hq
    · have hq := hp.trans_le h
      rw [hround p hp.ne', hround q hq.ne', toExtended_nearestEven_of_pos hp,
        toExtended_nearestEven_of_pos hq]
      exact WithBot.coe_le_coe.mpr (extendedMagnitude_mono (roundedMagnitude_mono hp h))

/-! ## Integers beside a double -/

/-- A power of two is a double. -/
theorem roundedMagnitude_two_pow (p : ℕ) : roundedMagnitude (2 ^ p) = 2 ^ p := by
  have hexponent : roundingExponent (2 ^ p) = p := by
    have hbinary : binaryExponent (2 ^ p) = p := by
      have hpow := binaryExponent_natCast (n := 2 ^ p) (by positivity)
      rwa [Nat.cast_pow, Nat.cast_ofNat, Nat.log2_two_pow] at hpow
    rw [roundingExponent, hbinary]
    omega
  have hulp : (2 : ℚ) ^ ((p : ℤ) - 52) ≠ 0 := by positivity
  have hbits : (2 : ℚ) ^ p = ((2 ^ 52 : ℤ) : ℚ) * 2 ^ ((p : ℤ) - 52) := by
    rw [← two_zpow_natCast_add, ← zpow_natCast]
    congr 1
    omega
  rw [roundedMagnitude, hexponent, hbits, mul_div_cancel_right₀ _ hulp, roundTiesToEven_intCast]

theorem nearestEven_two_pow_53 : nearestEven (2 ^ 53) = finite (2 ^ 53) := by
  have hsmall : ¬ (2 : ℚ) ^ (1024 : ℕ) ≤ 2 ^ 53 := by
    rw [not_le]
    exact pow_lt_pow_right₀ one_lt_two (by decide)
  have hpos : (0 : ℚ) < 2 ^ 53 := by positivity
  rw [nearestEven_eq, abs_of_nonneg hpos.le, roundedMagnitude_two_pow, if_neg hpos.ne',
    if_neg hsmall, if_neg (not_lt.mpr hpos.le)]

/-- Rounding is odd, where it does not reach a zero. -/
theorem nearestEven_neg {r : ℚ} (hq : 0 < q) (hr : r ≠ 0) (h : nearestEven q = finite r) :
    nearestEven (-q) = finite (-r) := by
  rw [nearestEven_eq, if_neg (not_lt.mpr hq.le), if_neg (not_lt.mpr hq.le),
    if_neg (not_lt.mpr hq.le)] at h
  rw [nearestEven_eq, abs_neg, if_pos (neg_neg_of_pos hq), if_pos (neg_neg_of_pos hq),
    if_pos (neg_neg_of_pos hq)]
  split at h
  · exact absurd (finite.inj h).symm hr
  · split at h
    · cases h
    next hzero hsmall => rw [if_neg hzero, if_neg hsmall, finite.inj h]

theorem ofInt_neg_natCast {m : ℕ} (hbits : m < 2 ^ 53) : ofInt (-m) = finite (-m) := by
  by_cases hm : m = 0
  · subst hm
    rfl
  · have hcast : (m : ℚ) ≠ 0 := by exact_mod_cast hm
    have hneg : ((-(m : ℤ) : ℤ) : ℚ) = -m := by push_cast; rfl
    rw [ofInt, hneg, ofRat, if_neg (neg_ne_zero.mpr hcast)]
    apply nearestEven_neg
    · exact_mod_cast Nat.pos_of_ne_zero hm
    · exact hcast
    · exact nearestEven_natCast hm hbits

theorem ofInt_of_natAbs_lt (hbits : n.natAbs < 2 ^ 53) : ofInt n = finite n := by
  generalize hm : n.natAbs = m at hbits
  obtain rfl | rfl := Int.natAbs_eq_iff.mp hm
  · rw [ofInt_natCast hbits, Int.cast_natCast]
  · rw [ofInt_neg_natCast hbits, Int.cast_neg, Int.cast_natCast]

theorem ofInt_of_natAbs_le (hbits : n.natAbs ≤ 2 ^ 53) : ofInt n = finite n := by
  obtain hlt | heq := lt_or_eq_of_le hbits
  · exact ofInt_of_natAbs_lt hlt
  · obtain rfl | rfl := Int.natAbs_eq_iff.mp heq <;> decide +kernel

/-- A sum of integers up to `2 ^ 53` is exact. -/
theorem hasValue_add {a b : Double} (ha : a.HasValue m) (hb : b.HasValue n)
    (hbits : (m + n).natAbs ≤ 2 ^ 53) : (a.add b).HasValue (m + n : ℤ) := by
  have hsum : (ofRat (a.toRat + b.toRat)).HasValue (m + n : ℤ) := by
    have hexact := ofInt_of_natAbs_le hbits
    rw [ofInt, Int.cast_add] at hexact
    rw [ha.2, hb.2, hexact, Int.cast_add]
    exact ⟨rfl, rfl⟩
  obtain ⟨hafinite, ha⟩ := ha
  obtain ⟨hbfinite, hb⟩ := hb
  cases a <;> cases b <;> first | contradiction | exact hsum | skip
  -- Two negative zeros.
  refine ⟨rfl, ?_⟩
  rw [Int.cast_add, ← ha, ← hb]
  exact (add_zero (0 : ℚ)).symm

theorem hasValue_sub {a b : Double} (ha : a.HasValue m) (hb : b.HasValue n)
    (hbits : (m - n).natAbs ≤ 2 ^ 53) : (a.sub b).HasValue (m - n : ℤ) := by
  have hneg : b.neg.HasValue (-n : ℤ) := by
    rw [Int.cast_neg]
    exact hb.neg
  rw [Int.sub_eq_add_neg] at hbits ⊢
  exact hasValue_add ha hneg hbits

theorem trunc_of_hasValue {a : Double} (ha : a.HasValue m) : a.trunc = m := by
  rw [Double.trunc, ha.2, Rat.num_intCast, Rat.den_intCast, Nat.cast_one, Int.tdiv_one]

/-- An integer that is rounded stands to a double of smaller magnitude than `2 ^ 53` as it is. -/
theorem compare_ofInt {d : Double} (hd : d.isFinite = true) (hlow : -2 ^ 53 < d.toRat)
    (hhigh : d.toRat < 2 ^ 53) (n : ℤ) :
    (ofInt n).lt d = (finite n).lt d ∧ d.lt (ofInt n) = d.lt (finite n) ∧
      (ofInt n).eq d = (finite n).eq d := by
  by_cases hbits : n.natAbs < 2 ^ 53
  · rw [ofInt_of_natAbs_lt hbits]
    exact ⟨rfl, rfl, rfl⟩
  · have hn : (ofInt n).isNaN = false := monotoneRounding_nearestEven.isNaN n
    have hfinite : (finite (n : ℚ)).isNaN = false := rfl
    have hnan := isNaN_eq_false_of_isFinite hd
    have hplace := toExtended_of_isFinite hd
    have hbound : ofRat (2 ^ 53) = finite (2 ^ 53) := by
      rw [ofRat, if_neg (by positivity)]
      exact nearestEven_two_pow_53
    have hboundNeg : ofRat (-2 ^ 53) = finite (-2 ^ 53) := by
      rw [ofRat, if_neg (neg_ne_zero.mpr (by positivity))]
      exact nearestEven_neg (by positivity) (by positivity) nearestEven_two_pow_53
    -- Both the integer and its rounding stand past the bound, on one side of it.
    have hsides : (d.toExtended < (ofInt n).toExtended ∧ d.toExtended < (finite n).toExtended) ∨
        ((ofInt n).toExtended < d.toExtended ∧ (finite n).toExtended < d.toExtended) := by
      have hcases : 2 ^ 53 ≤ n ∨ n ≤ -2 ^ 53 := by omega
      obtain h | h := hcases
      · left
        have hbelow : d.toExtended < (finite (2 ^ 53)).toExtended := by
          rw [hplace]
          exact WithBot.coe_lt_coe.mpr (WithTop.coe_lt_coe.mpr hhigh)
        have hcast : (2 ^ 53 : ℚ) ≤ n := by exact_mod_cast h
        refine ⟨hbelow.trans_le ?_, hbelow.trans_le ?_⟩
        · rw [← hbound]
          exact monotoneRounding_nearestEven.le hcast
        · exact WithBot.coe_le_coe.mpr (WithTop.coe_le_coe.mpr hcast)
      · right
        have habove : (finite (-2 ^ 53)).toExtended < d.toExtended := by
          rw [hplace]
          exact WithBot.coe_lt_coe.mpr (WithTop.coe_lt_coe.mpr hlow)
        have hcast : (n : ℚ) ≤ -2 ^ 53 := by exact_mod_cast h
        refine ⟨lt_of_le_of_lt ?_ habove, lt_of_le_of_lt ?_ habove⟩
        · rw [← hboundNeg]
          exact monotoneRounding_nearestEven.le hcast
        · exact WithBot.coe_le_coe.mpr (WithTop.coe_le_coe.mpr hcast)
    refine ⟨?_, ?_, ?_⟩
    · rw [Bool.eq_iff_iff, lt_iff_toExtended hn hnan, lt_iff_toExtended hfinite hnan]
      obtain ⟨hround, hexact⟩ | ⟨hround, hexact⟩ := hsides
      · exact iff_of_false hround.not_gt hexact.not_gt
      · exact iff_of_true hround hexact
    · rw [Bool.eq_iff_iff, lt_iff_toExtended hnan hn, lt_iff_toExtended hnan hfinite]
      obtain ⟨hround, hexact⟩ | ⟨hround, hexact⟩ := hsides
      · exact iff_of_true hround hexact
      · exact iff_of_false hround.not_gt hexact.not_gt
    · rw [Bool.eq_iff_iff, eq_iff_toExtended hn hnan, eq_iff_toExtended hfinite hnan]
      obtain ⟨hround, hexact⟩ | ⟨hround, hexact⟩ := hsides
      · exact iff_of_false hround.ne' hexact.ne'
      · exact iff_of_false hround.ne hexact.ne

end Double
