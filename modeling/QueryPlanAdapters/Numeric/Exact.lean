import QueryPlanAdapters.Numeric.Double
import Mathlib.Tactic.Ring

/-!
# Arithmetic without rounding

When nothing is rounded, the sum, difference and product of two finite doubles are
finite and have the rational value, and so has the quotient by a nonzero one. Whatever
is not finite stays so under a finite operand. A comparison is blind to a zero's sign.
-/

namespace Double

/-- No exact result is rounded. -/
def Exact [Rounding] : Prop :=
  ∀ q, Rounding.round q = finite q

/-- The rounding that leaves every result as it is. -/
@[reducible] def exactRounding : Rounding :=
  ⟨finite⟩

theorem exact_exactRounding : @Exact exactRounding :=
  fun _ => rfl

/-! ## Signs -/

section Signs

@[simp] theorem isFinite_neg (d : Double) : d.neg.isFinite = d.isFinite := by
  cases d with
  | finite q => rw [neg]; split <;> rfl
  | _ => rfl

theorem toRat_neg (d : Double) : d.neg.toRat = -d.toRat := by
  cases d with
  | finite q =>
      rw [neg]
      split
      next h => rw [h]; rfl
      next => rfl
  | _ => rfl

theorem isZero_iff {d : Double} (h : d.isFinite = true) : d.isZero = true ↔ d.toRat = 0 := by
  rw [isZero, h, Bool.true_and, decide_eq_true_eq]

theorem isInfinite_of_isFinite {d : Double} (h : d.isFinite = true) : d.isInfinite = false := by
  cases d <;> first | rfl | cases h

/-- A zero of either sign. -/
theorem isZero_signed_zero (a b : Double) : (signed (finite 0) a b).isFinite = true ∧
    (signed (finite 0) a b).toRat = 0 := by
  rw [signed]
  split
  · exact ⟨rfl, rfl⟩
  · exact ⟨rfl, rfl⟩

theorem isInfinite_signed (a b : Double) : (signed posInf a b).isInfinite = true := by
  rw [signed]
  split <;> rfl

theorem isFinite_of_isInfinite {d : Double} (h : d.isInfinite = true) : d.isFinite = false := by
  cases d <;> first | rfl | cases h

end Signs

/-! ## Finite results -/

/-- A finite double of this rational value. -/
def HasValue (d : Double) (q : ℚ) : Prop :=
  d.isFinite = true ∧ d.toRat = q

theorem hasValue_toRat {d : Double} (h : d.isFinite = true) : d.HasValue d.toRat :=
  ⟨h, rfl⟩

theorem HasValue.neg {d : Double} {q : ℚ} (h : d.HasValue q) : d.neg.HasValue (-q) :=
  ⟨(isFinite_neg d).trans h.1, by rw [toRat_neg, h.2]⟩

section Arithmetic

variable [Rounding]

theorem hasValue_ofRat (hexact : Exact) (q : ℚ) : (ofRat q).HasValue q := by
  rw [ofRat, hexact]
  split
  next h => rw [h]; exact ⟨rfl, rfl⟩
  next => exact ⟨rfl, rfl⟩

variable {a b : Double} {p q : ℚ}

theorem HasValue.add (hexact : Exact) (ha : a.HasValue p) (hb : b.HasValue q) :
    (a.add b).HasValue (p + q) := by
  obtain ⟨ha, rfl⟩ := ha
  obtain ⟨hb, rfl⟩ := hb
  cases a <;> cases b <;>
    first
    | contradiction
    | exact hasValue_ofRat hexact _
    | exact ⟨rfl, (add_zero (0 : ℚ)).symm⟩

theorem HasValue.sub (hexact : Exact) (ha : a.HasValue p) (hb : b.HasValue q) :
    (a.sub b).HasValue (p - q) := by
  rw [Double.sub, sub_eq_add_neg]
  exact ha.add hexact hb.neg

theorem HasValue.mul (hexact : Exact) (ha : a.HasValue p) (hb : b.HasValue q) :
    (a.mul b).HasValue (p * q) := by
  obtain ⟨ha, rfl⟩ := ha
  obtain ⟨hb, rfl⟩ := hb
  rw [Double.mul, isNaN_eq_false_of_isFinite ha, isNaN_eq_false_of_isFinite hb, isInfinite_of_isFinite ha,
    isInfinite_of_isFinite hb, Bool.or_self, if_neg Bool.false_ne_true, if_neg Bool.false_ne_true]
  split
  next h =>
    have hzero : a.toRat * b.toRat = 0 := by
      rw [Bool.or_eq_true_iff, isZero_iff ha, isZero_iff hb] at h
      exact mul_eq_zero.mpr h
    rw [hzero]
    exact isZero_signed_zero a b
  next => exact hasValue_ofRat hexact _

theorem HasValue.div (hexact : Exact) (ha : a.HasValue p) (hb : b.HasValue q) (hq : q ≠ 0) :
    (a.div b).HasValue (p / q) := by
  obtain ⟨ha, rfl⟩ := ha
  obtain ⟨hb, rfl⟩ := hb
  have hzero : b.isZero = false := by
    rw [← Bool.not_eq_true, isZero_iff hb]
    exact hq
  rw [Double.div, isNaN_eq_false_of_isFinite ha, isNaN_eq_false_of_isFinite hb, isInfinite_of_isFinite ha,
    isInfinite_of_isFinite hb, hzero, Bool.or_self, if_neg Bool.false_ne_true,
    if_neg Bool.false_ne_true, if_neg Bool.false_ne_true, if_neg Bool.false_ne_true]
  split
  next h =>
    rw [(isZero_iff ha).mp h, zero_div]
    exact isZero_signed_zero a b
  next => exact hasValue_ofRat hexact _

/-- A zero divisor gives NaN or an infinity. -/
theorem div_zero (ha : a.isFinite = true) (hb : b.HasValue 0) :
    a.div b = if a.isZero then nan else signed posInf a b := by
  have hzero : b.isZero = true := (isZero_iff hb.1).mpr hb.2
  rw [Double.div, isNaN_eq_false_of_isFinite ha, isNaN_eq_false_of_isFinite hb.1, isInfinite_of_isFinite ha,
    isInfinite_of_isFinite hb.1, hzero, Bool.or_self, if_neg Bool.false_ne_true,
    if_neg Bool.false_ne_true, if_neg Bool.false_ne_true, if_pos rfl]

end Arithmetic

/-! ## Results that are not finite -/

section NonFinite

variable [Rounding] {a b : Double}

theorem isFinite_add_left (ha : a.isFinite = false) (hb : b.isFinite = true) :
    (a.add b).isFinite = false := by
  cases a <;> cases b <;> first | rfl | contradiction

theorem isFinite_add_right (ha : a.isFinite = true) (hb : b.isFinite = false) :
    (a.add b).isFinite = false := by
  cases a <;> cases b <;> first | rfl | contradiction

theorem isFinite_sub_left (ha : a.isFinite = false) (hb : b.isFinite = true) :
    (a.sub b).isFinite = false :=
  isFinite_add_left ha ((isFinite_neg b).trans hb)

theorem isFinite_sub_right (ha : a.isFinite = true) (hb : b.isFinite = false) :
    (a.sub b).isFinite = false :=
  isFinite_add_right ha ((isFinite_neg b).trans hb)

theorem isFinite_mul (h : (a.isFinite && b.isFinite) = false) : (a.mul b).isFinite = false := by
  rw [Double.mul]
  split
  · rfl
  next hnan =>
    have hinfinite : (a.isInfinite || b.isInfinite) = true := by
      cases a <;> cases b <;> first | rfl | simp [isNaN, isFinite] at hnan h
    rw [if_pos hinfinite]
    split
    · rfl
    · exact isFinite_of_isInfinite (isInfinite_signed a b)

end NonFinite

/-! ## Comparisons -/

section Comparisons

variable {a b : Double} {p q : ℚ}

/-- Finite doubles compare by their values. -/
theorem lt_of_hasValue (ha : a.HasValue p) (hb : b.HasValue q) : a.lt b = decide (p < q) := by
  rw [lt_of_isFinite ha.1 hb.1, ha.2, hb.2]

theorem eq_of_hasValue (ha : a.HasValue p) (hb : b.HasValue q) : a.eq b = decide (p = q) := by
  rw [eq_of_isFinite ha.1 hb.1, ha.2, hb.2]

theorem le_of_hasValue (ha : a.HasValue p) (hb : b.HasValue q) : a.le b = decide (p ≤ q) := by
  rw [le_of_isFinite ha.1 hb.1, ha.2, hb.2]

end Comparisons

end Double
