import QueryPlanAdapters.Numeric.Exact
import Mathlib.Order.WithBot

/-!
# The order of the doubles

The doubles other than NaN stand in the order of the rationals with an element at
either end. A rounding is monotone when it keeps that order; then so are, in the
operand that varies over the finite doubles, addition of anything but a NaN and
multiplication and division by a positive number, an infinite divisor included.
-/

namespace Double

/-- The place of a double in the order; a NaN has none. -/
def toExtended : Double → WithBot (WithTop ℚ)
  | finite q => ((q : WithTop ℚ) : WithBot (WithTop ℚ))
  | negZero | nan => ((0 : ℚ) : WithTop ℚ)
  | posInf => ((⊤ : WithTop ℚ) : WithBot (WithTop ℚ))
  | negInf => ⊥

theorem toExtended_of_isFinite {d : Double} (h : d.isFinite = true) :
    d.toExtended = ((d.toRat : WithTop ℚ) : WithBot (WithTop ℚ)) := by
  cases d <;> first | rfl | cases h

section Comparison

variable {a b : Double}

theorem lt_iff_toExtended (ha : a.isNaN = false) (hb : b.isNaN = false) :
    a.lt b = true ↔ a.toExtended < b.toExtended := by
  have hfinite : ∀ p q : ℚ, decide (p < q) = true ↔
      ((p : WithTop ℚ) : WithBot (WithTop ℚ)) < ((q : WithTop ℚ) : WithBot (WithTop ℚ)) := by
    simp
  have htop : ∀ q : ℚ, ((q : WithTop ℚ) : WithBot (WithTop ℚ)) < ((⊤ : WithTop ℚ) : WithBot _) :=
    fun q => WithBot.coe_lt_coe.mpr (WithTop.coe_lt_top q)
  have hbot : ∀ x : WithTop ℚ, (⊥ : WithBot (WithTop ℚ)) < x := WithBot.bot_lt_coe
  cases a <;> cases b <;> first
    | exact hfinite _ _
    | exact iff_of_true rfl (htop _)
    | exact iff_of_true rfl (hbot _)
    | exact iff_of_false Bool.false_ne_true (htop _).not_gt
    | exact iff_of_false Bool.false_ne_true (hbot _).not_gt
    | exact iff_of_false Bool.false_ne_true (lt_irrefl _)
    | contradiction

theorem eq_iff_toExtended (ha : a.isNaN = false) (hb : b.isNaN = false) :
    a.eq b = true ↔ a.toExtended = b.toExtended := by
  have hfinite : ∀ p q : ℚ, decide (p = q) = true ↔
      ((p : WithTop ℚ) : WithBot (WithTop ℚ)) = ((q : WithTop ℚ) : WithBot (WithTop ℚ)) := by
    simp
  have htop : ∀ q : ℚ, ((q : WithTop ℚ) : WithBot (WithTop ℚ)) ≠ ((⊤ : WithTop ℚ) : WithBot _) :=
    fun q => (WithBot.coe_lt_coe.mpr (WithTop.coe_lt_top q)).ne
  have hbot : ∀ x : WithTop ℚ, (⊥ : WithBot (WithTop ℚ)) ≠ x := fun _ => WithBot.bot_ne_coe
  cases a <;> cases b <;> first
    | exact hfinite _ _
    | exact iff_of_true rfl rfl
    | exact iff_of_false Bool.false_ne_true (htop _)
    | exact iff_of_false Bool.false_ne_true (htop _).symm
    | exact iff_of_false Bool.false_ne_true (hbot _)
    | exact iff_of_false Bool.false_ne_true (hbot _).symm
    | contradiction

theorem le_iff_toExtended (ha : a.isNaN = false) (hb : b.isNaN = false) :
    a.le b = true ↔ a.toExtended ≤ b.toExtended := by
  rw [le, Bool.or_eq_true_iff, lt_iff_toExtended ha hb, eq_iff_toExtended ha hb,
    le_iff_lt_or_eq]

/-- No comparison with a NaN holds. -/
theorem lt_eq_false_of_isNaN (h : a.isNaN = true ∨ b.isNaN = true) : a.lt b = false := by
  cases a <;> cases b <;> simp_all [isNaN, lt]

theorem eq_eq_false_of_isNaN (h : a.isNaN = true ∨ b.isNaN = true) : a.eq b = false := by
  cases a <;> cases b <;> simp_all [isNaN, eq]

theorem le_eq_false_of_isNaN (h : a.isNaN = true ∨ b.isNaN = true) : a.le b = false := by
  rw [le, lt_eq_false_of_isNaN h, eq_eq_false_of_isNaN h, Bool.or_self]

end Comparison

/-! ## Negation -/

protected theorem neg_neg (d : Double) : d.neg.neg = d := by
  cases d with
  | finite q =>
      rw [neg]
      split
      next h => rw [h]; rfl
      next h => simp [neg, h]
  | _ => rfl

theorem neg_le_comm (a b : Double) : a.neg.le b = b.neg.le a := by
  by_cases h : a.isFinite = true ∧ b.isFinite = true
  · obtain ⟨ha, hb⟩ := h
    rw [le_of_isFinite ((isFinite_neg a).trans ha) hb,
      le_of_isFinite ((isFinite_neg b).trans hb) ha, toRat_neg, toRat_neg, decide_eq_decide]
    exact neg_le
  · have hneg : ∀ q : ℚ, (finite q).neg = negZero ∨ ∃ r, (finite q).neg = finite r := by
      intro q
      rw [neg]
      split
      · exact .inl rfl
      · exact .inr ⟨-q, rfl⟩
    cases a with
    | finite p =>
        obtain hp | ⟨r, hp⟩ := hneg p <;> rw [hp] <;> cases b <;>
          first | rfl | exact absurd ⟨rfl, rfl⟩ h
    | _ =>
        cases b with
        | finite q =>
            obtain hq | ⟨r, hq⟩ := hneg q <;> rw [hq] <;>
              first | rfl | exact absurd ⟨rfl, rfl⟩ h
        | _ => first | rfl | exact absurd ⟨rfl, rfl⟩ h

theorem le_neg_comm (a b : Double) : a.le b.neg = b.le a.neg := by
  have h := neg_le_comm a.neg b.neg
  rwa [Double.neg_neg, Double.neg_neg] at h

theorem isNaN_neg (d : Double) : d.neg.isNaN = d.isNaN := by
  cases d with
  | finite q => rw [neg]; split <;> rfl
  | _ => rfl

theorem isInfinite_neg (d : Double) : d.neg.isInfinite = d.isInfinite := by
  cases d with
  | finite q => rw [neg]; split <;> rfl
  | _ => rfl

theorem isZero_neg (d : Double) : d.neg.isZero = d.isZero := by
  rw [isZero, isZero, isFinite_neg, toRat_neg]
  simp

theorem signBit_neg {d : Double} (h : d.isNaN = false) : d.neg.signBit = !d.signBit := by
  cases d with
  | finite q =>
      rw [neg]
      split
      next hzero => simp [signBit, hzero]
      next hne => simp [signBit, ← decide_not, le_iff_lt_or_eq, @eq_comm _ 0 q, hne]
  | nan => cases h
  | _ => rfl

theorem signed_neg_neg {a b : Double} (ha : a.isNaN = false) (hb : b.isNaN = false) (d : Double) :
    signed d a.neg b.neg = signed d a b := by
  rw [signed, signed, signBit_neg ha, signBit_neg hb]
  cases a.signBit <;> cases b.signBit <;> rfl

theorem signed_comm (d a b : Double) : signed d a b = signed d b a := by
  rw [signed, signed]
  simp only [@eq_comm _ a.signBit b.signBit]

/-! ## Monotone arithmetic -/

/-- A function of the finite doubles that keeps their order, and gives no NaN. -/
structure MonotoneOnFinite (f : Double → Double) : Prop where
  isNaN {y : Double} (h : y.isFinite = true) : (f y).isNaN = false
  le {y z : Double} (hy : y.isFinite = true) (hz : z.isFinite = true) (h : y.toRat ≤ z.toRat) :
    (f y).toExtended ≤ (f z).toExtended

theorem isNaN_signed {d a b : Double} (h : d.isNaN = false) : (signed d a b).isNaN = false := by
  rw [signed]
  split
  · exact h
  · cases d with
    | finite q =>
        rw [neg]
        split <;> rfl
    | nan => cases h
    | _ => rfl

theorem toExtended_signed_zero (a b : Double) :
    (signed (finite 0) a b).toExtended = (finite 0).toExtended := by
  rw [signed]
  split <;> rfl

section Arithmetic

variable [Rounding]

/-- A rounding that keeps the order of the exact results. -/
structure MonotoneRounding : Prop where
  isNaN (q : ℚ) : (ofRat q).isNaN = false
  le {p q : ℚ} (h : p ≤ q) : (ofRat p).toExtended ≤ (ofRat q).toExtended

@[simp] theorem ofRat_zero : ofRat 0 = finite 0 := rfl

protected theorem add_comm (a b : Double) : a.add b = b.add a := by
  cases a <;> cases b <;> first
    | rfl
    | simp only [add, toRat, add_comm]

protected theorem mul_comm (a b : Double) : a.mul b = b.mul a := by
  simp only [mul, Bool.or_comm a.isNaN, Bool.or_comm a.isInfinite, Bool.or_comm a.isZero,
    signed_comm _ a b, mul_comm a.toRat]

protected theorem neg_mul_neg (a b : Double) : a.neg.mul b.neg = a.mul b := by
  rw [mul, mul, isNaN_neg, isNaN_neg]
  split
  · rfl
  next h =>
    obtain ⟨ha, hb⟩ := Bool.or_eq_false_iff.mp (Bool.not_eq_true _ ▸ h)
    simp only [isInfinite_neg, isZero_neg, signed_neg_neg ha hb, toRat_neg, neg_mul_neg]

protected theorem neg_div_neg (a b : Double) : a.neg.div b.neg = a.div b := by
  rw [div, div, isNaN_neg, isNaN_neg]
  split
  · rfl
  next h =>
    obtain ⟨ha, hb⟩ := Bool.or_eq_false_iff.mp (Bool.not_eq_true _ ▸ h)
    simp only [isInfinite_neg, isZero_neg, signed_neg_neg ha hb, toRat_neg, neg_div_neg_eq]

variable {y c : Double}

/-- The sum of two finite doubles stands where the rounded exact sum does. -/
theorem add_of_isFinite (hy : y.isFinite = true) (hc : c.isFinite = true) :
    (y.add c).isNaN = (ofRat (y.toRat + c.toRat)).isNaN ∧
      (y.add c).toExtended = (ofRat (y.toRat + c.toRat)).toExtended := by
  cases y <;> cases c <;> first
    | contradiction
    | exact ⟨rfl, rfl⟩
    | simp [add, toRat, isNaN, toExtended]

theorem mul_of_isFinite (hy : y.isFinite = true) (hc : c.isFinite = true) :
    (y.mul c).isNaN = (ofRat (y.toRat * c.toRat)).isNaN ∧
      (y.mul c).toExtended = (ofRat (y.toRat * c.toRat)).toExtended := by
  rw [mul, isNaN_eq_false_of_isFinite hy, isNaN_eq_false_of_isFinite hc,
    isInfinite_of_isFinite hy, isInfinite_of_isFinite hc]
  simp only [Bool.or_self, Bool.false_eq_true, if_false]
  split
  next hzero =>
    have hproduct : y.toRat * c.toRat = 0 := by
      rwa [Bool.or_eq_true_iff, isZero_iff hy, isZero_iff hc, ← mul_eq_zero] at hzero
    rw [hproduct, ofRat_zero]
    exact ⟨isNaN_signed rfl, toExtended_signed_zero y c⟩
  next => exact ⟨rfl, rfl⟩

theorem div_of_isFinite (hy : y.isFinite = true) (hc : c.isFinite = true)
    (hnonzero : c.toRat ≠ 0) :
    (y.div c).isNaN = (ofRat (y.toRat / c.toRat)).isNaN ∧
      (y.div c).toExtended = (ofRat (y.toRat / c.toRat)).toExtended := by
  have hdivisor : c.isZero = false := by
    rw [← Bool.not_eq_true, isZero_iff hc]
    exact hnonzero
  rw [div, isNaN_eq_false_of_isFinite hy, isNaN_eq_false_of_isFinite hc,
    isInfinite_of_isFinite hy, isInfinite_of_isFinite hc, hdivisor]
  simp only [Bool.or_self, Bool.false_eq_true, if_false]
  split
  next hzero =>
    have hquotient : y.toRat / c.toRat = 0 := by
      rw [(isZero_iff hy).mp hzero, zero_div]
    rw [hquotient, ofRat_zero]
    exact ⟨isNaN_signed rfl, toExtended_signed_zero y c⟩
  next => exact ⟨rfl, rfl⟩

theorem monotone_add (hrounding : MonotoneRounding) (hc : c.isNaN = false) :
    MonotoneOnFinite (·.add c) := by
  by_cases hfinite : c.isFinite = true
  · refine ⟨fun hy => ?_, fun hy hz h => ?_⟩
    · exact (add_of_isFinite hy hfinite).1.trans (hrounding.isNaN _)
    · rw [(add_of_isFinite hy hfinite).2, (add_of_isFinite hz hfinite).2]
      exact hrounding.le (add_le_add_left h _)
  · -- The sum with an infinity is that infinity.
    have hsum : ∀ y : Double, y.isFinite = true → y.add c = c := by
      intro y hy
      cases c <;> cases y <;> first | rfl | contradiction
    refine ⟨fun hy => ?_, fun hy hz h => ?_⟩
    · exact (congrArg Double.isNaN (hsum _ hy)).trans hc
    · exact (congrArg Double.toExtended ((hsum _ hy).trans (hsum _ hz).symm)).le

theorem monotone_mul (hrounding : MonotoneRounding) (hc : c.isFinite = true)
    (hpos : 0 < c.toRat) : MonotoneOnFinite (·.mul c) := by
  refine ⟨fun hy => ?_, fun hy hz h => ?_⟩
  · exact (mul_of_isFinite hy hc).1.trans (hrounding.isNaN _)
  · rw [(mul_of_isFinite hy hc).2, (mul_of_isFinite hz hc).2]
    exact hrounding.le (mul_le_mul_of_nonneg_right h hpos.le)

theorem monotone_div (hrounding : MonotoneRounding) (hc : c.isFinite = true)
    (hpos : 0 < c.toRat) : MonotoneOnFinite (·.div c) := by
  refine ⟨fun hy => ?_, fun hy hz h => ?_⟩
  · exact (div_of_isFinite hy hc hpos.ne').1.trans (hrounding.isNaN _)
  · rw [(div_of_isFinite hy hc hpos.ne').2, (div_of_isFinite hz hc hpos.ne').2]
    exact hrounding.le (div_le_div_of_nonneg_right h hpos.le)

/-- A finite double over an infinity is a zero. -/
theorem monotone_div_infinite (hc : c.isInfinite = true) : MonotoneOnFinite (·.div c) := by
  have hquotient : ∀ y : Double, y.isFinite = true → y.div c = signed (finite 0) y c := by
    intro y hy
    have hdivisor : c.isNaN = false := by cases c <;> first | rfl | contradiction
    rw [div, isNaN_eq_false_of_isFinite hy, hdivisor, isInfinite_of_isFinite hy, hc]
    rfl
  refine ⟨fun hy => ?_, fun hy hz h => ?_⟩
  · exact (congrArg Double.isNaN (hquotient _ hy)).trans (isNaN_signed rfl)
  · show ((_ : Double).div c).toExtended ≤ _
    rw [hquotient _ hy, hquotient _ hz, toExtended_signed_zero, toExtended_signed_zero]

end Arithmetic

end Double
