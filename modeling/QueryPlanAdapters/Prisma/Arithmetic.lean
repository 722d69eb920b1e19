import QueryPlanAdapters.Prisma.Fields
import QueryPlanAdapters.Prisma.SolveMonotone
import QueryPlanAdapters.Numeric.NearestEven

/-!
# Prisma: arithmetic on a column

A comparison of `column ⊕ constant` with a value is solved for the column. The column's
side is a non-decreasing function of the column, or of its negation where the arithmetic
reverses the order, and the doubles that satisfy the comparison are an interval. What is
no number breaks this: a bisection for `<` and `<=` takes a test that fails for a NaN as
one that is satisfied from the other side, and the product of an infinity and zero is one.
-/

namespace QueryPlanAdapters.Prisma

open Double

section Solving

variable [Double.Rounding]

/-- Whether the arithmetic reverses the order of the column. -/
def isDecreasing (arithOp : PlanOperator) (fieldIsLeft : Bool) (c : Double) : Bool :=
  (arithOp = .sub && !fieldIsLeft) || ((arithOp = .mult || arithOp = .div) && c.lt 0)

/-- The column's side, as a function of the column or of its negation. -/
def columnSide (arithOp : PlanOperator) (fieldIsLeft : Bool) (c y : Double) : Double :=
  match arithOp with
  | .add => y.add c
  | .sub => if fieldIsLeft then y.sub c else c.add y
  | .mult => if isDecreasing arithOp fieldIsLeft c then y.mul c.neg else y.mul c
  | _ => if isDecreasing arithOp fieldIsLeft c then y.div c.neg else y.div c

def isArithmetic (arithOp : PlanOperator) : Bool :=
  arithOp = .add || arithOp = .sub || arithOp = .mult || arithOp = .div

/-- The interval of the doubles at which `column ⊕ c` compares with `v`, for `!=` of those at
which it is equal. -/
def solveArithmetic (operator : ComparisonOperator) (arithOp : PlanOperator) (fieldIsLeft : Bool)
    (c v : Double) : Except Refusal DoubleInterval :=
  if arithOp = .mult && c.eq 0 then
    unsupported "Multiplication by a constant zero must be folded by the Cerbos planner"
  else if arithOp = .div && !fieldIsLeft then
    unsupported ("Division by a column is not supported: the comparison cannot be solved to a " ++
      "plain column filter")
  else if arithOp = .div && c.eq 0 then
    unsupported "Division by a constant zero is not supported"
  else if !isArithmetic arithOp then unsupported ("Unsupported operator: " ++ arithOp.name)
  else
    let solved := solveMonotone (columnSide arithOp fieldIsLeft c)
      (if operator = .ne then .eq else operator) v
    .ok (if isDecreasing arithOp fieldIsLeft c then negateInterval solved else solved)

/-! ## The value of the arithmetic -/

def applyArithmetic (arithOp : PlanOperator) (a b : Double) : Double :=
  match arithOp with
  | .add => a.add b
  | .sub => a.sub b
  | .mult => a.mul b
  | _ => a.div b

/-- The value of `column ⊕ c`, or of `c ⊕ column`. -/
def arithmeticValue (arithOp : PlanOperator) (fieldIsLeft : Bool) (c x : Double) : Double :=
  if fieldIsLeft then applyArithmetic arithOp x c else applyArithmetic arithOp c x

/-- Whether the filter of a solved comparison selects a column value. -/
def selects (operator : ComparisonOperator) (interval : DoubleInterval) (x : Double) : Bool :=
  if operator = .ne then !interval.contains x else interval.contains x

/-- The argument of the column's side. -/
def sideArgument (arithOp : PlanOperator) (fieldIsLeft : Bool) (c x : Double) : Double :=
  if isDecreasing arithOp fieldIsLeft c then x.neg else x

omit [Double.Rounding] in
theorem isArithmetic_cases {arithOp : PlanOperator} (h : isArithmetic arithOp = true) :
    arithOp = .add ∨ arithOp = .sub ∨ arithOp = .mult ∨ arithOp = .div := by
  simpa [isArithmetic, or_assoc] using h

/-- The column's side is the arithmetic. -/
theorem columnSide_sideArgument {arithOp : PlanOperator} {fieldIsLeft : Bool} (c x : Double)
    (harith : isArithmetic arithOp = true) (hdiv : (arithOp = .div && !fieldIsLeft) = false) :
    columnSide arithOp fieldIsLeft c (sideArgument arithOp fieldIsLeft c x) =
      arithmeticValue arithOp fieldIsLeft c x := by
  have hproduct : arithmeticValue .mult fieldIsLeft c x = x.mul c := by
    cases fieldIsLeft with
    | true => rfl
    | false => exact Double.mul_comm c x
  obtain rfl | rfl | rfl | rfl := isArithmetic_cases harith
  · cases fieldIsLeft with
    | true => rfl
    | false => exact Double.add_comm x c
  · cases fieldIsLeft <;> rfl
  · rw [hproduct, columnSide, sideArgument]
    split
    · exact Double.neg_mul_neg x c
    · rfl
  · obtain rfl : fieldIsLeft = true := by simpa using hdiv
    show columnSide .div true c (sideArgument .div true c x) = x.div c
    rw [columnSide, sideArgument]
    · split
      · exact Double.neg_div_neg x c
      · rfl
    all_goals intro h; cases h

omit [Double.Rounding] in
/-- A finite constant other than zero, or its negation, is positive. -/
theorem toRat_pos_of_lt {c : Double} (hfinite : c.isFinite = true) (hzero : c.eq 0 = false) :
    if c.lt 0 then 0 < c.neg.toRat else 0 < c.toRat := by
  have hnonzero : c.toRat ≠ 0 := by
    rw [eq_of_isFinite hfinite rfl] at hzero
    exact of_decide_eq_false hzero
  rw [lt_of_isFinite hfinite rfl, toRat_neg]
  split
  next h => exact neg_pos.mpr (of_decide_eq_true h)
  next h => exact lt_of_le_of_ne (not_lt.mp (fun hlt => h (decide_eq_true hlt))) hnonzero.symm

/-- Arithmetic without a NaN that multiplies by no infinity is monotone on the column's side. -/
theorem monotone_columnSide (hrounding : MonotoneRounding) {arithOp : PlanOperator}
    {fieldIsLeft : Bool} {c : Double} (hc : c.isNaN = false)
    (harith : isArithmetic arithOp = true)
    (hzero : arithOp = .mult ∨ arithOp = .div → c.eq 0 = false)
    (hinfinite : arithOp = .mult → c.isInfinite = false) :
    MonotoneOnFinite (columnSide arithOp fieldIsLeft c) := by
  have hfiniteOr : c.isInfinite = false → c.isFinite = true := by
    intro h
    cases c <;> first | rfl | contradiction
  obtain rfl | rfl | rfl | rfl := isArithmetic_cases harith
  · exact monotone_add hrounding hc
  · cases fieldIsLeft with
    | true => exact monotone_add hrounding ((isNaN_neg c).trans hc)
    | false =>
        have hside : columnSide .sub false c = (·.add c) := funext fun y => Double.add_comm c y
        rw [hside]
        exact monotone_add hrounding hc
  · have hfinite := hfiniteOr (hinfinite rfl)
    have hpos := toRat_pos_of_lt hfinite (hzero (.inl rfl))
    have hside : columnSide .mult fieldIsLeft c =
        fun y => if c.lt 0 then y.mul c.neg else y.mul c := by
      funext y
      simp [columnSide, isDecreasing]
    rw [hside]
    split at hpos
    next h => simpa only [h, if_true] using
        monotone_mul hrounding ((isFinite_neg c).trans hfinite) hpos
    next h => simpa only [h, Bool.false_eq_true, if_false] using monotone_mul hrounding hfinite hpos
  · have hside : columnSide .div fieldIsLeft c =
        fun y => if c.lt 0 then y.div c.neg else y.div c := by
      funext y
      simp [columnSide, isDecreasing]
    rw [hside]
    cases hinf : c.isInfinite with
    | true =>
        have hneg : c.neg.isInfinite = true := (isInfinite_neg c).trans hinf
        split
        · exact monotone_div_infinite hneg
        · exact monotone_div_infinite hinf
    | false =>
        have hfinite := hfiniteOr hinf
        have hpos := toRat_pos_of_lt hfinite (hzero (.inr rfl))
        split at hpos
        next h => simpa only [h, if_true] using
            monotone_div hrounding ((isFinite_neg c).trans hfinite) hpos
        next h =>
          simpa only [h, Bool.false_eq_true, if_false] using monotone_div hrounding hfinite hpos

/-- A column's side with a NaN is one. -/
theorem columnSide_nan {arithOp : PlanOperator} {fieldIsLeft : Bool} {c : Double}
    (harith : isArithmetic arithOp = true) (hc : c.isNaN = true) (y : Double) :
    columnSide arithOp fieldIsLeft c y = nan := by
  obtain rfl : c = nan := by
    cases c <;> first | rfl | contradiction
  obtain rfl | rfl | rfl | rfl := isArithmetic_cases harith <;> cases fieldIsLeft <;>
    cases y <;> rfl

/-- The product of a column with an infinity, the column negated where the infinity is. -/
theorem columnSide_infinite {fieldIsLeft : Bool} {c y : Double} (hc : c.isInfinite = true)
    (hy : y.isFinite = true) :
    columnSide .mult fieldIsLeft c y =
      if y.toRat < 0 then negInf else if y.toRat = 0 then nan else posInf := by
  have hproduct : columnSide .mult fieldIsLeft c y = y.mul posInf := by
    cases c <;> first | contradiction | rfl
  rw [hproduct]
  cases y with
  | finite q =>
      rcases lt_trichotomy q 0 with hneg | rfl | hpos
      · simp [mul, isNaN, isInfinite, isZero, isFinite, toRat, signed, signBit, neg, hneg, hneg.ne]
      · simp [mul, isNaN, isInfinite, isZero, isFinite, toRat]
      · simp [mul, isNaN, isInfinite, isZero, isFinite, toRat, signed, signBit, hpos.ne',
          hpos.not_gt]
  | negZero => rfl
  | _ => cases hy

/-! ## When the solution is exact -/

omit [Double.Rounding] in
/-- What the bisections need to decide a comparison of a function of the column. -/
structure DecidedByKeys (f : Double → Double) (operator : ComparisonOperator) (v : Double) :
    Prop where
  upwardsAtLeast : operator ≠ .gt → HoldsUpwards fun y => v.le (f y)
  upwardsAbove : HoldsUpwards fun y => v.lt (f y)
  zeros {y z : Double} (hy : y.isFinite = true) (hz : z.isFinite = true)
    (h : y.toRat = z.toRat) : v.le (f y) = v.le (f z) ∧ v.lt (f y) = v.lt (f z)
  numbers {y : Double} (hy : y.isFinite = true) :
    operator = .lt ∨ operator = .le → (f y).isNaN = false ∧ v.isNaN = false

section Decided

variable {f : Double → Double} {operator : ComparisonOperator} {v : Double}

omit [Double.Rounding] in
theorem DecidedByKeys.contains (h : DecidedByKeys f operator v) {y : Double} {key : Int}
    (hlow : minKey ≤ key) (hhigh : key ≤ maxKey) (hy : y.HasValue (keyRat key)) :
    (solveMonotone f operator v).contains y =
      ComparisonOperator.test (f y) v (if operator = .ne then .eq else operator) := by
  have hkey := hasValue_fromKey hlow hhigh
  obtain ⟨hle, hlt⟩ := h.zeros hkey.1 hy.1 (hkey.2.trans hy.2.symm)
  rw [contains_solveMonotone_of_upwards h.upwardsAtLeast h.upwardsAbove hlow hhigh hy, hle, hlt]
  exact decidedBy_eq_test (h.numbers hy.1)

omit [Double.Rounding] in
theorem decidedByKeys_of_monotone (hf : MonotoneOnFinite f) (hv : v.isNaN = false) :
    DecidedByKeys f operator v where
  upwardsAtLeast _ := atLeast_upwards hf hv
  upwardsAbove := above_upwards hf hv
  zeros {y z} hy hz h := by
    have hplace : (f y).toExtended = (f z).toExtended :=
      le_antisymm (hf.le hy hz h.le) (hf.le hz hy h.ge)
    constructor
    · rw [Bool.eq_iff_iff, le_iff_toExtended hv (hf.isNaN hy),
        le_iff_toExtended hv (hf.isNaN hz), hplace]
    · rw [Bool.eq_iff_iff, lt_iff_toExtended hv (hf.isNaN hy),
        lt_iff_toExtended hv (hf.isNaN hz), hplace]
  numbers hy _ := ⟨hf.isNaN hy, hv⟩

omit [Double.Rounding] in
/-- A comparison with a NaN is never satisfied, which `<` and `<=` alone read as always. -/
theorem decidedByKeys_of_isNaN (hnan : ∀ y, v.isNaN = true ∨ (f y).isNaN = true)
    (hoperator : ¬ (operator = .lt ∨ operator = .le)) : DecidedByKeys f operator v := by
  have hle : ∀ y, v.le (f y) = false := fun y => le_eq_false_of_isNaN (hnan y)
  have hlt : ∀ y, v.lt (f y) = false := fun y => lt_eq_false_of_isNaN (hnan y)
  refine ⟨fun _ a b _ _ _ h => ?_, fun a b _ _ _ h => ?_, fun _ _ _ => ?_, fun _ h => ?_⟩
  · exact absurd ((hle _).symm.trans h) Bool.false_ne_true
  · exact absurd ((hlt _).symm.trans h) Bool.false_ne_true
  · rw [hle, hle, hlt, hlt]
    exact ⟨rfl, rfl⟩
  · exact absurd h hoperator

/-- The product with an infinity is above a value at the positive doubles alone. -/
theorem decidedByKeys_of_infinite {fieldIsLeft : Bool} {c : Double} (hc : c.isInfinite = true)
    (hoperator : ¬ (operator = .lt ∨ operator = .le)) (hv : operator ≠ .gt → v ≠ negInf) :
    DecidedByKeys (columnSide .mult fieldIsLeft c) operator v := by
  have hpositive : ∀ {y : Double}, y.isFinite = true → 0 < y.toRat →
      columnSide .mult fieldIsLeft c y = posInf := by
    intro y hy hpos
    rw [columnSide_infinite hc hy, if_neg hpos.not_gt, if_neg hpos.ne']
  have hle : operator ≠ .gt → ∀ {y : Double}, y.isFinite = true →
      v.le (columnSide .mult fieldIsLeft c y) = true → 0 < y.toRat := by
    intro hgt y hy h
    rw [columnSide_infinite hc hy] at h
    rcases lt_trichotomy y.toRat 0 with hneg | hzero | hpos
    · rw [if_pos hneg] at h
      have hleast : v = negInf := by
        cases v <;> first | rfl | contradiction
      exact absurd hleast (hv hgt)
    · rw [if_neg (by simp [hzero]), if_pos hzero, le_eq_false_of_isNaN (.inr rfl)] at h
      cases h
    · exact hpos
  have hlt : ∀ {y : Double}, y.isFinite = true →
      v.lt (columnSide .mult fieldIsLeft c y) = true → 0 < y.toRat := by
    intro y hy h
    rw [columnSide_infinite hc hy] at h
    rcases lt_trichotomy y.toRat 0 with hneg | hzero | hpos
    · rw [if_pos hneg] at h
      cases v <;> contradiction
    · rw [if_neg (by simp [hzero]), if_pos hzero, lt_eq_false_of_isNaN (.inr rfl)] at h
      cases h
    · exact hpos
  have hstays : ∀ {a b : Int}, minKey ≤ a → a ≤ b → b ≤ maxKey → 0 < (fromKey a).toRat →
      columnSide .mult fieldIsLeft c (fromKey b) = columnSide .mult fieldIsLeft c (fromKey a) := by
    intro a b ha hab hb hpos
    obtain ⟨hfa, hra⟩ := hasValue_fromKey ha (hab.trans hb)
    obtain ⟨hfb, hrb⟩ := hasValue_fromKey (ha.trans hab) hb
    have hposb : 0 < (fromKey b).toRat := by
      rw [hrb]
      exact (hra ▸ hpos).trans_le (keyRat_strictMono.monotone hab)
    rw [hpositive hfa hpos, hpositive hfb hposb]
  refine ⟨fun hgt a b ha hab hb h => ?_, fun a b ha hab hb h => ?_, fun hy hz h => ?_,
    fun _ h => absurd h hoperator⟩
  · have hpos := hle hgt (isFinite_fromKey ha (hab.trans hb)) h
    exact (congrArg v.le (hstays ha hab hb hpos)).trans h
  · have hpos := hlt (isFinite_fromKey ha (hab.trans hb)) h
    exact (congrArg v.lt (hstays ha hab hb hpos)).trans h
  · rw [columnSide_infinite hc hy, columnSide_infinite hc hz, h]
    exact ⟨rfl, rfl⟩

end Decided

omit [Double.Rounding] in
/-- The comparisons whose solution is exact: `<` and `<=` between numbers, unless the column is
multiplied by an infinity; `>` always; the others, unless such a product is compared with
negative infinity. -/
def SolvedExactly (operator : ComparisonOperator) (arithOp : PlanOperator) (c v : Double) : Prop :=
  match operator with
  | .lt | .le =>
      c.isNaN = false ∧ v.isNaN = false ∧ ¬ (arithOp = .mult ∧ c.isInfinite = true)
  | .gt => True
  | .ge | .eq | .ne => ¬ (arithOp = .mult ∧ c.isInfinite = true ∧ v = negInf)

section Exactness

variable {operator : ComparisonOperator} {arithOp : PlanOperator} {fieldIsLeft : Bool}
variable {c v : Double}

omit [Double.Rounding] in
theorem solvedExactly_below (h : operator = .lt ∨ operator = .le) :
    SolvedExactly operator arithOp c v ↔
      c.isNaN = false ∧ v.isNaN = false ∧ ¬ (arithOp = .mult ∧ c.isInfinite = true) := by
  obtain rfl | rfl := h <;> exact Iff.rfl

omit [Double.Rounding] in
theorem solvedExactly_not_below (h : ¬ (operator = .lt ∨ operator = .le)) :
    SolvedExactly operator arithOp c v ↔
      (operator ≠ .gt → ¬ (arithOp = .mult ∧ c.isInfinite = true ∧ v = negInf)) := by
  cases operator with
  | lt => exact absurd (.inl rfl) h
  | le => exact absurd (.inr rfl) h
  | gt => exact iff_of_true trivial (fun h => absurd rfl h)
  | _ => exact ⟨fun h _ => h, fun h => h ComparisonOperator.noConfusion⟩

/-- What is accepted is arithmetic whose bisections are read on the column's side. -/
theorem solveArithmetic_ok {interval : DoubleInterval}
    (h : solveArithmetic operator arithOp fieldIsLeft c v = .ok interval) :
    isArithmetic arithOp = true ∧ (arithOp = .div && !fieldIsLeft) = false ∧
      (arithOp = .mult ∨ arithOp = .div → c.eq 0 = false) ∧
      ∀ x, interval.contains x =
        (solveMonotone (columnSide arithOp fieldIsLeft c)
          (if operator = .ne then .eq else operator) v).contains
            (sideArgument arithOp fieldIsLeft c x) := by
  rw [solveArithmetic] at h
  split at h
  · cases h
  next hmult =>
    split at h
    · cases h
    next hcolumn =>
      split at h
      · cases h
      next hdiv =>
        split at h
        · cases h
        next harith =>
          obtain rfl := Except.ok.inj h
          refine ⟨by simpa using harith, Bool.not_eq_true _ ▸ hcolumn, ?_, fun x => ?_⟩
          · rintro (rfl | rfl)
            · simpa using hmult
            · simpa using hdiv
          · rw [sideArgument]
            split
            · exact contains_negateInterval x _
            · rfl

omit [Double.Rounding] in
/-- A filter selects by what its interval contains. -/
theorem selects_of_contains {interval : DoubleInterval} {x y : Double}
    (h : interval.contains x =
      ComparisonOperator.test y v (if operator = .ne then .eq else operator)) :
    selects operator interval x = ComparisonOperator.test y v operator := by
  by_cases hne : operator = .ne
  · subst hne
    exact congrArg Bool.not h
  · rw [if_neg hne] at h
    rw [selects, if_neg hne, h]

omit [Double.Rounding] in
/-- The argument of the column's side has the column's key or its negation. -/
theorem hasValue_sideArgument {x : Double} {key : Int} (hx : x.HasValue (keyRat key)) :
    (sideArgument arithOp fieldIsLeft c x).HasValue
      (keyRat (if isDecreasing arithOp fieldIsLeft c then -key else key)) := by
  rw [sideArgument]
  split
  · rw [keyRat_neg]
    exact hx.neg
  · exact hx

omit [Double.Rounding] in
theorem exists_sideArgument {key : Int} (hlow : minKey ≤ key) (hhigh : key ≤ maxKey) :
    ∃ x, IsStored x ∧ (sideArgument arithOp fieldIsLeft c x).HasValue (keyRat key) := by
  have hnegLow : minKey ≤ -key := by rw [minKey] at *; omega
  have hnegHigh : -key ≤ maxKey := by rw [minKey] at *; omega
  cases hdecreasing : isDecreasing arithOp fieldIsLeft c with
  | true =>
      refine ⟨fromKey (-key), .inr ⟨-key, hnegLow, hnegHigh, rfl⟩, ?_⟩
      simpa [hdecreasing] using @hasValue_sideArgument arithOp fieldIsLeft c _ _
        (hasValue_fromKey hnegLow hnegHigh)
  | false =>
      refine ⟨fromKey key, .inr ⟨key, hlow, hhigh, rfl⟩, ?_⟩
      simpa [hdecreasing] using @hasValue_sideArgument arithOp fieldIsLeft c _ _
        (hasValue_fromKey hlow hhigh)

/-- Where the condition holds, the bisections decide the comparison. -/
theorem decidedByKeys_columnSide (hrounding : MonotoneRounding)
    (harith : isArithmetic arithOp = true)
    (hzero : arithOp = .mult ∨ arithOp = .div → c.eq 0 = false)
    (h : SolvedExactly operator arithOp c v) :
    DecidedByKeys (columnSide arithOp fieldIsLeft c) operator v := by
  by_cases hproduct : arithOp = .mult ∧ c.isInfinite = true
  · obtain ⟨rfl, hinfinite⟩ := hproduct
    have hoperator : ¬ (operator = .lt ∨ operator = .le) :=
      fun hbelow => ((solvedExactly_below hbelow).mp h).2.2 ⟨rfl, hinfinite⟩
    exact decidedByKeys_of_infinite hinfinite hoperator fun hgt hv =>
      (solvedExactly_not_below hoperator).mp h hgt ⟨rfl, hinfinite, hv⟩
  · by_cases hnan : c.isNaN = true ∨ v.isNaN = true
    · apply decidedByKeys_of_isNaN
      · intro y
        obtain hc | hv := hnan
        · exact .inr (congrArg Double.isNaN (columnSide_nan harith hc y))
        · exact .inl hv
      · intro hbelow
        obtain ⟨hc, hv, -⟩ := (solvedExactly_below hbelow).mp h
        simp [hc, hv] at hnan
    · obtain ⟨hc, hv⟩ := not_or.mp hnan
      refine decidedByKeys_of_monotone ?_ (Bool.not_eq_true _ ▸ hv)
      exact monotone_columnSide hrounding (Bool.not_eq_true _ ▸ hc) harith hzero
        fun hmult => Bool.not_eq_true _ ▸ fun hinfinite => hproduct ⟨hmult, hinfinite⟩

omit [Double.Rounding] in
/-- Where a zero gives no number, or the value is none, `<` and `<=` select the zero. -/
theorem contains_zero_of_isNaN {f : Double → Double} {y : Double}
    (hnan : v.isNaN = true ∨ (f (fromKey 0)).isNaN = true) (hy : y.HasValue (keyRat 0))
    (hbelow : operator = .lt ∨ operator = .le) :
    (solveMonotone f operator v).contains y = true := by
  rw [contains_solveMonotone f v operator (by decide) (by decide) hy,
    @leastKey_above_zero (fun y => v.le (f y)) 0 (le_eq_false_of_isNaN hnan) le_rfl,
    @leastKey_above_zero (fun y => v.lt (f y)) 0 (lt_eq_false_of_isNaN hnan) le_rfl]
  obtain rfl | rfl := hbelow <;> rfl

/-- Below zero, the product with an infinity is negative infinity, and is not found to be it. -/
theorem contains_negative_of_infinite (hinfinite : c.isInfinite = true)
    (hoperator : operator = .ge ∨ operator = .eq) {y : Double} (hy : y.HasValue (keyRat (-1))) :
    (solveMonotone (columnSide .mult fieldIsLeft c) operator negInf).contains y = false ∧
      columnSide .mult fieldIsLeft c y = negInf := by
  have hzero : (fromKey 0).HasValue (keyRat 0) := hasValue_fromKey (by decide) (by decide)
  have hnan : (columnSide .mult fieldIsLeft c (fromKey 0)).isNaN = true := by
    rw [columnSide_infinite hinfinite hzero.1, hzero.2, keyRat_zero]
    rfl
  have hneg : y.toRat < 0 := by
    rw [hy.2, ← keyRat_zero]
    exact keyRat_strictMono (by decide)
  constructor
  · rw [contains_solveMonotone _ _ operator (by decide) (by decide) hy,
      @leastKey_above_zero (fun y => negInf.le (columnSide .mult fieldIsLeft c y)) (-1)
        (le_eq_false_of_isNaN (.inr hnan)) (by decide)]
    obtain rfl | rfl := hoperator <;> rfl
  · rw [columnSide_infinite hinfinite hy.1, if_pos hneg]

/-- The interval that a comparison of `column ⊕ constant` with a value is solved for has just the
doubles that satisfy it, under the condition above and no other. -/
theorem solveArithmetic_exact_iff (hrounding : MonotoneRounding) {interval : DoubleInterval}
    (h : solveArithmetic operator arithOp fieldIsLeft c v = .ok interval) :
    (∀ x, IsStored x → selects operator interval x =
        ComparisonOperator.test (arithmeticValue arithOp fieldIsLeft c x) v operator) ↔
      SolvedExactly operator arithOp c v := by
  obtain ⟨harith, hdiv, hzero, hcontains⟩ := solveArithmetic_ok h
  have hside := fun x => columnSide_sideArgument c x harith hdiv
  constructor
  · intro hexact
    by_cases hbelow : operator = .lt ∨ operator = .le
    · rw [solvedExactly_below hbelow]
      by_contra hcondition
      -- At zero, the comparison has an operand that is no number.
      obtain ⟨x, hx, hkey⟩ := @exists_sideArgument arithOp fieldIsLeft c 0 (by decide) (by decide)
      have hnan : ∀ y : Double, y.HasValue (keyRat 0) →
          v.isNaN = true ∨ (columnSide arithOp fieldIsLeft c y).isNaN = true := by
        intro y hy
        by_contra hnumbers
        obtain ⟨hv, hy'⟩ := not_or.mp hnumbers
        refine hcondition ⟨?_, Bool.not_eq_true _ ▸ hv, ?_⟩
        · rw [← Bool.not_eq_true]
          exact fun hc => hy' (congrArg Double.isNaN (columnSide_nan harith hc y))
        · rintro ⟨rfl, hinfinite⟩
          apply hy'
          rw [columnSide_infinite hinfinite hy.1, hy.2, keyRat_zero]
          rfl
      have hne : operator ≠ .ne := by
        rintro rfl
        simp at hbelow
      have hselected := hexact x hx
      rw [selects, if_neg hne, hcontains, if_neg hne, contains_zero_of_isNaN
        (hnan _ (hasValue_fromKey (by decide) (by decide))) hkey hbelow, ← hside x] at hselected
      obtain rfl | rfl := hbelow
      · rw [ComparisonOperator.test, lt_eq_false_of_isNaN (hnan _ hkey).symm] at hselected
        cases hselected
      · rw [ComparisonOperator.test, le_eq_false_of_isNaN (hnan _ hkey).symm] at hselected
        cases hselected
    · rw [solvedExactly_not_below hbelow]
      rintro hgt ⟨rfl, hinfinite, rfl⟩
      obtain ⟨x, hx, hkey⟩ := @exists_sideArgument .mult fieldIsLeft c (-1) (by decide) (by decide)
      have hoperator : operator = .ge ∨ operator = .eq ∨ operator = .ne := by
        cases operator <;> simp_all
      have hsolved : (if operator = .ne then .eq else operator) = ComparisonOperator.ge ∨
          (if operator = .ne then .eq else operator) = ComparisonOperator.eq := by
        obtain rfl | rfl | rfl := hoperator
        · exact .inl rfl
        all_goals exact .inr rfl
      obtain ⟨hmissed, hvalue⟩ := contains_negative_of_infinite hinfinite hsolved hkey
      have hselected := hexact x hx
      rw [selects, hcontains, hmissed, ← hside x, hvalue] at hselected
      obtain rfl | rfl | rfl := hoperator <;> cases hselected
  · intro hcondition x hx
    obtain ⟨key, hlow, hhigh, hkey⟩ := hx.exists_key
    have hdecided : DecidedByKeys (columnSide arithOp fieldIsLeft c) operator v :=
      decidedByKeys_columnSide hrounding harith hzero hcondition
    apply selects_of_contains
    rw [hcontains, ← hside, solveMonotone_equality]
    apply hdecided.contains _ _ (hasValue_sideArgument hkey)
    all_goals
      rw [minKey] at *
      split <;> omega

end Exactness

end Solving

theorem solveArithmetic_exact_iff_sum :
    (∀ x, IsStored x → selects .lt (solveMonotone (columnSide .add true 1) .lt 3) x =
        ComparisonOperator.test (arithmeticValue .add true 1 x) 3 .lt) ↔
      SolvedExactly .lt .add 1 3 :=
  solveArithmetic_exact_iff monotoneRounding_nearestEven
    (show solveArithmetic .lt .add true 1 3 =
      .ok (solveMonotone (columnSide .add true 1) .lt 3) from rfl)

/-- `x + 1 < 0 / 0` is solved for every double. -/
theorem solveArithmetic_selects_nan :
    ∃ interval, solveArithmetic .lt .add true 1 (Double.div 0 0) = .ok interval ∧ IsStored 0 ∧
      selects .lt interval 0 = true ∧
        ComparisonOperator.test (arithmeticValue .add true 1 0) (Double.div 0 0) .lt = false := by
  refine ⟨solveMonotone (columnSide .add true 1) .lt (Double.div 0 0), rfl, ?_, ?_, ?_⟩
  · exact .inr ⟨0, by decide, by decide, by decide +kernel⟩
  · have hzero : (0 : Double).HasValue (keyRat 0) := ⟨rfl, keyRat_zero.symm⟩
    have hnan : (Double.div 0 0).isNaN = true := rfl
    exact @contains_zero_of_isNaN _ _ (columnSide .add true 1) 0 (.inl hnan) hzero (.inl rfl)
  · exact lt_eq_false_of_isNaN (.inr rfl)

end QueryPlanAdapters.Prisma
