import QueryPlanAdapters.Cel.Value
import QueryPlanAdapters.Numeric.DoubleKeys
import QueryPlanAdapters.Numeric.Order
import QueryPlanAdapters.Numeric.Search

/-!
# Prisma: solving for a column

The doubles at which a function of the column compares with a value, as an interval of
finite doubles. Its ends are found by a bisection over the keys, once for the doubles at
which the function is at least the value and once for those at which it is greater. Of
tests that hold upwards, the interval is that of the two thresholds.
-/

namespace QueryPlanAdapters.Prisma

open Double

/-- The inclusive bounds of an interval of finite doubles, none where a side is unbounded. -/
inductive DoubleInterval where
  | empty
  | bounds (lo hi : Option Double)

/-- The least key whose double satisfies the test. -/
def leastKey (holds : Double → Bool) : Option Int :=
  if !holds (fromKey maxKey) then none
  else some (searchLeast (fun key => holds (fromKey key)) minKey maxKey)

/-- A bound, on the key it is on; one on the last key of its side bounds nothing. -/
def keyBound (last : Int) : Option Int → Option Double
  | none => none
  | some key => if key = last then none else some (fromKey key)

/-- The doubles between two keys. -/
def keyInterval (lo hi : Option Int) : DoubleInterval :=
  match lo, hi with
  | some l, some h =>
      if h < l then .empty else .bounds (keyBound minKey (some l)) (keyBound maxKey (some h))
  | lo, hi => .bounds (keyBound minKey lo) (keyBound maxKey hi)

/-- The key before a threshold, the last one when there is none. -/
def below (key : Option Int) : Int :=
  key.elim maxKey (· - 1)

/-- The doubles `x` with `f(x) CMP v`, for `f` non-decreasing over the finite doubles. -/
def solveMonotone (f : Double → Double) (operator : ComparisonOperator) (v : Double) :
    DoubleInterval :=
  let atLeast := leastKey fun x => ComparisonOperator.ge.test (f x) v
  let above := leastKey fun x => ComparisonOperator.gt.test (f x) v
  match operator with
  | .ge => if atLeast = none then .empty else keyInterval atLeast none
  | .gt => if above = none then .empty else keyInterval above none
  | .le => if above = some minKey then .empty else keyInterval none (some (below above))
  | .lt => if atLeast = some minKey then .empty else keyInterval none (some (below atLeast))
  -- `!=` is never asked for: its filter is the negation of that of `==`.
  | .eq | .ne => if atLeast = none then .empty else keyInterval atLeast (some (below above))

theorem solveMonotone_equality (f : Double → Double) (operator : ComparisonOperator) (v : Double) :
    solveMonotone f (if operator = .ne then .eq else operator) v = solveMonotone f operator v := by
  by_cases h : operator = .ne
  · subst h
    rfl
  · rw [if_neg h]

/-- The interval of `-x` for `x` in an interval. -/
def negateInterval : DoubleInterval → DoubleInterval
  | .empty => .empty
  | .bounds lo hi => .bounds (hi.map neg) (lo.map neg)

def DoubleInterval.contains (x : Double) : DoubleInterval → Bool
  | .empty => false
  | .bounds lo hi => (lo.all fun lo => lo.le x) && hi.all fun hi => x.le hi

/-! ## Thresholds -/

/-- A test that holds upwards from any key it holds on. -/
def HoldsUpwards (holds : Double → Bool) : Prop :=
  ∀ a b, minKey ≤ a → a ≤ b → b ≤ maxKey → holds (fromKey a) = true → holds (fromKey b) = true

section Threshold

variable {holds : Double → Bool} {key : Int}

/-- A least key is one of a finite double. -/
theorem leastKey_range (h : leastKey holds = some key) : minKey ≤ key ∧ key ≤ maxKey := by
  rw [leastKey] at h
  split at h
  · cases h
  next hmax =>
    obtain rfl := Option.some_inj.mp h
    obtain ⟨hlow, hhigh, -, -⟩ := @isEdge_searchLeast (fun key => holds (fromKey key))
      minKey maxKey minKey_le_maxKey (by simpa using hmax)
    exact ⟨hlow, hhigh⟩

/-- A test that holds upwards holds from the least key on. -/
theorem holds_iff_leastKey (hup : HoldsUpwards holds) (hlow : minKey ≤ key) (hhigh : key ≤ maxKey) :
    holds (fromKey key) = (leastKey holds).any (· ≤ key) := by
  rw [leastKey, Bool.eq_iff_iff]
  split
  next hmax =>
    refine iff_of_false (fun h => ?_) (by simp)
    rw [hup key maxKey hlow hhigh le_rfl h] at hmax
    cases hmax
  next hmax =>
    rw [Option.any_some, decide_eq_true_eq]
    exact @holds_iff_searchLeast_le (fun key => holds (fromKey key)) minKey maxKey minKey_le_maxKey
      (by simpa using hmax) hup key hlow hhigh

/-- A test that fails at zero, where the bisection begins, has no threshold up to zero. -/
theorem leastKey_above_zero (hzero : holds (fromKey 0) = false) (hkey : key ≤ 0) :
    (leastKey holds).any (· ≤ key) = false := by
  rw [leastKey]
  split
  · rfl
  next hmax =>
    have hmiddle : minKey + (maxKey - minKey).tdiv 2 = 0 := by decide
    have hsearch : searchLeast (fun key => holds (fromKey key)) minKey maxKey =
        searchLeast (fun key => holds (fromKey key)) (0 + 1) maxKey := by
      rw [searchLeast, if_pos (by decide)]
      show (if holds (fromKey (minKey + (maxKey - minKey).tdiv 2)) = true then _ else _) = _
      rw [hmiddle, hzero]
      rfl
    have hedge := @isEdge_searchLeast (fun key => holds (fromKey key)) (0 + 1) maxKey (by decide)
      (by simpa using hmax)
    have hlow := hedge.low_le
    rw [hsearch, Option.any_some, decide_eq_false_iff_not]
    omega

end Threshold

/-! ## What an interval contains -/

section Contains

variable {x : Double} {key : Int}

/-- Finite doubles stand in the order of their keys. -/
theorem fromKey_le_iff (hx : x.HasValue (keyRat key)) {lo : Int} (hlow : minKey ≤ lo)
    (hhigh : lo ≤ maxKey) : (fromKey lo).le x = decide (lo ≤ key) := by
  rw [le_of_hasValue (hasValue_fromKey hlow hhigh) hx, decide_eq_decide]
  exact keyRat_strictMono.le_iff_le

theorem le_fromKey_iff (hx : x.HasValue (keyRat key)) {hi : Int} (hlow : minKey ≤ hi)
    (hhigh : hi ≤ maxKey) : x.le (fromKey hi) = decide (key ≤ hi) := by
  rw [le_of_hasValue hx (hasValue_fromKey hlow hhigh), decide_eq_decide]
  exact keyRat_strictMono.le_iff_le

theorem lowerBound_contains (hx : x.HasValue (keyRat key)) (hlow : minKey ≤ key) {lo : Option Int}
    (hlo : ∀ l ∈ lo, minKey ≤ l ∧ l ≤ maxKey) :
    (keyBound minKey lo).all (·.le x) = lo.all (· ≤ key) := by
  cases lo with
  | none => rfl
  | some l =>
      obtain ⟨hmin, hmax⟩ := hlo l rfl
      rw [keyBound]
      split
      next h => simp [h, hlow]
      next h => exact fromKey_le_iff hx hmin hmax

theorem upperBound_contains (hx : x.HasValue (keyRat key)) (hhigh : key ≤ maxKey) {hi : Option Int}
    (hhi : ∀ h ∈ hi, minKey ≤ h ∧ h ≤ maxKey) :
    (keyBound maxKey hi).all (x.le ·) = hi.all (key ≤ ·) := by
  cases hi with
  | none => rfl
  | some h =>
      obtain ⟨hmin, hmax⟩ := hhi h rfl
      rw [keyBound]
      split
      next hlast => simp [hlast, hhigh]
      next hlast => exact le_fromKey_iff hx hmin hmax

/-- A finite double lies between two keys as its own key does. -/
theorem contains_keyInterval (hx : x.HasValue (keyRat key)) (hlow : minKey ≤ key)
    (hhigh : key ≤ maxKey) {lo hi : Option Int} (hlo : ∀ l ∈ lo, minKey ≤ l ∧ l ≤ maxKey)
    (hhi : ∀ h ∈ hi, h ≤ maxKey ∧ (minKey ≤ h ∨ ∃ l ∈ lo, h < l)) :
    (keyInterval lo hi).contains x = (lo.all (· ≤ key) && hi.all (key ≤ ·)) := by
  by_cases hempty : ∃ l ∈ lo, ∃ h ∈ hi, h < l
  · obtain ⟨l, rfl, h, rfl, hlt⟩ := hempty
    have hnone : ¬ (l ≤ key ∧ key ≤ h) := by omega
    rw [keyInterval, if_pos hlt, DoubleInterval.contains, Option.all_some, Option.all_some]
    simpa [← Bool.decide_and] using hnone
  · have hbounds : keyInterval lo hi = .bounds (keyBound minKey lo) (keyBound maxKey hi) := by
      cases lo with
      | none => rfl
      | some l =>
          cases hi with
          | none => rfl
          | some h => exact if_neg fun hlt => hempty ⟨l, rfl, h, rfl, hlt⟩
    have hrange : ∀ h ∈ hi, minKey ≤ h ∧ h ≤ maxKey := by
      intro h hh
      obtain ⟨hmax, hmin | ⟨l, hl, hlt⟩⟩ := hhi h hh
      · exact ⟨hmin, hmax⟩
      · exact absurd ⟨l, hl, h, hh, hlt⟩ hempty
    rw [hbounds, DoubleInterval.contains, lowerBound_contains hx hlow hlo,
      upperBound_contains hx hhigh hrange]

/-- A comparison, from whether the value of the function is at least or above the other one. -/
def decidedBy (operator : ComparisonOperator) (isAtLeast isAbove : Bool) : Bool :=
  match operator with
  | .ge => isAtLeast
  | .gt => isAbove
  | .le => !isAbove
  | .lt => !isAtLeast
  | .eq | .ne => isAtLeast && !isAbove

theorem le_below_iff (hhigh : key ≤ maxKey) (threshold : Option Int) :
    decide (key ≤ below threshold) = !threshold.any (· ≤ key) := by
  cases threshold with
  | none => simp [below, hhigh]
  | some a =>
      have hbefore : key ≤ below (some a) ↔ ¬ a ≤ key := by
        show key ≤ a - 1 ↔ ¬ a ≤ key
        omega
      rw [Option.any_some, ← decide_not, decide_eq_decide, hbefore]

/-- The keys below a threshold. -/
theorem contains_below (hx : x.HasValue (keyRat key)) (hlow : minKey ≤ key)
    (hhigh : key ≤ maxKey) {threshold : Option Int}
    (hrange : ∀ l ∈ threshold, minKey ≤ l ∧ l ≤ maxKey) :
    (if threshold = some minKey then DoubleInterval.empty
      else keyInterval none (some (below threshold))).contains x =
      !threshold.any (· ≤ key) := by
  split
  next hfirst => simp [hfirst, DoubleInterval.contains, hlow]
  next hfirst =>
    rw [contains_keyInterval hx hlow hhigh (by simp), Option.all_none, Option.all_some,
      Bool.true_and, le_below_iff hhigh]
    rintro h ⟨⟩
    cases threshold with
    | none => exact ⟨le_rfl, .inl minKey_le_maxKey⟩
    | some a =>
        obtain ⟨hmin, hmax⟩ := hrange a rfl
        have hne : a ≠ minKey := fun h => hfirst (congrArg some h)
        exact ⟨by simp only [below, Option.elim_some]; omega,
          .inl (by simp only [below, Option.elim_some]; omega)⟩

theorem contains_from (hx : x.HasValue (keyRat key)) (hlow : minKey ≤ key)
    (hhigh : key ≤ maxKey) {threshold : Option Int}
    (hrange : ∀ l ∈ threshold, minKey ≤ l ∧ l ≤ maxKey) :
    (if threshold = none then DoubleInterval.empty else keyInterval threshold none).contains x =
      threshold.any (· ≤ key) := by
  cases threshold with
  | none => rfl
  | some l =>
      rw [if_neg (Option.some_ne_none l), contains_keyInterval hx hlow hhigh hrange (by simp),
        Option.all_none, Bool.and_true, Option.all_some, Option.any_some]

theorem contains_between (hx : x.HasValue (keyRat key)) (hlow : minKey ≤ key)
    (hhigh : key ≤ maxKey) {atLeast above : Option Int}
    (hatLeast : ∀ l ∈ atLeast, minKey ≤ l ∧ l ≤ maxKey)
    (habove : ∀ l ∈ above, minKey ≤ l ∧ l ≤ maxKey) :
    (if atLeast = none then DoubleInterval.empty
      else keyInterval atLeast (some (below above))).contains x =
      (atLeast.any (· ≤ key) && !above.any (· ≤ key)) := by
  cases atLeast with
  | none => rfl
  | some l =>
      rw [if_neg (Option.some_ne_none l), contains_keyInterval hx hlow hhigh hatLeast,
        Option.all_some, Option.all_some, Option.any_some, le_below_iff hhigh]
      rintro h ⟨⟩
      cases above with
      | none => exact ⟨le_rfl, .inl minKey_le_maxKey⟩
      | some a =>
          obtain ⟨hmin, hmax⟩ := habove a rfl
          have hl := (hatLeast l rfl).1
          simp only [below, Option.elim_some]
          refine ⟨by omega, ?_⟩
          by_cases hfirst : a = minKey
          · exact .inr ⟨l, rfl, by omega⟩
          · exact .inl (by omega)

/-- The interval has the doubles that the two thresholds say. -/
theorem contains_solveMonotone (f : Double → Double) (v : Double) (operator : ComparisonOperator)
    (hlow : minKey ≤ key) (hhigh : key ≤ maxKey) (hx : x.HasValue (keyRat key)) :
    (solveMonotone f operator v).contains x =
      decidedBy operator ((leastKey fun x => v.le (f x)).any (· ≤ key))
        ((leastKey fun x => v.lt (f x)).any (· ≤ key)) := by
  have hatLeast : ∀ l ∈ leastKey fun x => v.le (f x), minKey ≤ l ∧ l ≤ maxKey :=
    fun l hl => leastKey_range hl
  have habove : ∀ l ∈ leastKey fun x => v.lt (f x), minKey ≤ l ∧ l ≤ maxKey :=
    fun l hl => leastKey_range hl
  cases operator with
  | ge => exact contains_from hx hlow hhigh hatLeast
  | gt => exact contains_from hx hlow hhigh habove
  | le => exact contains_below hx hlow hhigh habove
  | lt => exact contains_below hx hlow hhigh hatLeast
  | eq => exact contains_between hx hlow hhigh hatLeast habove
  | ne => exact contains_between hx hlow hhigh hatLeast habove

/-- Of tests that hold upwards, the interval has the doubles that satisfy them. That of `>` needs
no other. -/
theorem contains_solveMonotone_of_upwards {f : Double → Double} {v : Double}
    {operator : ComparisonOperator}
    (hatLeast : operator ≠ .gt → HoldsUpwards fun x => v.le (f x))
    (habove : HoldsUpwards fun x => v.lt (f x)) (hlow : minKey ≤ key) (hhigh : key ≤ maxKey)
    (hx : x.HasValue (keyRat key)) :
    (solveMonotone f operator v).contains x =
      decidedBy operator (v.le (f (fromKey key))) (v.lt (f (fromKey key))) := by
  rw [contains_solveMonotone f v operator hlow hhigh hx,
    ← holds_iff_leastKey habove hlow hhigh]
  by_cases hgt : operator = .gt
  · subst hgt
    rfl
  · rw [← holds_iff_leastKey (hatLeast hgt) hlow hhigh]

end Contains

/-! ## Negation -/

theorem contains_negateInterval (x : Double) (interval : DoubleInterval) :
    (negateInterval interval).contains x = interval.contains x.neg := by
  cases interval with
  | empty => rfl
  | bounds lo hi =>
      have hlo : (lo.map neg).all (x.le ·) = lo.all (·.le x.neg) := by
        cases lo with
        | none => rfl
        | some l => exact le_neg_comm x l
      have hhi : (hi.map neg).all (·.le x) = hi.all (x.neg.le ·) := by
        cases hi with
        | none => rfl
        | some h => exact neg_le_comm h x
      rw [negateInterval, DoubleInterval.contains, DoubleInterval.contains, hlo, hhi,
        Bool.and_comm]

/-! ## Monotone functions -/

section Monotone

variable {f : Double → Double} {v : Double}

theorem isFinite_fromKey {key : Int} (hlow : minKey ≤ key) (hhigh : key ≤ maxKey) :
    (fromKey key).isFinite = true :=
  (hasValue_fromKey hlow hhigh).1

theorem toExtended_fromKey_mono (hf : MonotoneOnFinite f) {a b : Int} (ha : minKey ≤ a)
    (hab : a ≤ b) (hb : b ≤ maxKey) :
    (f (fromKey a)).toExtended ≤ (f (fromKey b)).toExtended := by
  obtain ⟨hfa, hra⟩ := hasValue_fromKey ha (hab.trans hb)
  obtain ⟨hfb, hrb⟩ := hasValue_fromKey (ha.trans hab) hb
  apply hf.le hfa hfb
  rw [hra, hrb]
  exact keyRat_strictMono.monotone hab

theorem atLeast_upwards (hf : MonotoneOnFinite f) (hv : v.isNaN = false) :
    HoldsUpwards fun x => v.le (f x) := by
  intro a b ha hab hb h
  rw [le_iff_toExtended hv (hf.isNaN (isFinite_fromKey ha (hab.trans hb)))] at h
  rw [le_iff_toExtended hv (hf.isNaN (isFinite_fromKey (ha.trans hab) hb))]
  exact h.trans (toExtended_fromKey_mono hf ha hab hb)

theorem above_upwards (hf : MonotoneOnFinite f) (hv : v.isNaN = false) :
    HoldsUpwards fun x => v.lt (f x) := by
  intro a b ha hab hb h
  rw [lt_iff_toExtended hv (hf.isNaN (isFinite_fromKey ha (hab.trans hb)))] at h
  rw [lt_iff_toExtended hv (hf.isNaN (isFinite_fromKey (ha.trans hab) hb))]
  exact h.trans_le (toExtended_fromKey_mono hf ha hab hb)

/-- The comparison is the one its two thresholds decide, for `<` and `<=` of two numbers. -/
theorem decidedBy_eq_test {y : Double} {operator : ComparisonOperator}
    (hnumbers : operator = .lt ∨ operator = .le → y.isNaN = false ∧ v.isNaN = false) :
    decidedBy operator (v.le y) (v.lt y) =
      ComparisonOperator.test y v (if operator = .ne then .eq else operator) := by
  have heq : y.eq v = (v.le y && !v.lt y) := by
    by_cases hnan : y.isNaN = false ∧ v.isNaN = false
    · obtain ⟨hy, hv⟩ := hnan
      rw [Bool.eq_iff_iff, eq_iff_toExtended hy hv, Bool.and_eq_true, le_iff_toExtended hv hy,
        Bool.not_eq_true', ← Bool.not_eq_true, lt_iff_toExtended hv hy, not_lt, le_antisymm_iff,
        and_comm]
    · have hor : y.isNaN = true ∨ v.isNaN = true := by
        rw [not_and_or] at hnan
        simpa using hnan
      rw [eq_eq_false_of_isNaN hor, le_eq_false_of_isNaN hor.symm, Bool.false_and]
  cases operator with
  | eq => exact heq.symm
  | ne => exact heq.symm
  | lt =>
      obtain ⟨hy, hv⟩ := hnumbers (.inl rfl)
      show (!v.le y) = y.lt v
      rw [Bool.eq_iff_iff, lt_iff_toExtended hy hv, Bool.not_eq_true', ← Bool.not_eq_true,
        le_iff_toExtended hv hy, not_le]
  | le =>
      obtain ⟨hy, hv⟩ := hnumbers (.inr rfl)
      show (!v.lt y) = y.le v
      rw [Bool.eq_iff_iff, le_iff_toExtended hy hv, Bool.not_eq_true', ← Bool.not_eq_true,
        lt_iff_toExtended hv hy, not_lt]
  | gt => rfl
  | ge => rfl

end Monotone

end QueryPlanAdapters.Prisma
