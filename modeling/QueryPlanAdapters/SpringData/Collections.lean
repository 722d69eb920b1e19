import QueryPlanAdapters.SpringData.Leaves
import Mathlib.Tactic.Linarith

/-!
# Spring Data: sizes and macros

A count compared with a threshold is a size compared with the plan's number: a count is
integral, so a fraction is a bound on its whole part. A relation whose parent is absent
has no elements for a subquery and no value for CEL; a guard tells the two apart.
-/

namespace QueryPlanAdapters.SpringData

open Sql

variable {schema : Schema} {engine : Engine} {store : Store schema} {env : store.Env}

/-! ## Thresholds -/

section Thresholds

variable {op : ComparisonOperator} {raw : Double} {n : Nat}

theorem compareInts_some (a b : Int) :
    compareInts op (some a) (some b) = .ofBool (op.test (.finite a) (.finite b)) := rfl

theorem compareInts_none_left (b : Option Int) : compareInts op none b = .unknown := by
  cases b <;> rfl

/-- Numbers on the same side of a third compare alike with it. -/
theorem test_congr {a b c : ℚ} (hlt : a < b ↔ a < c) (hgt : b < a ↔ c < a) :
    op.test (.finite a) (.finite b) = op.test (.finite a) (.finite c) := by
  have heq : a = b ↔ a = c := by
    rw [← not_iff_not, ← ne_eq, ← ne_eq, ne_iff_lt_or_gt, ne_iff_lt_or_gt, hlt, hgt]
  cases op <;> simp only [ComparisonOperator.test, Double.eq_finite, Double.lt_finite,
    Double.le_finite, le_iff_lt_or_eq, hlt, hgt, heq, @eq_comm _ b a, @eq_comm _ c a]

/-- Clamping a number to the longs changes no comparison with a count. -/
theorem test_clamp (hn : (n : Int) < 2 ^ 63 - 1) (z : Int) :
    op.test (.finite n) (.finite (max (-2 ^ 63) (min (2 ^ 63 - 1) z) : Int)) =
      op.test (.finite n) (.finite z) := by
  have hlt : (n : Int) < max (-2 ^ 63) (min (2 ^ 63 - 1) z) ↔ (n : Int) < z := by omega
  have hgt : max (-2 ^ 63) (min (2 ^ 63 - 1) z) < (n : Int) ↔ z < (n : Int) := by omega
  apply test_congr
  · exact_mod_cast hlt
  · exact_mod_cast hgt

/-- A count compares with a double's long as with the double, when that is integral. -/
theorem test_toLong (hn : (n : Int) < 2 ^ 63 - 1)
    (hraw : (raw.isInteger || raw.isInfinite) = true) :
    op.test (.finite n) (.finite (toLong raw : Int)) = op.test (.finite n) raw := by
  cases hinteger : raw.isInteger with
  | true =>
      rw [← test_trunc hinteger, ← test_clamp hn raw.trunc]
      cases raw <;> first | rfl | cases hinteger
  | false =>
      have hlt : (n : ℚ) < ((2 ^ 63 - 1 : Int) : ℚ) := by exact_mod_cast hn
      have hgt : ((-2 ^ 63 : Int) : ℚ) < (n : ℚ) := by
        have hnonneg : (-2 ^ 63 : Int) < n := by omega
        exact_mod_cast hnonneg
      cases raw with
      | posInf =>
          rw [toLong]
          cases op <;> simp only [ComparisonOperator.test, Double.eq_finite, Double.lt_finite,
            Double.le_finite, hlt, hlt.le, hlt.ne, hlt.not_gt, hlt.not_ge, decide_true,
            decide_false] <;> rfl
      | negInf =>
          rw [toLong]
          cases op <;> simp only [ComparisonOperator.test, Double.eq_finite, Double.lt_finite,
            Double.le_finite, hgt, hgt.le, hgt.ne', hgt.not_gt, hgt.not_ge, decide_true,
            decide_false] <;> rfl
      | finite q => simp [hinteger, Double.isInfinite] at hraw
      | negZero => cases hinteger
      | nan => cases hraw

/-- A count reaches a fraction when it reaches the whole number above, and stays below it
when it stays below the whole number beneath. -/
theorem test_fraction {q : ℚ} (hq : q.den ≠ 1) :
    (decide ((n : ℚ) < q) = decide ((n : ℚ) ≤ ⌊q⌋) ∧ decide ((n : ℚ) ≤ q) = decide ((n : ℚ) ≤ ⌊q⌋)) ∧
      (decide (q < (n : ℚ)) = decide ((⌈q⌉ : ℚ) ≤ n) ∧ decide (q ≤ (n : ℚ)) = decide ((⌈q⌉ : ℚ) ≤ n)) ∧
        (n : ℚ) ≠ q := by
  have hne : (n : ℚ) ≠ q := by
    rintro rfl
    exact hq (Rat.den_natCast n)
  have hfloor : (n : ℚ) ≤ ⌊q⌋ ↔ (n : ℚ) ≤ q := by
    rw [← Int.cast_natCast, Int.cast_le, Int.le_floor]
  have hceil : (⌈q⌉ : ℚ) ≤ n ↔ q ≤ (n : ℚ) := by
    rw [← Int.cast_natCast, Int.cast_le, Int.ceil_le]
  refine ⟨⟨?_, ?_⟩, ⟨?_, ?_⟩, hne⟩
  · rw [decide_eq_decide, hfloor]
    exact ⟨le_of_lt, fun h => lt_of_le_of_ne h hne⟩
  · rw [decide_eq_decide, hfloor]
  · rw [decide_eq_decide, hceil]
    exact ⟨le_of_lt, fun h => lt_of_le_of_ne h hne.symm⟩
  · rw [decide_eq_decide, hceil]

theorem test_ceil (q : ℚ) (a : Double) :
    op.test a (Double.ceil (.finite q)) = op.test a (.finite ⌈q⌉) := by
  rw [Double.ceil]
  split
  next hzero =>
    rw [hzero.2]
    cases op <;> cases a <;> rfl
  next => rfl

theorem isInteger_int (z : Int) : (Double.finite z).isInteger = true := by
  simp [Double.isInteger, Double.isFinite, Double.toRat]

theorem isInteger_ceil (q : ℚ) : (Double.ceil (.finite q)).isInteger = true := by
  rw [Double.ceil]
  split
  · rfl
  · exact isInteger_int _

theorem threshold_integral (h : (raw.isInteger || raw.isInfinite) = true) :
    Threshold.of op raw = ⟨op, toLong raw, none⟩ := if_pos h

theorem threshold_fractional (h : (raw.isInteger || raw.isInfinite) = false) :
    Threshold.of op raw = match op with
      | .eq => ⟨op, toLong raw.floor, some false⟩
      | .ne => ⟨op, toLong raw.floor, some true⟩
      | .gt | .ge => ⟨.ge, toLong raw.ceil, none⟩
      | .lt | .le => ⟨.le, toLong raw.floor, none⟩ := if_neg (by rw [h]; exact Bool.false_ne_true)

/-- A fraction compared as an ordering, by the whole number next to it. -/
theorem threshold_fraction {q : ℚ} (hn : (n : Int) < 2 ^ 63 - 1) (hq : q.den ≠ 1)
    (hop : op.isOrdering = true) :
    compareInts (Threshold.of op (.finite q)).op (some n)
        (some (Threshold.of op (.finite q)).value) = .ofBool (op.test (.finite n) (.finite q)) := by
  obtain ⟨⟨hlt, hle⟩, ⟨hgt, hge⟩, -⟩ := test_fraction (n := n) hq
  have hfraction : ((Double.finite q).isInteger || (Double.finite q).isInfinite) = false := by
    simp [Double.isInteger, Double.isFinite, Double.isInfinite, Double.toRat, hq]
  have habove : ∀ other : ComparisonOperator,
      other.test (.finite n) (.finite (toLong (Double.ceil (.finite q)) : Int)) =
        other.test (.finite n) (.finite ⌈q⌉) := by
    intro other
    rw [test_toLong hn (by rw [isInteger_ceil]; rfl), test_ceil]
  have hbelow : ∀ other : ComparisonOperator,
      other.test (.finite n) (.finite (toLong (Double.floor (.finite q)) : Int)) =
        other.test (.finite n) (.finite ⌊q⌋) := by
    intro other
    rw [test_toLong hn (by rw [Double.floor, isInteger_int]; rfl), Double.floor]
  rw [threshold_fractional hfraction]
  cases op with
  | eq => cases hop
  | ne => cases hop
  | _ =>
      simp only [compareInts_some, Int.cast_natCast, habove, hbelow]
      simp only [ComparisonOperator.test, Double.lt_finite, Double.le_finite, hlt, hle, hgt, hge]

/-- A count against a threshold is the size against the plan's number. -/
theorem threshold_truth (hn : (n : Int) < 2 ^ 63 - 1)
    (hdecided : (Threshold.of op raw).decided = none) :
    compareInts (Threshold.of op raw).op (some n) (some (Threshold.of op raw).value) =
      sizeTruth true op n raw := by
  cases hintegral : raw.isInteger || raw.isInfinite with
  | true =>
      have hnan : raw.isNaN = false := by
        cases raw <;> first | rfl | cases hintegral
      rw [threshold_integral hintegral, compareInts_some, sizeTruth, if_neg (by simp [hnan])]
      exact congrArg Truth.ofBool (test_toLong hn hintegral)
  | false =>
      have hop : op.isOrdering = true := by
        rw [threshold_fractional hintegral] at hdecided
        cases op <;> first | rfl | cases hdecided
      cases raw with
      | finite q =>
          have hq : q.den ≠ 1 := by
            intro hden
            simp [Double.isInteger, Double.isFinite, Double.toRat, hden] at hintegral
          rw [sizeTruth, if_neg (by simp [Double.isNaN])]
          exact threshold_fraction hn hq hop
      | nan =>
          cases op <;> first | cases hop; done | rfl
      | negZero => cases hintegral
      | posInf => cases hintegral
      | negInf => cases hintegral

/-- A decided threshold has the answer of every size. -/
theorem threshold_decided {answer : Bool} (h : (Threshold.of op raw).decided = some answer) :
    sizeTruth true op n raw = .ofBool answer := by
  cases hintegral : raw.isInteger || raw.isInfinite with
  | true =>
      rw [threshold_integral hintegral] at h
      cases h
  | false =>
      rw [threshold_fractional hintegral] at h
      have hne : Double.eq (.finite n) raw = false := by
        cases raw with
        | finite q =>
            have hq : q.den ≠ 1 := by
              intro hden
              simp [Double.isInteger, Double.isFinite, Double.toRat, hden] at hintegral
            obtain ⟨-, -, hne⟩ := test_fraction (n := n) hq
            rw [Double.eq_finite]
            exact decide_eq_false hne
        | nan => rfl
        | _ => cases hintegral
      cases op with
      | eq =>
          obtain rfl := Option.some.inj h
          rw [sizeTruth, if_neg (by simp [ComparisonOperator.isOrdering])]
          exact congrArg Truth.ofBool hne
      | ne =>
          obtain rfl := Option.some.inj h
          rw [sizeTruth, if_neg (by simp [ComparisonOperator.isOrdering]), ComparisonOperator.test,
            hne]
          rfl
      | _ => cases h

/-- A threshold is decided exactly when the comparison does not depend on the size. -/
theorem threshold_dependsOnSize :
    dependsOnSize op raw = (Threshold.of op raw).decided.isNone := by
  rw [dependsOnSize, Bool.or_assoc]
  cases hintegral : raw.isInteger || raw.isInfinite with
  | true =>
      rw [threshold_integral hintegral, Bool.or_true]
      rfl
  | false =>
      rw [threshold_fractional hintegral]
      cases op <;> rfl

end Thresholds

/-! ## Sizes -/

section Collections

variable {selectInvocation : Bool} {scope : Scope schema} {ref : ResolvedRelation schema}
  {row : store.Row} {p : Predicate} {op : ComparisonOperator}

theorem reach_concat (row : store.Row) (hops : List String) (last : String) :
    store.reach row (hops ++ [last]) =
      (store.reach row hops).flatMap fun next => store.related next last := by
  simp only [Store.reach]
  induction hops generalizing row with
  | nil => simp [reach]
  | cons hop hops ih =>
      simp only [List.cons_append, reach, List.flatMap_assoc]
      exact congrArg (fun f => List.flatMap f _) (funext ih)

/-- Past an absent hop no row is joined. -/
theorem reach_joins_of_absent (h : (store.reach row ref.leadingHops).isEmpty = true) :
    store.reach row ref.joins = [] := by
  have hne : ref.joins ≠ [] := by simp [ResolvedRelation.joins, ResolvedRelation.chain]
  rw [← List.dropLast_append_getLast hne, reach_concat]
  rw [ResolvedRelation.leadingHops, List.isEmpty_iff] at h
  rw [h]
  rfl

theorem absent_of_direct (h : ref.isChained = false) :
    (store.reach row ref.leadingHops).isEmpty = false := by
  obtain ⟨owner, head, rest⟩ := ref
  cases rest with
  | nil => rfl
  | cons next rest => cases h

/-- Some row, as a count. -/
theorem compareInts_present {n : Int} (size : Nat)
    (h : ((op = .gt && n = 0) || (op = .ge && n = 1)) = true) :
    compareInts op (some (size : Int)) (some n) = .ofBool !(size = 0) := by
  simp only [Bool.or_eq_true, Bool.and_eq_true, decide_eq_true_iff] at h
  rw [compareInts_some]
  obtain ⟨rfl, rfl⟩ | ⟨rfl, rfl⟩ := h
  · have hpos : (0 : ℚ) < size ↔ ¬size = 0 := by rw [Nat.cast_pos, Nat.pos_iff_ne_zero]
    simp [ComparisonOperator.test, Double.lt_finite, hpos]
  · have hone : (1 : ℚ) ≤ size ↔ ¬size = 0 := by rw [Nat.one_le_cast, Nat.one_le_iff_ne_zero]
    simp [ComparisonOperator.test, Double.le_finite, hone]

/-- No row, as a count. -/
theorem compareInts_empty {n : Int} (size : Nat)
    (h : ((op = .eq && n = 0) || (op = .le && n = 0) || (op = .lt && n = 1)) = true) :
    compareInts op (some (size : Int)) (some n) = .ofBool (size = 0) := by
  simp only [Bool.or_eq_true, Bool.and_eq_true, decide_eq_true_iff] at h
  rw [compareInts_some]
  obtain (⟨rfl, rfl⟩ | ⟨rfl, rfl⟩) | ⟨rfl, rfl⟩ := h
  · simp [ComparisonOperator.test, Double.eq_finite]
  · simp [ComparisonOperator.test, Double.le_finite]
  · have hone : (size : ℚ) < 1 ↔ size = 0 := by rw [Nat.cast_lt_one]
    simp [ComparisonOperator.test, Double.lt_finite, hone]

/-- The count of a relation's elements, compared with a threshold. -/
theorem elementCount_threshold {threshold : Threshold}
    (h : elementCount selectInvocation ref threshold scope = .ok p)
    (hrow : env[ref.owner.level]? = some row) :
    p.truth engine store env =
      if (store.reach row ref.leadingHops).isEmpty then .unknown
      else match threshold.decided with
        | some answer => .ofBool answer
        | none => compareInts threshold.op (some ((store.reach row ref.joins).length : Int))
            (some threshold.value) := by
  obtain ⟨op, n, decided⟩ := threshold
  cases decided with
  | some answer =>
      rw [elementCount] at h
      split at h
      next hdirect =>
        obtain rfl := Except.ok.inj h
        rw [absent_of_direct (by simpa using hdirect), if_neg Bool.false_ne_true]
        exact truth_constant answer
      next =>
        obtain ⟨one, hone, h⟩ := Except.bind_eq_ok_iff.mp h
        obtain rfl := Except.ok.inj h
        rw [compareCount, truth_compareCount, requireLeadingHops_value hone hrow, value_literal,
          value_literal]
        split
        · rfl
        · cases answer <;> rfl
  | none =>
      obtain ⟨cs, hcs, h⟩ := Except.bind_eq_ok_iff.mp h
      obtain ⟨hsource, -⟩ := chainSubquery_eq_ok hcs
      have hrows : (store.rows cs.source env).length = (store.reach row ref.joins).length := by
        rw [hsource, rows_of_row hrow, List.length_map]
      have hlength : decide ((store.reach row ref.joins).length = 0) =
          (store.rows cs.source env).isEmpty := by
        rw [← hrows]
        cases store.rows cs.source env <;> rfl
      split at h
      next hpresent =>
        obtain rfl := Except.ok.inj h
        obtain ⟨hdirect, hpresent⟩ := (Bool.and_eq_true _ _).mp hpresent
        rw [absent_of_direct (by simpa using hdirect), if_neg Bool.false_ne_true,
          truth_anyElement, ← hlength]
        exact (compareInts_present _ hpresent).symm
      next =>
      split at h
      next hempty =>
        obtain rfl := Except.ok.inj h
        obtain ⟨hdirect, hempty⟩ := (Bool.and_eq_true _ _).mp hempty
        rw [absent_of_direct (by simpa using hdirect), if_neg Bool.false_ne_true, truth_triNot,
          truth_anyElement, ← hlength, Truth.not_ofBool, Bool.not_not]
        exact (compareInts_empty _ hempty).symm
      next =>
        obtain ⟨count, hcount, h⟩ := Except.bind_eq_ok_iff.mp h
        obtain rfl := Except.ok.inj h
        rw [compareCount, truth_compareCount, requireLeadingHops_value hcount hrow, value_literal,
          value_subquery, value_count, hrows]
        split
        · rfl
        · rfl

/-! ## What a collection's condition reads -/

/-- The elements of a collection, by the row that its chain starts from. -/
theorem elementsOf_of_row (hrow : env[ref.owner.level]? = some row) :
    elementsOf store ref env =
      if (store.reach row ref.leadingHops).isEmpty then none else some (store.reach row ref.joins) := by
  rw [elementsOf, hrow, Option.bind_some]

/-- A relation's size compared with a number. -/
theorem elementCount_truth {collection : String} {raw : Double}
    (hresolve : scope.resolve collection = .ok (.relation ref))
    (h : elementCount selectInvocation ref (.of op raw) scope = .ok p)
    (hrow : env[ref.owner.level]? = some row) :
    p.truth engine store env = collectionSizeTruth store true op collection raw scope env := by
  rw [elementCount_threshold h hrow, collectionSizeTruth, hresolve]
  simp only [elementsOf_of_row hrow]
  split
  next => rfl
  next =>
    cases hdecided : (Threshold.of op raw).decided with
    | some answer => exact (threshold_decided hdecided).symm
    | none => exact threshold_truth (store.countable row ref.joins) hdecided

variable {source : Source} {body : Predicate}

section Sourced

variable (hsource : source = ⟨ref.owner.level, ref.joins⟩)
include hsource

/-- The values of a body over the elements of a collection. -/
theorem bodyTruths_eq (hrow : env[ref.owner.level]? = some row) :
    bodyTruths engine store body (store.rows source env) =
      (store.reach row ref.joins).map fun e => body.truth engine store (env ++ [e]) := by
  rw [bodyTruths, hsource, rows_of_row hrow, List.map_map]
  rfl

theorem bodyTruths_countable (hrow : env[ref.owner.level]? = some row) :
    ((bodyTruths engine store body (store.rows source env)).length : Int) < 2 ^ 63 - 1 := by
  rw [bodyTruths_eq hsource hrow, List.length_map]
  exact store.countable row ref.joins

/-- The values of a body over a collection, nothing when a hop before it is absent. -/
def bodiesAt (engine : Engine) (store : Store schema) (ref : ResolvedRelation schema)
    (env : store.Env) (body : Predicate) : Option (List Truth) :=
  (elementsOf store ref env).map fun elements =>
    elements.map fun e => body.truth engine store (env ++ [e])

theorem bodiesAt_of_row (hrow : env[ref.owner.level]? = some row) :
    bodiesAt engine store ref env body =
      if (store.reach row ref.leadingHops).isEmpty then none
      else some (bodyTruths engine store body (store.rows source env)) := by
  rw [bodiesAt, elementsOf_of_row hrow, bodyTruths_eq hsource hrow]
  split <;> rfl

/-- A macro over a relation, of its body. -/
theorem handleCollectionOperator_truth {operator : PlanOperator}
    (hrow : env[ref.owner.level]? = some row) (hoperator : isQuantifier operator = true)
    (h : handleCollectionOperator selectInvocation operator ref scope source body = .ok p) :
    p.truth engine store env =
      match bodiesAt engine store ref env body with
      | some bodies => macroTruth operator bodies
      | none => .unknown := by
  rw [bodiesAt_of_row hsource hrow]
  cases operator with
  | «exists» | all =>
      obtain ⟨score, hscore, h⟩ := Except.bind_eq_ok_iff.mp h
      obtain rfl := Except.ok.inj h
      rw [compareCount, truth_compareCount, requireLeadingHops_value hscore hrow,
        macroScoreSubquery_value, value_literal]
      split
      · rfl
      · first | exact macroScore_exists _ | exact macroScore_all _
  | existsOne =>
      obtain ⟨count, hcount, h⟩ := Except.bind_eq_ok_iff.mp h
      obtain rfl := Except.ok.inj h
      rw [compareCount, truth_compareCount, requireLeadingHops_value hcount hrow,
        strictMatchCountSubquery_value, value_literal]
      split
      · rfl
      · exact strictCount_exactlyOne _
  | _ => cases hoperator

end Sourced

/-- A poison term, against what the comparison has decided. -/
theorem compareInts_poison (answer : Bool) (bodies : List Truth) :
    compareInts (if answer then .eq else .ne) (poison bodies) (some 0) =
      match strictCount bodies with
      | some _ => .ofBool answer
      | none => .unknown := by
  rw [poison, strictCount]
  by_cases hunknown : .unknown ∈ bodies
  · rw [if_pos hunknown, if_pos hunknown]
    cases answer <;> rfl
  · rw [if_neg hunknown, if_neg hunknown]
    cases answer <;> rfl

/-- A strict count compared with a threshold. -/
theorem strictCount_threshold {raw : Double} {bodies : List Truth}
    (hcount : (bodies.length : Int) < 2 ^ 63 - 1) (hdecided : (Threshold.of op raw).decided = none) :
    compareInts (Threshold.of op raw).op ((strictCount bodies).map Int.ofNat)
        (some (Threshold.of op raw).value) = filterSizeTruth true op (some bodies) raw := by
  have hle : bodies.count .yes ≤ bodies.length := List.count_le_length
  have hn : ((bodies.count .yes : Nat) : Int) < 2 ^ 63 - 1 := by omega
  have hsome : filterSizeTruth true op (some bodies) raw =
      match strictCount bodies with
      | some size => sizeTruth true op size raw
      | none => .unknown := rfl
  rw [hsome, strictCount]
  by_cases hunknown : .unknown ∈ bodies
  · rw [if_pos hunknown]
    exact compareInts_none_left _
  · rw [if_neg hunknown]
    exact threshold_truth hn hdecided

/-- A filtered collection's size compared with a number, of the filter's body. -/
theorem matchingElementCount_truth {raw : Double}
    (hsource : source = ⟨ref.owner.level, ref.joins⟩)
    (hrow : env[ref.owner.level]? = some row)
    (h : matchingElementCount selectInvocation ref (.of op raw) scope source body = .ok p) :
    p.truth engine store env =
      filterSizeTruth true op (bodiesAt engine store ref env body) raw := by
  have hnone : filterSizeTruth true op none raw =
      if (Threshold.of op raw).decided.isNone then sizeTruth true op 0 raw else .unknown := by
    rw [← threshold_dependsOnSize]
    rfl
  rw [bodiesAt_of_row hsource hrow]
  rw [matchingElementCount] at h
  split at h
  next answer hdecided =>
    obtain ⟨poison, hpoison, h⟩ := Except.bind_eq_ok_iff.mp h
    obtain rfl := Except.ok.inj h
    rw [compareCount, truth_compareCount, requireLeadingHops_value hpoison hrow,
      undeterminedPoisonSubquery_value, value_literal]
    by_cases habsent : (store.reach row ref.leadingHops).isEmpty = true
    · rw [if_pos habsent, if_pos habsent, hnone, hdecided]
      exact compareInts_none_left _
    · rw [if_neg habsent, if_neg habsent, compareInts_poison, filterSizeTruth]
      cases strictCount (bodyTruths engine store body (store.rows source env)) with
      | some size => exact (threshold_decided hdecided).symm
      | none => rfl
  next hdecided =>
    obtain rfl := Except.ok.inj h
    rw [compareCount, truth_compareCount, strictMatchCountSubquery_value, value_literal,
      strictCount_threshold (bodyTruths_countable hsource hrow) hdecided]
    split
    next habsent =>
      -- The count has no guard: of an absent parent it is 0.
      rw [bodyTruths_eq hsource hrow, reach_joins_of_absent habsent, hnone, hdecided]
      rfl
    next => rfl

end Collections

end QueryPlanAdapters.SpringData
