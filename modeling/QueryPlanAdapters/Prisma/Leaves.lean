import QueryPlanAdapters.Prisma.Condition
import QueryPlanAdapters.Logic.Exception

/-!
# Prisma: what the filters of the leaves say

The filter of a comparison is the comparison, also where it brackets a fraction or
lists booleans. A relation filter ranges over the records that the caller's predicate
on the relation shows, and the NULL witness finds the elements with a NULL.
-/

namespace QueryPlanAdapters.Prisma

open Sql

/-- A constant that a column is compared with: a scalar other than null. -/
def isComparable : Literal → Bool
  | .bool _ | .string _ => true
  | .number d => d.isFinite
  | _ => false

/-! ## Fractions -/

section Bracket

/-- The bounds around a fraction lie strictly below and above it. -/
structure Bracketed (lower exact upper : Double) : Prop where
  lower_lt : ∀ x : Double, exact.le x = true → lower.lt x = true
  lt_upper : ∀ x : Double, x.le exact = true → x.lt upper = true
  lt_of_le_lower : ∀ x : Double, x.le lower = true → x.lt exact = true
  lt_of_upper_le : ∀ x : Double, upper.le x = true → exact.lt x = true

theorem Bracketed.of_toRat {lower exact upper : Double} (hlower : lower.isFinite = true)
    (hexact : exact.isFinite = true) (hupper : upper.isFinite = true)
    (hbelow : lower.toRat < exact.toRat) (habove : exact.toRat < upper.toRat) :
    Bracketed lower exact upper := by
  constructor <;> intro x h <;> by_cases hx : x.isFinite = true
  case neg | neg | neg | neg =>
    cases x <;> cases exact <;> cases lower <;> cases upper <;>
      simp_all [Double.isFinite, Double.le, Double.lt, Double.eq]
  all_goals
    rw [Double.le_of_isFinite (by assumption) (by assumption), decide_eq_true_eq] at h
    rw [Double.lt_of_isFinite (by assumption) (by assumption), decide_eq_true_eq]
    linarith

/-- The lower and the upper neighbour of a fraction. -/
theorem bracketed_of_not_isInteger {d : Double} (hfinite : d.isFinite = true)
    (hfraction : d.isInteger = false) : Bracketed d.floor d d.ceil := by
  cases d with
  | finite q =>
      have hnotInt : ∀ n : ℤ, (n : ℚ) ≠ q := by
        rintro n rfl
        simp [Double.isInteger, Double.isFinite, Double.toRat] at hfraction
      have hbelow : (⌊q⌋ : ℚ) < q := lt_of_le_of_ne (Int.floor_le q) (hnotInt _)
      have habove : q < (⌈q⌉ : ℚ) := lt_of_le_of_ne (Int.le_ceil q) (hnotInt _).symm
      have hceil : (Double.finite q).ceil.isFinite = true ∧
          (Double.finite q).ceil.toRat = ⌈q⌉ := by
        rw [Double.ceil]
        split
        next hzero => simp [Double.isFinite, Double.toRat, hzero.2]
        next => exact ⟨rfl, rfl⟩
      exact Bracketed.of_toRat rfl rfl hceil.1 hbelow (hceil.2 ▸ habove)
  | negZero => simp [Double.isInteger, Double.isFinite, Double.toRat] at hfraction
  | posInf => simp [Double.isFinite] at hfinite
  | negInf => simp [Double.isFinite] at hfinite
  | nan => simp [Double.isFinite] at hfinite

theorem fieldTruth_number (engine : Engine) (operator : FieldOperator) (x d : Double) :
    fieldTruth engine operator (.number x) (.number d) =
      .ofBool (operator.comparison.test x d) := by
  cases operator <;> rfl

/-- A bracket compares with the fraction it is around. -/
theorem truth_fractionalBracket {ρ : Type} {engine : Engine} {store : Store ρ} {r : ρ}
    {field : String} (op : ComparisonOperator) {d : Double} (hfinite : d.isFinite = true)
    (hfraction : d.isInteger = false)
    (htyped : (store.column r field).isNull = true ∨
      sameType (store.column r field) (.number d) = true) :
    (fractionalBracket field op d).truth engine store r =
      compareAttribute op (store.column r field) (.number d) := by
  obtain ⟨hlower, hupper, hbelow, habove⟩ := bracketed_of_not_isInteger hfinite hfraction
  have hequal : ∀ x : Double, (x.eq d && (d.floor.lt x && x.lt d.ceil)) = x.eq d := by
    intro x
    rw [Bool.and_eq_left_iff_imp]
    intro h
    have hswap : d.eq x = true := Double.eq_swap d x ▸ h
    simp [hlower x (by simp [Double.le, hswap]), hupper x (by simp [Double.le, h])]
  obtain hnull | ⟨x, hx⟩ : store.column r field = .null ∨ ∃ x, store.column r field = .number x := by
    cases hcolumn : store.column r field <;>
      simp_all [SqlValue.isNull, sameType, boundLiteral, SqlValue.sameTypeKeys]
  · rw [hnull]
    cases op <;> simp [fractionalBracket, hnull, fieldTruth, boundLiteral, compareAttribute,
      Truth.and, Truth.or]
  · have hcompared : compareAttribute op (.number x) (.number d) = .ofBool (op.test x d) := rfl
    rw [hx, hcompared]
    cases op <;> simp only [fractionalBracket, PrismaFilter.truth_NOT_AND,
      PrismaFilter.truth_AND, PrismaFilter.truth_OR, PrismaFilter.truth_field, hx,
      fieldTruth_number, FieldOperator.comparison, ComparisonOperator.test, List.map_cons,
      List.map_nil, Truth.all_cons, Truth.any_cons, Truth.all_nil, Truth.any_nil, Truth.and_yes,
      Truth.or_no, Truth.and_ofBool, Truth.or_ofBool, Truth.not_ofBool]
    all_goals congr 1
    case eq => exact hequal x
    case ne => rw [hequal x]
    case lt =>
      rw [Bool.or_eq_left_iff_imp]
      exact hbelow x
    case le =>
      rw [Bool.and_eq_left_iff_imp]
      exact hupper x
    case gt =>
      rw [Bool.or_eq_left_iff_imp]
      exact habove x
    case ge =>
      rw [Bool.and_eq_left_iff_imp]
      exact hlower x

end Bracket

/-! ## Comparisons -/

/-- A filter that compares a column with a constant of its type, as CEL does. -/
structure Compares (engine : Engine) (op : ComparisonOperator) (field : String) (v : Literal)
    (filter : PrismaFilter) : Prop where
  isEmpty : filter.isEmpty = false
  truth {ρ : Type} (store : Store ρ) (r : ρ)
    (htyped : (store.column r field).isNull = true ∨ sameType (store.column r field) v = true) :
    filter.truth engine store r = compareAttribute op (store.column r field) v

section Comparison

variable {engine : Engine} {op : ComparisonOperator} {field : String}

/-- A column of the current record that is not known to hold explicit nulls. -/
structure ResolvedFieldReference.IsColumn (fieldRef : ResolvedFieldReference) (field : String) :
    Prop where
  direct : fieldRef.relations = none
  path : fieldRef.path = [field]
  ne_empty : field ≠ ""
  omitted : fieldRef.nullAttributeRepresentation ≠ some .explicit

variable {fieldRef : ResolvedFieldReference}

theorem ResolvedFieldReference.IsColumn.getLeafField
    (h : fieldRef.IsColumn field) : getLeafField fieldRef.path = .ok field := by
  simp [Prisma.getLeafField, h.path, truthy, Option.filter, h.ne_empty]

theorem ResolvedFieldReference.IsColumn.buildFieldFilter
    (h : fieldRef.IsColumn field) (operator : FieldOperator) (v : Literal) :
    buildFieldFilter fieldRef operator v = .ok (.field field operator v) := by
  simp [Prisma.buildFieldFilter, h.getLeafField, h.direct, wrapInRelations, bind, Except.bind,
    pure, Except.pure]

theorem compares_fractionalBracket {d : Double} (hfinite : d.isFinite = true)
    (hfraction : d.isInteger = false) :
    Compares engine op field (.number d) (fractionalBracket field op d) where
  isEmpty := by cases op <;> rfl
  truth _ _ := truth_fractionalBracket op hfinite hfraction

theorem compares_field {v : Literal} (hv : isComparable v = true) :
    Compares engine op field v (.field field (prismaOperator op) v) where
  isEmpty := rfl
  truth store r htyped := by
    have hcompare : fieldTruth engine (prismaOperator op) (store.column r field) v =
        engine.compare op (store.column r field) (boundLiteral v) := by
      cases v <;> simp [isComparable] at hv <;> cases op <;> rfl
    have hbound : (boundLiteral v).isNull = false := by
      cases v <;> simp [isComparable] at hv <;> rfl
    rw [PrismaFilter.truth_field, hcompare, Engine.compare, compareAttribute, hbound, Bool.or_false]
    split
    next => rfl
    next hnull =>
      obtain ⟨keys, hkeys⟩ := Option.isSome_iff_exists.mp (htyped.resolve_left hnull)
      rw [hkeys]

/-- The booleans that satisfy an ordering. -/
theorem compares_booleanOrdering (h : fieldRef.IsColumn field)
    {b : Bool} (hop : op.isOrdering = true) {filter : PrismaFilter}
    (hfilter : buildBooleanOrderingFilter fieldRef op b = .ok filter) :
    Compares engine op field (.bool b) filter := by
  cases op <;> cases b <;> simp [ComparisonOperator.isOrdering] at hop <;>
    simp [buildBooleanOrderingFilter, ComparisonOperator.test, h.buildFieldFilter,
      h.getLeafField, h.direct, wrapInRelations, bind, Except.bind, pure, Except.pure] at hfilter <;>
    subst hfilter
  all_goals
    refine ⟨rfl, fun store r htyped => ?_⟩
    cases hcolumn : store.column r field with
    | null => simp [hcolumn, fieldTruth, boundLiteral, compareAttribute, Truth.and, Truth.or]
    | bool c =>
        cases c <;> simp [hcolumn, fieldTruth, boundLiteral, compareAttribute, Engine.compare,
          SqlValue.sameTypeKeys, SqlValue.isNull, FieldOperator.comparison,
          ComparisonOperator.test] <;>
        rfl
    | number | text | time =>
        simp [hcolumn, SqlValue.isNull, sameType, boundLiteral, SqlValue.sameTypeKeys] at htyped

/-- The filter of a comparison is the comparison. -/
theorem compares_buildComparisonFilter {context : TranslationContext} (h : fieldRef.IsColumn field)
    {v : Literal}
    (hv : isComparable v = true) {filter : PrismaFilter}
    (hfilter : buildComparisonFilter context fieldRef op v = .ok filter) :
    Compares engine op field v filter := by
  have hleaf : filter = .field field (prismaOperator op) v → Compares engine op field v filter :=
    fun heq => heq ▸ compares_field hv
  have hexplicit : isExplicitNullReference fieldRef = false := by
    simpa [isExplicitNullReference] using h.omitted
  obtain ⟨-, -, hfilter⟩ := Except.bind_eq_ok_iff.mp hfilter
  cases v with
  | null => simp [isComparable] at hv
  | array items => simp [isComparable] at hv
  | object fields => simp [isComparable] at hv
  | bool b =>
      cases hop : op.isOrdering with
      | true =>
          simp only [hop] at hfilter
          exact compares_booleanOrdering h hop hfilter
      | false =>
          simp only [hop, hexplicit, h.buildFieldFilter, Bool.false_and, Bool.false_eq_true,
            if_false, Except.ok.injEq] at hfilter
          exact hleaf hfilter.symm
  | string s =>
      simp only [hexplicit, h.buildFieldFilter, Bool.false_and, Bool.false_eq_true, if_false,
        Except.ok.injEq] at hfilter
      exact hleaf hfilter.symm
  | number d =>
      simp only [hexplicit, h.buildFieldFilter, h.getLeafField, h.direct, Bool.false_and,
        Bool.false_eq_true, if_false] at hfilter
      split at hfilter
      next => exact hleaf (Except.ok.inj hfilter).symm
      next hfraction =>
        obtain rfl := Except.ok.inj hfilter
        exact compares_fractionalBracket hv (by simpa using hfraction)

end Comparison

/-! ## Relations -/

section Relations

open Condition

variable {ρ : Type} {engine : Engine} {store : Store ρ} {r : ρ} {relation : RelationConfig}
  {inner : PrismaFilter}

theorem truth_relationFilter_some (hinner : inner.isEmpty = false) :
    (relationFilter relation .some inner).truth engine store r =
      .ofBool ((visible engine store relation r).any fun e => inner.truth engine store e = .yes) := by
  rw [relationFilter, visible]
  cases relation.subqueryFilter with
  | none => simp [PrismaFilter.truth_some]
  | some declared =>
      simp [hinner, PrismaFilter.truth_some, List.any_filter]

theorem truth_relationFilter_none (hinner : inner.isEmpty = false) :
    (relationFilter relation .none inner).truth engine store r =
      .ofBool ((visible engine store relation r).all fun e => inner.truth engine store e ≠ .yes) := by
  rw [relationFilter, visible]
  cases relation.subqueryFilter with
  | none => simp [PrismaFilter.truth_none]
  | some declared =>
      simp [hinner, PrismaFilter.truth_none, List.all_filter]

theorem truth_relationFilter_every (hinner : inner.isEmpty = false) :
    (relationFilter relation .every inner).truth engine store r =
      .ofBool ((visible engine store relation r).all fun e => inner.truth engine store e ≠ .no) := by
  rw [relationFilter, visible]
  cases relation.subqueryFilter with
  | none => simp [PrismaFilter.truth_every]
  | some declared =>
      simp [hinner, PrismaFilter.truth_none, PrismaFilter.truth_NOT, List.all_filter]

/-- The NULL witness finds a NULL in the columns it lists. -/
theorem truth_buildNullWitnessFilter (fields : List String) :
    (buildNullWitnessFilter fields).truth engine store r = .yes ↔
      ∃ field ∈ fields, (store.column r field).isNull = true := by
  have hcheck : ∀ field, (PrismaFilter.shorthand field .null).truth engine store r =
      .ofBool (store.column r field).isNull := fun _ => rfl
  rw [buildNullWitnessFilter]
  split
  next check hcheck' =>
    obtain ⟨field, rfl, rfl⟩ := List.map_eq_singleton_iff.mp hcheck'
    simp [hcheck]
  next => simp [hcheck, Truth.any_eq_yes_iff]

theorem buildNullWitnessFilter_isEmpty (fields : List String) :
    (buildNullWitnessFilter fields).isEmpty = false := by
  rw [buildNullWitnessFilter]
  split
  next check hcheck =>
    obtain ⟨field, rfl, rfl⟩ := List.map_eq_singleton_iff.mp hcheck
    rfl
  next => rfl

end Relations

end QueryPlanAdapters.Prisma
