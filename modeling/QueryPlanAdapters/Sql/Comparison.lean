import QueryPlanAdapters.Sql.Value

/-!
# A column against a literal

What a database makes of the comparison of a column with a bound literal, and what
CEL makes of it once the column's value is an attribute. On values of one type the
two agree; across types CEL has an answer of its own.
-/

namespace QueryPlanAdapters

namespace Value

mutual

/-- A literal of the plan, as CEL reads it. -/
def ofPlan : PlanValue Double → Value
  | .null => null
  | .bool b => bool b
  | .number d => number d
  | .string s => string s
  | .array items => array (ofPlanList items)
  | .object fields => record (ofPlanFields fields)

def ofPlanList : List (PlanValue Double) → List Value
  | [] => []
  | item :: items => ofPlan item :: ofPlanList items

def ofPlanFields : List (String × PlanValue Double) → List (String × Value)
  | [] => []
  | (key, field) :: fields => (key, ofPlan field) :: ofPlanFields fields

end

/-- CEL's comparison of two values. Values of different types are unequal and have no
order. -/
def compare (op : ComparisonOperator) (left right : Value) : Truth :=
  match op with
  | .eq => .ofBool (left.valuesEqual right)
  | .ne => .ofBool (!left.valuesEqual right)
  | op => ((orderingKeys left right).map fun keys => Truth.ofBool (op.test keys.1 keys.2)).getD .unknown

end Value

namespace Sql

/-- A scalar column's value, as an attribute. -/
def SqlValue.toCel : SqlValue → Value
  | .null => .null
  | .bool b => .bool b
  | .number d => .number d
  | .text s => .string s
  | .time nanos => .timestamp nanos

theorem valuesEqual_of_sameTypeKeys {x y : SqlValue} {a b : Double}
    (h : x.sameTypeKeys y = some (a, b)) : x.toCel.valuesEqual y.toCel = a.eq b := by
  cases x <;> cases y <;> simp only [SqlValue.sameTypeKeys, Option.some.injEq, Prod.mk.injEq,
    reduceCtorEq] at h <;> obtain ⟨rfl, rfl⟩ := h
  case bool.bool a b => cases a <;> cases b <;> rfl
  case number.number a b => rfl
  case text.text s t =>
    simp [SqlValue.toCel, Value.valuesEqual, compareCodePoints_eq_zero_iff, String.toList_inj]
  case time.time a b => simp [SqlValue.toCel, Value.valuesEqual]

theorem orderingKeys_of_sameTypeKeys {x y : SqlValue} {keys : Double × Double}
    (h : x.sameTypeKeys y = some keys) : orderingKeys x.toCel y.toCel = some keys := by
  cases x <;> cases y <;> simp only [SqlValue.sameTypeKeys, reduceCtorEq] at h <;> exact h

/-- Of two values of one type, the database compares what CEL does. -/
theorem compare_eq_celCompare {engine : Engine} {x y : SqlValue}
    (h : (x.sameTypeKeys y).isSome = true) (op : ComparisonOperator) :
    engine.compare op x y = Value.compare op x.toCel y.toCel := by
  obtain ⟨⟨a, b⟩, hkeys⟩ := Option.isSome_iff_exists.mp h
  have hnull : (x.isNull || y.isNull) = false := by
    cases x <;> cases y <;> simp_all [SqlValue.sameTypeKeys, SqlValue.isNull]
  rw [Engine.compare, if_neg (by simp [hnull]), hkeys]
  cases op with
  | eq => rw [Value.compare, valuesEqual_of_sameTypeKeys hkeys]; rfl
  | ne => rw [Value.compare, valuesEqual_of_sameTypeKeys hkeys]; rfl
  | _ => simp [Value.compare, orderingKeys_of_sameTypeKeys hkeys]

theorem Engine.compare_text {engine : Engine} (a b : String) :
    engine.compare .eq (.text a) (.text b) = .ofBool (a = b) := by
  have h : engine.compare .eq (.text a) (.text b) =
      Value.compare .eq (SqlValue.text a).toCel (SqlValue.text b).toCel :=
    compare_eq_celCompare rfl .eq
  rw [h]
  simp [Value.compare, SqlValue.toCel, Value.valuesEqual]

end Sql

end QueryPlanAdapters
