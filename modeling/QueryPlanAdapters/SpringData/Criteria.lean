import QueryPlanAdapters.SpringData.Mapping

/-!
# Spring Data: Criteria predicates and their meaning

The part of the JPA Criteria API that the adapter builds conditions from, and what the
conditions are over a database. A subquery correlates the row of an enclosing scope and
joins through a chain; its rows extend those of the enclosing query by the last one
joined.
-/

namespace QueryPlanAdapters.SpringData

open Sql

/-- A column, or a bound value. -/
inductive Expression where
  | path (path : Path)
  | literal (value : SqlValue)

/-- The FROM of a subquery: the scope it correlates, and the joins from there. -/
structure Source where
  level : Nat
  chain : List String

mutual

inductive Predicate where
  | compare (op : ComparisonOperator) (left right : Expression)
  | compareCount (op : ComparisonOperator) (left right : Count)
  | isNull (expression : Expression)
  | isNotNull (expression : Expression)
  | «exists» (source : Source) (restriction : Predicate)
  | and (predicates : List Predicate)
  | or (predicates : List Predicate)
  | not (predicate : Predicate)

/-- An `Expression` of an integer type. -/
inductive Count where
  | literal (n : Option Int)
  | case (whens : List (Predicate × Count)) (otherwise : Count)
  | subquery (source : Source) (selection : Selection)

/-- What a subquery selects: an aggregate over its rows. -/
inductive Selection where
  | count
  | max (of : Count)
  | sum (of : Count)
  | coalesce (selection : Selection) (n : Int)
  | nullif (selection : Selection) (n : Int)
  | plus (left right : Selection)

end

namespace Predicate

/-- `cb.conjunction()` -/
def conjunction : Predicate := and []

/-- `cb.disjunction()` -/
def disjunction : Predicate := or []

end Predicate

/-! ## Databases -/

/-- Whether a value can be stored in a column of a type. -/
def JavaType.holds : JavaType → SqlValue → Bool
  | _, .null => true
  | string, .text _ => true
  | boolean, .bool _ => true
  | integer, .number _ | long, .number _ | double, .number _ => true
  | other _, _ => true
  | _, _ => false

/-- The rows that a chain of joins leads to. -/
def reach {Row : Type} (related : Row → String → List Row) (row : Row) : List String → List Row
  | [] => [row]
  | hop :: hops => (related row hop).flatMap fun next => reach related next hops

/-- The rows of a database, typed by a schema. A dotted path is read through left joins, and
a COUNT is a Java long. -/
structure Store (schema : Schema) where
  Row : Type
  entity : Row → schema.Entity
  element : Row → SqlValue
  column : Row → String → SqlValue
  related : Row → String → List Row
  element_holds : ∀ row, (schema.element (entity row)).holds (element row) = true
  column_holds : ∀ row path, ∀ javaType ∈ schema.column (entity row) path,
    javaType.holds (column row path) = true
  entity_related : ∀ row hop, ∀ next ∈ related row hop,
    schema.joined (entity row) hop = some (entity next)
  countable : ∀ row hops, ((reach related row hops).length : Int) < 2 ^ 63 - 1

namespace Store

variable {schema : Schema} (store : Store schema)

def reach (row : store.Row) (hops : List String) : List store.Row :=
  SpringData.reach store.related row hops

/-- A column of a row, or the row itself as a value. -/
def read (row : store.Row) : Option String → SqlValue
  | none => store.element row
  | some path => store.column row path

/-- The rows of the enclosing scopes, outermost first. -/
abbrev Env := List store.Row

def value (path : Path) (env : store.Env) : SqlValue :=
  match env[path.level]? with
  | some row => store.read row path.jpaPath
  | none => .null

/-- The environments of a subquery's rows. -/
def rows (source : Source) (env : store.Env) : List store.Env :=
  match env[source.level]? with
  | some row => (store.reach row source.chain).map fun last => env ++ [last]
  | none => []

end Store

/-! ## Values -/

/-- A comparison of two integers, UNKNOWN when one is NULL. -/
def compareInts (op : ComparisonOperator) : Option Int → Option Int → Truth
  | some a, some b => .ofBool (op.test (.finite a) (.finite b))
  | _, _ => .unknown

/-- MAX, of the values that are not NULL. -/
def maximum (values : List (Option Int)) : Option Int :=
  (values.filterMap id).max?

/-- SUM, of the values that are not NULL. -/
def total (values : List (Option Int)) : Option Int :=
  let present := values.filterMap id
  if present.isEmpty then none else some present.sum

section Semantics

variable {schema : Schema} (engine : Engine) (store : Store schema)

def Expression.eval : Expression → store.Env → SqlValue
  | .path column, env => store.value column env
  | .literal value, _ => value

mutual

def Predicate.truth : Predicate → store.Env → Truth
  | .compare op left right, env => engine.compare op (left.eval store env) (right.eval store env)
  | .compareCount op left right, env => compareInts op (left.value env) (right.value env)
  | .isNull expression, env => .ofBool (expression.eval store env).isNull
  | .isNotNull expression, env => .ofBool !(expression.eval store env).isNull
  | .exists source restriction, env =>
      .ofBool ((store.rows source env).any fun row => restriction.truth row = .yes)
  | .and predicates, env => Truth.all (truths predicates env)
  | .or predicates, env => Truth.any (truths predicates env)
  | .not predicate, env => (predicate.truth env).not

def truths : List Predicate → store.Env → List Truth
  | [], _ => []
  | predicate :: predicates, env => predicate.truth env :: truths predicates env

def Count.value : Count → store.Env → Option Int
  | .literal n, _ => n
  | .case whens otherwise, env => taken whens (otherwise.value env) env
  | .subquery source selection, env => selection.value (store.rows source env)

/-- The first arm whose condition is TRUE, and else the last value. -/
def taken : List (Predicate × Count) → Option Int → store.Env → Option Int
  | [], otherwise, _ => otherwise
  | (condition, result) :: whens, otherwise, env =>
      if condition.truth env = .yes then result.value env else taken whens otherwise env

def Selection.value : Selection → List store.Env → Option Int
  | .count, rows => some rows.length
  | .max of, rows => maximum (rows.map fun row => of.value row)
  | .sum of, rows => total (rows.map fun row => of.value row)
  | .coalesce selection n, rows => some ((selection.value rows).getD n)
  | .nullif selection n, rows => (selection.value rows).filter (· ≠ n)
  | .plus left right, rows => do
      let a ← left.value rows
      let b ← right.value rows
      return a + b

end

end Semantics

section Truths

variable {schema : Schema} {engine : Engine} {store : Store schema} {env : store.Env}

/-! What each constructor means, so that no proof unfolds the semantics. -/

@[simp] theorem eval_path (path : Path) :
    (Expression.path path).eval store env = store.value path env := rfl

@[simp] theorem eval_literal (value : SqlValue) :
    (Expression.literal value).eval store env = value := rfl

@[simp] theorem truth_compare (op : ComparisonOperator) (left right : Expression) :
    (Predicate.compare op left right).truth engine store env =
      engine.compare op (left.eval store env) (right.eval store env) := rfl

@[simp] theorem truth_compareCount (op : ComparisonOperator) (left right : Count) :
    (Predicate.compareCount op left right).truth engine store env =
      compareInts op (left.value engine store env) (right.value engine store env) := rfl

@[simp] theorem truth_isNull (expression : Expression) :
    (Predicate.isNull expression).truth engine store env =
      .ofBool (expression.eval store env).isNull := rfl

@[simp] theorem truth_isNotNull (expression : Expression) :
    (Predicate.isNotNull expression).truth engine store env =
      .ofBool !(expression.eval store env).isNull := rfl

theorem truth_exists (source : Source) (restriction : Predicate) :
    (Predicate.exists source restriction).truth engine store env =
      .ofBool ((store.rows source env).any fun row =>
        restriction.truth engine store row = .yes) := rfl

theorem truths_eq_map (predicates : List Predicate) :
    truths engine store predicates env = predicates.map (·.truth engine store env) := by
  induction predicates with
  | nil => rfl
  | cons predicate predicates ih =>
      rw [List.map_cons, ← ih]
      rfl

theorem truth_and (predicates : List Predicate) :
    (Predicate.and predicates).truth engine store env =
      Truth.all (predicates.map (·.truth engine store env)) := by
  rw [← truths_eq_map]
  rfl

theorem truth_or (predicates : List Predicate) :
    (Predicate.or predicates).truth engine store env =
      Truth.any (predicates.map (·.truth engine store env)) := by
  rw [← truths_eq_map]
  rfl

@[simp] theorem truth_not (predicate : Predicate) :
    (Predicate.not predicate).truth engine store env =
      (predicate.truth engine store env).not := rfl

@[simp] theorem truth_conjunction : Predicate.conjunction.truth engine store env = .yes := rfl

@[simp] theorem value_literal (n : Option Int) :
    (Count.literal n).value engine store env = n := rfl

theorem value_case_nil (otherwise : Count) :
    (Count.case [] otherwise).value engine store env = otherwise.value engine store env := rfl

theorem value_case_cons (condition : Predicate) (result : Count)
    (whens : List (Predicate × Count)) (otherwise : Count) :
    (Count.case ((condition, result) :: whens) otherwise).value engine store env =
      if condition.truth engine store env = .yes then result.value engine store env
      else (Count.case whens otherwise).value engine store env := rfl

theorem value_subquery (source : Source) (selection : Selection) :
    (Count.subquery source selection).value engine store env =
      selection.value engine store (store.rows source env) := rfl

variable {rows : List store.Env}

theorem value_count :
    Selection.count.value engine store rows = some (rows.length : Int) := rfl

theorem value_max (of : Count) :
    (Selection.max of).value engine store rows =
      maximum (rows.map fun row => of.value engine store row) := rfl

theorem value_sum (of : Count) :
    (Selection.sum of).value engine store rows =
      total (rows.map fun row => of.value engine store row) := rfl

theorem value_coalesce (selection : Selection) (n : Int) :
    (Selection.coalesce selection n).value engine store rows =
      some ((selection.value engine store rows).getD n) := rfl

theorem value_nullif (selection : Selection) (n : Int) :
    (Selection.nullif selection n).value engine store rows =
      (selection.value engine store rows).filter (· ≠ n) := rfl

theorem value_plus (left right : Selection) :
    (Selection.plus left right).value engine store rows =
      (left.value engine store rows).bind fun a =>
        (right.value engine store rows).map fun b => a + b := by
  show ((left.value engine store rows).bind fun a =>
    (right.value engine store rows).bind fun b => some (a + b)) = _
  simp only [Option.map_eq_bind, Function.comp_def]

end Truths

end QueryPlanAdapters.SpringData
