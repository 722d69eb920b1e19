import QueryPlanAdapters.Cel.Conversion

/-!
# SQL values, rows and FROM lists

A column holds a value or NULL. A comparison with NULL is UNKNOWN, and values of
one type compare alike on every engine: numbers as IEEE doubles, texts by code
point, false before true, instants by time. What an engine answers across types,
and its scalar functions, are parameters.
-/

namespace QueryPlanAdapters.Sql

inductive SqlValue where
  | null
  | bool (b : Bool)
  | number (d : Double)
  | text (s : String)
  | time (nanos : Int)
  deriving DecidableEq

namespace SqlValue

def isNull : SqlValue → Bool
  | null => true
  | _ => false

/-- A value in a condition. -/
def asTruth : SqlValue → Truth
  | bool b => .ofBool b
  | _ => .unknown

/-- The value of a condition; UNKNOWN is a NULL. -/
def ofTruth : Truth → SqlValue
  | .yes => bool true
  | .no => bool false
  | .unknown => null

@[simp] theorem asTruth_ofTruth (t : Truth) : (ofTruth t).asTruth = t := by
  cases t <;> rfl

@[simp] theorem asTruth_bool (b : Bool) : (bool b).asTruth = .ofBool b := rfl

@[simp] theorem asTruth_null : null.asTruth = .unknown := rfl

@[simp] theorem isNull_null : null.isNull = true := rfl

theorem eq_null_of_isNull {value : SqlValue} (h : value.isNull = true) : value = .null := by
  cases value <;> first | rfl | cases h

@[simp] theorem ofTruth_unknown : ofTruth .unknown = null := rfl

@[simp] theorem ofTruth_ofBool (b : Bool) : ofTruth (.ofBool b) = bool b := by
  cases b <;> rfl

/-- The pair of numbers a comparison within one type reduces to. -/
def sameTypeKeys : SqlValue → SqlValue → Option (Double × Double)
  | bool a, bool b => some (.finite a.toNat, .finite b.toNat)
  | number a, number b => some (a, b)
  | text a, text b => some (.finite (compareCodePoints a.toList b.toList), .finite 0)
  | time a, time b => some (.finite a, .finite b)
  | _, _ => none

end SqlValue

/-- What differs between engines. -/
structure Engine where
  /-- A comparison of two values of different types. -/
  compareMixed : ComparisonOperator → SqlValue → SqlValue → Truth
  arith : ArithmeticOperator → SqlValue → SqlValue → SqlValue
  concat : SqlValue → SqlValue → SqlValue
  like : SqlValue → SqlValue → Truth
  charLength : SqlValue → SqlValue
  replace : (text source target : SqlValue) → SqlValue
  castText : SqlValue → SqlValue
  castFloat : SqlValue → SqlValue

/-- An engine that compares nothing across types and has no scalar functions. -/
def Engine.bare : Engine where
  compareMixed _ _ _ := .unknown
  arith _ _ _ := .null
  concat _ _ := .null
  like _ _ := .unknown
  charLength _ := .null
  replace _ _ _ := .null
  castText _ := .null
  castFloat _ := .null

/-- A comparison, UNKNOWN as soon as an operand is NULL. -/
def Engine.compare (engine : Engine) (op : ComparisonOperator) (a b : SqlValue) : Truth :=
  if a.isNull || b.isNull then .unknown
  else match a.sameTypeKeys b with
    | some (x, y) => .ofBool (op.test x y)
    | none => engine.compareMixed op a b

section Compare

variable {engine : Engine} {op : ComparisonOperator}

@[simp] theorem Engine.compare_null_left (b : SqlValue) : engine.compare op .null b = .unknown := by
  simp [Engine.compare]

@[simp] theorem Engine.compare_null_right (a : SqlValue) :
    engine.compare op a .null = .unknown := by
  simp [Engine.compare]

@[simp] theorem Engine.compare_number (a b : Double) :
    engine.compare op (.number a) (.number b) = .ofBool (op.test a b) := rfl

end Compare

/-! ## Rows -/

abbrev Row := String → SqlValue

/-- The rows of each table. -/
abbrev Database := String → List Row

/-- The row each table name or alias stands for. -/
abbrev RowEnv := String → Row

def RowEnv.bind (env : RowEnv) (aliasName : String) (row : Row) : RowEnv := fun qualifier =>
  if qualifier = aliasName then row else env qualifier

@[simp] theorem RowEnv.bind_self (env : RowEnv) (aliasName : String) (row : Row) :
    env.bind aliasName row aliasName = row := by
  simp [RowEnv.bind]

theorem RowEnv.bind_of_ne {env : RowEnv} {aliasName qualifier : String} {row : Row}
    (h : qualifier ≠ aliasName) : env.bind aliasName row qualifier = env qualifier := by
  simp [RowEnv.bind, h]

/-- One aliased table of a FROM list. -/
structure FromItem where
  table : String
  aliasName : String
  deriving DecidableEq

/-- Every choice of one row for each item of a FROM list. -/
def Database.bindings (db : Database) : List FromItem → RowEnv → List RowEnv
  | [], env => [env]
  | item :: items, env =>
      (db item.table).flatMap fun row => db.bindings items (env.bind item.aliasName row)

@[simp] theorem Database.bindings_nil (db : Database) (env : RowEnv) :
    db.bindings [] env = [env] := rfl

/-- One table is bound to each of its rows. -/
theorem Database.bindings_singleton (db : Database) (item : FromItem) (env : RowEnv) :
    db.bindings [item] env = (db item.table).map fun row => env.bind item.aliasName row := by
  simp [Database.bindings, List.map_eq_flatMap]

theorem Database.bindings_append (db : Database) (items more : List FromItem) (env : RowEnv) :
    db.bindings (items ++ more) env = (db.bindings items env).flatMap (db.bindings more) := by
  induction items generalizing env with
  | nil => simp
  | cons item items ih => simp [Database.bindings, ih, List.flatMap_assoc]

/-- A choice of rows leaves every other qualifier as it was. -/
theorem Database.bindings_frame {db : Database} {items : List FromItem} {env env' : RowEnv}
    {qualifier : String} (h : env' ∈ db.bindings items env)
    (hfresh : ∀ item ∈ items, qualifier ≠ item.aliasName) : env' qualifier = env qualifier := by
  induction items generalizing env with
  | nil =>
      obtain rfl : env' = env := by simpa using h
      rfl
  | cons item items ih =>
      obtain ⟨hitem, hitems⟩ := List.forall_mem_cons.mp hfresh
      obtain ⟨row, -, h⟩ := List.mem_flatMap.mp h
      rw [ih h hitems, RowEnv.bind_of_ne hitem]

end QueryPlanAdapters.Sql
