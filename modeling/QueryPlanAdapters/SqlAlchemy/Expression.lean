import QueryPlanAdapters.Sql.Value

/-!
# SQLAlchemy: expressions

The SQL expressions the adapter builds, and their value in a row. `or_` and `CASE` are kept in
binary form: `or_` of no clause is the constant false, and a `CASE` that runs out of arms is NULL.
-/

namespace QueryPlanAdapters.SqlAlchemy

open Sql

/-- `a` to `z`. -/
def asciiLower : List Char := "abcdefghijklmnopqrstuvwxyz".toList

/-- `ch.upper()` of a letter `a` to `z`. -/
def raise (ch : Char) : Char := Char.ofNat (ch.toNat - 32)

inductive Expression where
  | column (name : String)
  | literal (value : SqlValue)
  | replace (element : Expression) (source target : String)
  | arith (op : ArithmeticOperator) (left right : Expression)
  /-- `upperAscii()`: all the letters of its receiver replaced, in the type
  `_UpperAsciiString(receiver)`, whose comparisons are its own. -/
  | upperAscii (receiver : Expression)
  | compare (op : ComparisonOperator) (left right : Expression)
  | isNull (element : Expression)
  | isNotNull (element : Expression)
  | not (element : Expression)
  | and (left right : Expression)
  | or (left right : Expression)
  | caseWhen (condition value otherwise : Expression)
  deriving DecidableEq

namespace Expression

def null : Expression := literal .null

def ofBool (b : Bool) : Expression := literal (.bool b)

/-- `literal(text, String)`. -/
def text (s : String) : Expression := literal (.text s)

/-- `or_(*clauses)`. -/
def disjunction (clauses : List Expression) : Expression :=
  clauses.foldr or (ofBool false)

/-- `case((condition, value))`, NULL where the condition does not hold. -/
def onlyWhen (condition value : Expression) : Expression :=
  caseWhen condition value null

variable (engine : Engine) (row : Row)

/-- One letter of a text in capitals. -/
def raiseLetter (value : SqlValue) (ch : Char) : SqlValue :=
  engine.replace value (.text ch.toString) (.text (raise ch).toString)

def eval : Expression → SqlValue
  | column name => row name
  | literal value => value
  | replace element source target => engine.replace element.eval (.text source) (.text target)
  | arith op left right => engine.arith op left.eval right.eval
  | upperAscii receiver => asciiLower.foldl (raiseLetter engine) receiver.eval
  | compare op left right => .ofTruth (engine.compare op left.eval right.eval)
  | isNull element => .bool element.eval.isNull
  | isNotNull element => .bool !element.eval.isNull
  | not element => .ofTruth element.eval.asTruth.not
  | and left right => .ofTruth (left.eval.asTruth.and right.eval.asTruth)
  | or left right => .ofTruth (left.eval.asTruth.or right.eval.asTruth)
  | caseWhen condition value otherwise =>
      if condition.eval.asTruth = .yes then value.eval else otherwise.eval

/-- An expression as a condition. -/
def truth (e : Expression) : Truth := (e.eval engine row).asTruth

section Truth

variable {engine : Engine} {row : Row}

@[simp] theorem eval_column (name : String) : (column name).eval engine row = row name := rfl

@[simp] theorem eval_literal (value : SqlValue) : (literal value).eval engine row = value := rfl

@[simp] theorem truth_ofBool (b : Bool) : (ofBool b).truth engine row = .ofBool b := rfl

@[simp] theorem truth_compare (op : ComparisonOperator) (left right : Expression) :
    (compare op left right).truth engine row =
      engine.compare op (left.eval engine row) (right.eval engine row) := by
  rw [truth, eval, SqlValue.asTruth_ofTruth]

@[simp] theorem truth_isNull (e : Expression) :
    (isNull e).truth engine row = .ofBool (e.eval engine row).isNull := rfl

@[simp] theorem truth_isNotNull (e : Expression) :
    (isNotNull e).truth engine row = .ofBool !(e.eval engine row).isNull := rfl

@[simp] theorem truth_not (e : Expression) :
    (not e).truth engine row = (e.truth engine row).not := by
  rw [truth, eval, SqlValue.asTruth_ofTruth]
  rfl

@[simp] theorem truth_and (left right : Expression) :
    (and left right).truth engine row = (left.truth engine row).and (right.truth engine row) := by
  rw [truth, eval, SqlValue.asTruth_ofTruth]
  rfl

@[simp] theorem truth_or (left right : Expression) :
    (or left right).truth engine row = (left.truth engine row).or (right.truth engine row) := by
  rw [truth, eval, SqlValue.asTruth_ofTruth]
  rfl

theorem truth_caseWhen (condition value otherwise : Expression) :
    (caseWhen condition value otherwise).truth engine row =
      if condition.truth engine row = .yes then value.truth engine row
      else otherwise.truth engine row := by
  rw [truth, eval]
  exact apply_ite SqlValue.asTruth _ _ _

/-- A guarded condition is UNKNOWN unless the guard holds. -/
theorem truth_onlyWhen (condition value : Expression) :
    (onlyWhen condition value).truth engine row =
      if condition.truth engine row = .yes then value.truth engine row else .unknown :=
  truth_caseWhen ..

theorem truth_disjunction (clauses : List Expression) :
    (disjunction clauses).truth engine row = Truth.any (clauses.map (·.truth engine row)) := by
  induction clauses with
  | nil => rfl
  | cons clause clauses ih =>
      rw [disjunction, List.foldr_cons, truth_or, ← disjunction, ih, List.map_cons, Truth.any]

end Truth

end Expression

end QueryPlanAdapters.SqlAlchemy
