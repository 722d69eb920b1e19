import QueryPlanAdapters.Sql.Escape
import QueryPlanAdapters.Cel.Int64Texts

/-!
# Drizzle: expressions

The SQL fragments the adapter builds, and their values in a row of each of the three stores.
A text is a sequence of code points and is compared by code point, which is what the binary
collations the adapter asks for do.
-/

namespace QueryPlanAdapters.Drizzle

inductive Dialect where
  | sqlite | postgresql | mysql
  deriving DecidableEq, Repr

/-- What a column holds, or an expression yields. -/
inductive Scalar where
  | null
  | bool (b : Bool)
  | integer (n : Int)
  | double (d : Double)
  | text (s : String)
  deriving DecidableEq

namespace Scalar

def isNull : Scalar → Bool
  | null => true
  | _ => false

/-- A value in a condition. -/
def asTruth : Scalar → Truth
  | bool b => .ofBool b
  | _ => .unknown

/-- The value of a condition; UNKNOWN is a NULL. -/
def ofTruth : Truth → Scalar
  | .yes => bool true
  | .no => bool false
  | .unknown => null

/-- A function of a text; no expression the adapter builds applies one to anything else. -/
def onText (f : List Char → Scalar) : Scalar → Scalar
  | text s => f s.toList
  | _ => null

/-- The text of characters. -/
def chars (cs : List Char) : Scalar := text (String.ofList cs)

@[simp] theorem asTruth_ofTruth (t : Truth) : (ofTruth t).asTruth = t := by
  cases t <;> rfl

@[simp] theorem isNull_null : null.isNull = true := rfl

@[simp] theorem isNull_text (s : String) : (text s).isNull = false := rfl

@[simp] theorem onText_null (f : List Char → Scalar) : onText f null = null := rfl

@[simp] theorem onText_text (f : List Char → Scalar) (s : String) : onText f (text s) = f s.toList :=
  rfl

@[simp] theorem onText_chars (f : List Char → Scalar) (cs : List Char) :
    onText f (chars cs) = f cs := by
  rw [chars, onText_text, String.toList_ofList]

end Scalar

/-! ## Functions of texts -/

/-- `substr(text, start)`. A start counts from 1; a store reads one before the first character
in a way of its own. -/
def Dialect.substrFrom (dialect : Dialect) (cs : List Char) (start : Int) : List Char :=
  if 0 < start then cs.drop (start - 1).toNat
  else match dialect with
    | .postgresql => cs
    | .sqlite => if start = 0 then cs else cs.drop (cs.length + start).toNat
    | .mysql =>
        if start = 0 ∨ cs.length + start < 0 then [] else cs.drop (cs.length + start).toNat

/-- `substr(text, start, count)`, of a count that is not negative. -/
def Dialect.substrCount (dialect : Dialect) (cs : List Char) (start count : Int) : List Char :=
  if 0 < start then (cs.drop (start - 1).toNat).take count.toNat
  else match dialect with
    | .postgresql => cs.take (start + count - 1).toNat
    | .sqlite =>
        if start = 0 then cs.take (count - 1).toNat
        else if cs.length + start < 0 then cs.take (cs.length + start + count).toNat
        else (cs.drop (cs.length + start).toNat).take count.toNat
    | .mysql =>
        if start = 0 ∨ cs.length + start < 0 then []
        else (cs.drop (cs.length + start).toNat).take count.toNat

/-- `replace(text, source, target)`; there is nothing to replace for an empty source. -/
def replaceChars (source target cs : List Char) : List Char :=
  if source = [] then cs else Sql.replaceOccurrences source target 0 cs

/-! ## Expressions -/

/-- A store. What it makes of a comparison of two kinds of scalars, and of the cast of a text
that spells no 64-bit integer, is its own. -/
structure Engine where
  dialect : Dialect
  compareMixed : ComparisonOperator → Scalar → Scalar → Truth
  castOther : String → Scalar

/-- An integer beside a double: SQLite takes it as it is, and the other stores make it a double
first. -/
def Dialect.widen (dialect : Dialect) (n : Int) : Double :=
  match dialect with
  | .sqlite => .finite n
  | .postgresql | .mysql => Double.ofInt n

/-- The two numbers that a comparison within one kind reduces to. -/
def Engine.comparisonKeys (engine : Engine) : Scalar → Scalar → Option (Double × Double)
  | .bool a, .bool b => some (.finite a.toNat, .finite b.toNat)
  | .integer m, .integer n => some (.finite m, .finite n)
  | .double a, .double b => some (a, b)
  | .integer n, .double d => some (engine.dialect.widen n, d)
  | .double d, .integer n => some (d, engine.dialect.widen n)
  | .text a, .text b => some (.finite (compareCodePoints a.toList b.toList), .finite 0)
  | _, _ => none

/-- A comparison, UNKNOWN as soon as an operand is NULL. -/
def Engine.compare (engine : Engine) (op : ComparisonOperator) (a b : Scalar) : Truth :=
  if a.isNull || b.isNull then .unknown
  else match engine.comparisonKeys a b with
    | some (x, y) => .ofBool (op.test x y)
    | none => engine.compareMixed op a b

inductive SQL where
  | column (name : String)
  | value (v : Scalar)
  | replace (text source target : SQL)
  | substr (text start : SQL)
  | substring (text start count : SQL)
  /-- The length in characters. -/
  | length (text : SQL)
  /-- `ltrim(text, '0')`, which MySQL spells `trim(leading '0' from text)`. -/
  | trimZeros (text : SQL)
  | add (left right : SQL)
  | sub (left right : SQL)
  /-- `cast(text as bigint)` -/
  | castInteger (text : SQL)
  /-- `trunc(number)`, which SQLite spells `cast(number as integer)`. -/
  | truncate (number : SQL)
  | compare (op : ComparisonOperator) (left right : SQL)
  | isNull (e : SQL)
  | not (e : SQL)
  | and (left right : SQL)
  | or (left right : SQL)
  /-- One arm of a `case`, whose other arms, or NULL, are the last operand. -/
  | caseWhen (condition result otherwise : SQL)
  deriving DecidableEq

namespace SQL

def null : SQL := value .null

def text (s : String) : SQL := value (.text s)

def integer (n : Int) : SQL := value (.integer n)

def ofBool (b : Bool) : SQL := value (.bool b)

/-- `case when condition then result end`. -/
def onlyWhen (condition result : SQL) : SQL := caseWhen condition result null

/-- `or(...conditions)`, or a constant FALSE where there is none. -/
def anyOf : List SQL → SQL
  | [] => ofBool false
  | [condition] => condition
  | condition :: conditions => or condition (anyOf conditions)

/-- `and(...conditions)` -/
def allOf : List SQL → SQL
  | [] => ofBool true
  | [condition] => condition
  | condition :: conditions => and condition (allOf conditions)

/-- `e in (values)` -/
def inList (e : SQL) (values : List SQL) : SQL := anyOf (values.map (compare .eq e))

variable (engine : Engine) (row : String → Scalar)

def eval : SQL → Scalar
  | column name => row name
  | value v => v
  | replace text source target =>
      text.eval.onText fun cs => source.eval.onText fun s => target.eval.onText fun t =>
        .chars (replaceChars s t cs)
  | substr text start =>
      text.eval.onText fun cs => match start.eval with
        | .integer n => .chars (engine.dialect.substrFrom cs n)
        | _ => .null
  | substring text start count =>
      text.eval.onText fun cs => match start.eval, count.eval with
        | .integer n, .integer k => .chars (engine.dialect.substrCount cs n k)
        | _, _ => .null
  | length text => text.eval.onText fun cs => .integer cs.length
  | trimZeros text => text.eval.onText fun cs => .chars (cs.dropWhile (· = '0'))
  | add left right => match left.eval, right.eval with
      | .integer m, .integer n => .integer (m + n)
      | _, _ => .null
  | sub left right => match left.eval, right.eval with
      | .integer m, .integer n => .integer (m - n)
      | _, _ => .null
  | castInteger text => text.eval.onText fun cs => match parseInt64 (String.ofList cs) with
      | some n => .integer n
      | none => engine.castOther (String.ofList cs)
  | truncate number => match number.eval with
      | .double d =>
          if engine.dialect = .sqlite then .integer d.trunc else .double (.finite d.trunc)
      | _ => .null
  | compare op left right => .ofTruth (engine.compare op left.eval right.eval)
  | isNull e => .bool e.eval.isNull
  | not e => .ofTruth e.eval.asTruth.not
  | and left right => .ofTruth (left.eval.asTruth.and right.eval.asTruth)
  | or left right => .ofTruth (left.eval.asTruth.or right.eval.asTruth)
  | caseWhen condition result otherwise =>
      if condition.eval.asTruth = .yes then result.eval else otherwise.eval

/-- An expression as a condition. -/
def truth (e : SQL) : Truth := (e.eval engine row).asTruth

section Truth

variable {engine : Engine} {row : String → Scalar}

@[simp] theorem eval_value (v : Scalar) : (value v).eval engine row = v := rfl

@[simp] theorem eval_text (s : String) : (text s).eval engine row = .text s := rfl

@[simp] theorem eval_integer (n : Int) : (integer n).eval engine row = .integer n := rfl

@[simp] theorem truth_ofBool (b : Bool) : (ofBool b).truth engine row = .ofBool b := rfl

@[simp] theorem truth_null : null.truth engine row = .unknown := rfl

@[simp] theorem truth_compare (op : ComparisonOperator) (left right : SQL) :
    (compare op left right).truth engine row =
      engine.compare op (left.eval engine row) (right.eval engine row) := by
  rw [truth, eval, Scalar.asTruth_ofTruth]

@[simp] theorem truth_isNull (e : SQL) :
    (isNull e).truth engine row = .ofBool (e.eval engine row).isNull := rfl

@[simp] theorem truth_not (e : SQL) : (not e).truth engine row = (e.truth engine row).not := by
  rw [truth, eval, Scalar.asTruth_ofTruth]
  rfl

@[simp] theorem truth_and (left right : SQL) :
    (and left right).truth engine row = (left.truth engine row).and (right.truth engine row) := by
  rw [truth, eval, Scalar.asTruth_ofTruth]
  rfl

@[simp] theorem truth_or (left right : SQL) :
    (or left right).truth engine row = (left.truth engine row).or (right.truth engine row) := by
  rw [truth, eval, Scalar.asTruth_ofTruth]
  rfl

theorem truth_caseWhen (condition result otherwise : SQL) :
    (caseWhen condition result otherwise).truth engine row =
      if condition.truth engine row = .yes then result.truth engine row
      else otherwise.truth engine row := by
  rw [truth, eval]
  exact apply_ite Scalar.asTruth _ _ _

theorem truth_anyOf (conditions : List SQL) :
    (anyOf conditions).truth engine row = Truth.any (conditions.map (·.truth engine row)) := by
  induction conditions with
  | nil => rfl
  | cons condition conditions ih =>
      cases conditions with
      | nil => simp [anyOf, Truth.any]
      | cons next conditions =>
          rw [anyOf.eq_3 _ _ (by simp), truth_or, ih, List.map_cons (a := condition), Truth.any]

theorem truth_allOf (conditions : List SQL) :
    (allOf conditions).truth engine row = Truth.all (conditions.map (·.truth engine row)) := by
  induction conditions with
  | nil => rfl
  | cons condition conditions ih =>
      cases conditions with
      | nil => simp [allOf, Truth.all]
      | cons next conditions =>
          rw [allOf.eq_3 _ _ (by simp), truth_and, ih, List.map_cons (a := condition), Truth.all]

end Truth

end SQL

/-! ## Comparisons of one kind -/

section Compare

variable {engine : Engine} {op : ComparisonOperator}

@[simp] theorem Engine.compare_null_left (b : Scalar) : engine.compare op .null b = .unknown := by
  simp [Engine.compare]

@[simp] theorem Engine.compare_null_right (a : Scalar) : engine.compare op a .null = .unknown := by
  simp [Engine.compare]

@[simp] theorem Engine.compare_integer (m n : Int) :
    engine.compare op (.integer m) (.integer n) = .ofBool (op.test (.finite m) (.finite n)) := rfl

theorem Engine.compare_text (s t : String) :
    engine.compare op (.text s) (.text t) =
      .ofBool (op.test (.finite (compareCodePoints s.toList t.toList)) (.finite 0)) := rfl

theorem Engine.compare_text_eq (s t : String) :
    engine.compare .eq (.text s) (.text t) = .ofBool (s = t) := by
  rw [Engine.compare_text, ComparisonOperator.test, Double.eq_finite]
  congr 1
  rw [decide_eq_decide, Int.cast_eq_zero, compareCodePoints_eq_zero_iff, String.toList_inj]

theorem Engine.compare_chars (cs ds : List Char) :
    engine.compare op (.chars cs) (.chars ds) =
      .ofBool (op.test (.finite (compareCodePoints cs ds)) (.finite 0)) := by
  rw [Scalar.chars, Scalar.chars, Engine.compare_text, String.toList_ofList, String.toList_ofList]

/-- Two texts given by their characters. -/
theorem Engine.compare_chars_eq (cs ds : List Char) :
    engine.compare .eq (.chars cs) (.chars ds) = .ofBool (cs = ds) := by
  rw [Scalar.chars, Scalar.chars, Engine.compare_text_eq]
  congr 1
  rw [decide_eq_decide, String.ofList_inj]

end Compare

end QueryPlanAdapters.Drizzle
