import QueryPlanAdapters.SpringData.Mapping
import QueryPlanAdapters.Sql.Escape

/-!
# Spring Data: Criteria predicates on the columns of a row

The functions of texts and the predicates that the leaves build, and what they are on a row.
A function of a NULL is NULL, and a comparison with it UNKNOWN.
-/

namespace QueryPlanAdapters.SpringData

open Sql

mutual

/-- An `Expression<String>`. -/
inductive TextExpression where
  | path (path : Path)
  | literal (text : String)
  /-- From a position on, the first one being 1. -/
  | substring (text : TextExpression) (start : Nat)
  | trimLeading (character : Char) (text : TextExpression)
  | replace (text : TextExpression) (source target : String)
  | selectCase (condition : ColumnPredicate) (result otherwise : TextExpression)

inductive ColumnPredicate where
  | compareText (op : ComparisonOperator) (left : TextExpression) (right : String)
  | compareLength (op : ComparisonOperator) (text : TextExpression) (length : Nat)
  | compareDouble (op : ComparisonOperator) (path : Path) (bound : Double)
  /-- With `\` for the escape. -/
  | like (text : TextExpression) (pattern : String)
  | isIn (path : Path) (texts : List String)
  | isNull (path : Path)
  /-- `1 = NULL` -/
  | unknown
  | and (predicates : List ColumnPredicate)
  | or (predicates : List ColumnPredicate)
  | not (predicate : ColumnPredicate)

end

namespace ColumnPredicate

/-- `cb.conjunction()` -/
def conjunction : ColumnPredicate := and []

/-- `cb.disjunction()` -/
def disjunction : ColumnPredicate := or []

/-- `base` where the witness is FALSE, UNKNOWN where it is TRUE. -/
def baseUnlessUnknown (base unknownWitness : ColumnPredicate) : ColumnPredicate :=
  or [and [base, not unknownWitness], and [unknownWitness, unknown]]

end ColumnPredicate

/-! ## On a row -/

/-- A text of these characters. -/
def chars (cs : List Char) : SqlValue :=
  .text (String.ofList cs)

/-- A function of texts. -/
def onText (value : SqlValue) (f : List Char → List Char) : SqlValue :=
  match value with
  | .text s => chars (f s.toList)
  | _ => .null

section Semantics

variable (engine : Engine) (row : Path → SqlValue)

mutual

def TextExpression.eval : TextExpression → SqlValue
  | .path path => row path
  | .literal text => .text text
  | .substring text start => onText text.eval (·.drop (start - 1))
  | .trimLeading character text => onText text.eval (·.dropWhile (· = character))
  | .replace text source target =>
      onText text.eval (replaceOccurrences source.toList target.toList 0)
  | .selectCase condition result otherwise =>
      if condition.truth = .yes then result.eval else otherwise.eval

def ColumnPredicate.truth : ColumnPredicate → Truth
  | .compareText op left right => engine.compare op left.eval (.text right)
  | .compareLength op text length =>
      match text.eval with
      | .text s => .ofBool (op.test (.finite s.toList.length) (.finite length))
      | _ => .unknown
  | .compareDouble op path bound => engine.compare op (row path) (.number bound)
  | .like text pattern =>
      match text.eval with
      | .text s => .ofBool (likeMatches '\\' pattern s)
      | _ => .unknown
  | .isIn path texts => Truth.any (texts.map fun text => engine.compare .eq (row path) (.text text))
  | .isNull path => .ofBool (row path).isNull
  | .unknown => .unknown
  | .and predicates => Truth.all (columnTruths predicates)
  | .or predicates => Truth.any (columnTruths predicates)
  | .not predicate => predicate.truth.not

def columnTruths : List ColumnPredicate → List Truth
  | [] => []
  | predicate :: predicates => predicate.truth :: columnTruths predicates

end

end Semantics

@[simp] theorem onText_chars (cs : List Char) (f : List Char → List Char) :
    onText (chars cs) f = chars (f cs) := by
  rw [chars, onText, String.toList_ofList]

theorem text_eq_chars (s : String) : SqlValue.text s = chars s.toList := by
  rw [chars, String.ofList_toList]

section Truths

variable {engine : Engine} {row : Path → SqlValue}

@[simp] theorem eval_columnPath (path : Path) :
    (TextExpression.path path).eval engine row = row path := rfl

@[simp] theorem eval_substring (text : TextExpression) (start : Nat) :
    (text.substring start).eval engine row = onText (text.eval engine row) (·.drop (start - 1)) :=
  rfl

@[simp] theorem eval_trimLeading (character : Char) (text : TextExpression) :
    (text.trimLeading character).eval engine row =
      onText (text.eval engine row) (·.dropWhile (· = character)) := rfl

@[simp] theorem eval_replace (text : TextExpression) (source target : String) :
    (text.replace source target).eval engine row =
      onText (text.eval engine row) (replaceOccurrences source.toList target.toList 0) := rfl

theorem eval_selectCase (condition : ColumnPredicate) (result otherwise : TextExpression) :
    (TextExpression.selectCase condition result otherwise).eval engine row =
      if condition.truth engine row = .yes then result.eval engine row
      else otherwise.eval engine row := rfl

@[simp] theorem truth_compareText (op : ComparisonOperator) (left : TextExpression)
    (right : String) :
    (ColumnPredicate.compareText op left right).truth engine row =
      engine.compare op (left.eval engine row) (.text right) := rfl

@[simp] theorem truth_compareDouble (op : ComparisonOperator) (path : Path) (bound : Double) :
    (ColumnPredicate.compareDouble op path bound).truth engine row =
      engine.compare op (row path) (.number bound) := rfl

@[simp] theorem truth_columnNull (path : Path) :
    (ColumnPredicate.isNull path).truth engine row = .ofBool (row path).isNull := rfl

@[simp] theorem truth_columnUnknown : ColumnPredicate.unknown.truth engine row = .unknown := rfl

@[simp] theorem truth_columnNot (predicate : ColumnPredicate) :
    predicate.not.truth engine row = (predicate.truth engine row).not := rfl

theorem truth_isIn (path : Path) (texts : List String) :
    (ColumnPredicate.isIn path texts).truth engine row =
      Truth.any (texts.map fun text => engine.compare .eq (row path) (.text text)) := rfl

theorem columnTruths_eq_map (predicates : List ColumnPredicate) :
    columnTruths engine row predicates = predicates.map (·.truth engine row) := by
  induction predicates with
  | nil => rfl
  | cons predicate predicates ih =>
      rw [columnTruths, List.map_cons, ih]

@[simp] theorem truth_columnAnd (predicates : List ColumnPredicate) :
    (ColumnPredicate.and predicates).truth engine row =
      Truth.all (predicates.map (·.truth engine row)) := by
  rw [← columnTruths_eq_map]
  rfl

@[simp] theorem truth_columnOr (predicates : List ColumnPredicate) :
    (ColumnPredicate.or predicates).truth engine row =
      Truth.any (predicates.map (·.truth engine row)) := by
  rw [← columnTruths_eq_map]
  rfl

@[simp] theorem truth_columnDisjunction :
    ColumnPredicate.disjunction.truth engine row = .no := rfl

/-- A witness that is TRUE or FALSE decides between UNKNOWN and the base. -/
theorem truth_columnUnlessUnknown {base unknownWitness : ColumnPredicate} {witnessed : Bool}
    (h : unknownWitness.truth engine row = .ofBool witnessed) :
    (base.baseUnlessUnknown unknownWitness).truth engine row =
      if witnessed then .unknown else base.truth engine row := by
  simp only [ColumnPredicate.baseUnlessUnknown, truth_columnOr, truth_columnAnd, truth_columnNot,
    truth_columnUnknown, List.map_cons, List.map_nil, Truth.any_cons, Truth.any_nil,
    Truth.all_cons, Truth.all_nil, h]
  cases witnessed <;> cases base.truth engine row <;> rfl

/-! ### Of texts -/

variable {text : TextExpression} {cs : List Char}

theorem truth_compareChars (h : text.eval engine row = chars cs) (op : ComparisonOperator)
    (right : String) :
    (ColumnPredicate.compareText op text right).truth engine row =
      .ofBool (op.test (.finite (compareCodePoints cs right.toList)) 0) := by
  rw [truth_compareText, h, chars]
  show Truth.ofBool (op.test (.finite (compareCodePoints (String.ofList cs).toList right.toList)) 0) = _
  rw [String.toList_ofList]

theorem truth_equalChars (h : text.eval engine row = chars cs) (right : String) :
    (ColumnPredicate.compareText .eq text right).truth engine row =
      .ofBool (decide (cs = right.toList)) := by
  have hzero : (0 : Double) = .finite 0 := rfl
  rw [truth_compareChars h, ComparisonOperator.test, hzero, Double.eq_finite]
  congr 1
  rw [decide_eq_decide, Int.cast_eq_zero]
  exact compareCodePoints_eq_zero_iff

theorem truth_compareLength (h : text.eval engine row = chars cs) (op : ComparisonOperator)
    (length : Nat) :
    (ColumnPredicate.compareLength op text length).truth engine row =
      .ofBool (op.test (.finite cs.length) (.finite length)) := by
  rw [ColumnPredicate.truth, h, chars]
  show Truth.ofBool (op.test (.finite (String.ofList cs).toList.length) (.finite length)) = _
  rw [String.toList_ofList]

theorem truth_like (h : text.eval engine row = chars cs) (pattern : String) :
    (ColumnPredicate.like text pattern).truth engine row =
      .ofBool (likeMatches '\\' pattern (String.ofList cs)) := by
  rw [ColumnPredicate.truth, h, chars]

end Truths

end QueryPlanAdapters.SpringData
