import QueryPlanAdapters.Convex.Operands
import QueryPlanAdapters.Cel.Conversion

/-!
# Convex: types read from the plan

A plan carries no numeric type and the evaluator holds several CEL types in one
JavaScript representation. The functions here read what is certain about an
operand from the shape of its node alone. They choose the evaluator's arithmetic
and rendering modes.
-/

namespace QueryPlanAdapters.Convex

/-- `Number.isInteger` of a literal. -/
def isIntegralLiteral : Json → Bool
  | .number n => n.value.isInteger
  | _ => false

/-- A number literal that is not integral. -/
def isFractionalLiteral : Json → Bool
  | .number n => !n.value.isInteger
  | _ => false

def isIntegralConstant : Operand → Bool
  | .value literal => isIntegralLiteral literal
  | _ => false

/-- The arithmetic operator of a plan operator. -/
def arithmeticOperator : PlanOperator → Option ArithmeticOperator
  | .add => some .add
  | .sub => some .sub
  | .mult => some .mult
  | .div => some .div
  | .mod => some .mod
  | _ => none

mutual

/-- Whether the operand is an expression whose result is certainly a CEL int:
`int()`, `size()`, or arithmetic over ints of which at least one is such an
expression. -/
def isIntExpression : Operand → Bool
  | .expression operator operands =>
      if operator = .int ∨ operator = .size then true
      else if (arithmeticOperator operator).isSome then
        everyIntOperand operands && someIntExpression operands
      else false
  | _ => false

def everyIntOperand : List Operand → Bool
  | [] => true
  | operand :: operands =>
      (isIntegralConstant operand || isIntExpression operand) && everyIntOperand operands

def someIntExpression : List Operand → Bool
  | [] => false
  | operand :: operands => isIntExpression operand || someIntExpression operands

end

/-- Whether the operand is certainly a CEL int: an integral constant or an int
expression. -/
def isIntOperand (operand : Operand) : Bool :=
  isIntegralConstant operand || isIntExpression operand

@[simp] theorem everyIntOperand_eq_all (operands : List Operand) :
    everyIntOperand operands = operands.all isIntOperand := by
  induction operands with
  | nil => rfl
  | cons operand operands ih => simp [everyIntOperand, isIntOperand, ih]

@[simp] theorem someIntExpression_eq_any (operands : List Operand) :
    someIntExpression operands = operands.any isIntExpression := by
  induction operands with
  | nil => rfl
  | cons operand operands ih => simp [someIntExpression, ih]

@[simp] theorem isIntExpression_value (literal : Json) : isIntExpression (.value literal) = false :=
  rfl

theorem isIntExpression_expression (operator : PlanOperator) (operands : List Operand) :
    isIntExpression (.expression operator operands) =
      if operator = .int ∨ operator = .size then true
      else if (arithmeticOperator operator).isSome then
        operands.all isIntOperand && operands.any isIntExpression
      else false := by
  simp [isIntExpression]

/-! ## Timestamps and durations -/

inductive TemporalKind where
  | timestamp | duration
  deriving DecidableEq, Repr

/-- The kind that `+` and `-` give two temporal operands; none where CEL has no overload. -/
def temporalResultKind (operator : PlanOperator) (left right : Option TemporalKind) :
    Option TemporalKind :=
  if left = some .duration ∧ right = some .duration then some .duration
  else if left = some .timestamp ∧ right = some .duration then some .timestamp
  else if operator = .add ∧ left = some .duration ∧ right = some .timestamp then some .timestamp
  else if operator = .sub ∧ left = some .timestamp ∧ right = some .timestamp then some .duration
  else none

mutual

/-- Whether the operand is certainly a timestamp or a duration. The type comes
from the node that produced the value, never from the value. -/
def temporalKindOf : Operand → Option TemporalKind
  | .expression operator operands =>
      match operator with
      | .timestamp => some .timestamp
      | .duration | .timeSince => some .duration
      | .add | .sub =>
          match temporalKindsOf operands with
          | left :: right :: _ => temporalResultKind operator left right
          | _ => none
      | _ => none
  | _ => none

def temporalKindsOf : List Operand → List (Option TemporalKind)
  | [] => []
  | operand :: operands => temporalKindOf operand :: temporalKindsOf operands

end

@[simp] theorem temporalKindsOf_eq_map (operands : List Operand) :
    temporalKindsOf operands = operands.map temporalKindOf := by
  induction operands with
  | nil => rfl
  | cons operand operands ih => simp [temporalKindsOf, ih]

/-! ## Numeric types -/

inductive NumericType where
  | int | double
  deriving DecidableEq, Repr

mutual

/-- The numeric type the plan says the operand certainly has; for a ternary
whatever one of its branches fixes. -/
def numericTypeOf : Operand → Option NumericType
  | .value literal => if isFractionalLiteral literal then some .double else none
  | .var _ => none
  | .expression operator operands =>
      if isIntExpression (.expression operator operands) then some .int
      else if operator = .double then some .double
      else if operator = .if then
        match numericTypesOf operands with
        | _ :: whenTrue :: whenFalse :: _ => whenTrue <|> whenFalse
        | [_, whenTrue] => whenTrue
        | _ => none
      else none

def numericTypesOf : List Operand → List (Option NumericType)
  | [] => []
  | operand :: operands => numericTypeOf operand :: numericTypesOf operands

end

/-- Whether the int and double renderings of a literal differ. -/
def isUntypedConstant [Double.Rounding] (literal : Json) : Bool :=
  match literal with
  | .number n =>
      n.value.isInteger && toString n.value.trunc ≠ formatGoDouble n.value
  | _ => false

section Rendering

variable [Double.Rounding]

mutual

/-- Whether `string()` over the operand could render an integral constant whose
type the plan dropped. `type` is what an enclosing ternary fixes for its branches. -/
def rendersUntypedConstant : Operand → Option NumericType → Bool
  | .value literal, type => type.isNone && isUntypedConstant literal
  | .var _, _ => false
  | .expression operator operands, type =>
      if operator = .if then
        let branchType := type <|> numericTypeOf (.expression operator operands)
        match operands with
        | [] => false
        | _ :: branches => someRendersUntypedConstant branches branchType
      else false

def someRendersUntypedConstant : List Operand → Option NumericType → Bool
  | [], _ => false
  | operand :: operands, type =>
      rendersUntypedConstant operand type || someRendersUntypedConstant operands type

end

end Rendering

end QueryPlanAdapters.Convex
