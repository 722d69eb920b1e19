import QueryPlanAdapters.Convex.Operators
import QueryPlanAdapters.Logic.Exception

/-!
# Convex: the refusals made before any filter exists

A shape the adapter cannot express throws at translation, so every check here
runs over the whole plan up front.
-/

namespace QueryPlanAdapters.Convex

/-- The operators with an entry in the roster. -/
def isKnownOperator : PlanOperator → Bool
  | .nin | .other _ => false
  | _ => true

/-! ## Per-operator checks -/

/-- A macro's lambda is well formed, and binds no more variables than the macro takes. -/
def validateMacro (maxVariables : Nat) (operator : PlanOperator) (operands : List Operand) :
    Except Thrown Unit :=
  match operands[1]? with
  | none => .error (.unsupported (operator.name ++ " lambda"))
  | some lambda => do
      let components ← lambdaComponents lambda
      .throwWhen (maxVariables < components.names.length)
        (.unsupported (operator.name ++ " binds one variable, and the plan's lambda " ++
          "declares " ++ toString components.names.length))

def validateModulo (operands : List Operand) : Except Thrown Unit :=
  .throwWhen (!operands.all fun operand => operand.isVariable || isIntOperand operand)
    (.unsupported ("modulo requires int operands, and the plan does not carry the " ++
    "numeric type of this one: CEL's % is a no-such-overload error on a double, which " ++
    "JavaScript's % would answer"))

/-- `value === 0`. -/
def isZeroConstant : Operand → Bool
  | .value (.number n) => n.value.isZero
  | _ => false

def validateDivision (operands : List Operand) : Except Thrown Unit :=
  match operands with
  | _ :: .expression .div _ :: _ =>
      .error (.unsupported ("division requires a constant denominator: the plan does not " ++
        "preserve numeric types needed to distinguish integer errors from floating-point infinity"))
  | numerator :: denominator :: _ =>
      .throwWhen (isZeroConstant denominator && !isZeroConstant numerator)
        (.unsupported indeterminateZeroDivisorMessage)
  | _ => .ok ()

def validatePattern (operands : List Operand) : Except Thrown Unit :=
  match operands with
  | _ :: .value (.string pattern) :: _ =>
      .throwWhen (parseSafeRegexPattern pattern).isNone (.unsupported patternMessage)
  | _ => .error (.unsupported patternMessage)
where
  patternMessage : String :=
    "matches requires a constant RE2-compatible pattern in the supported " ++
      "literal, anchor, and trailing .* subset"

/-- A map literal's entry: a `set-field` with a constant string key and a value. -/
def isStructEntry : Operand → Bool
  | .expression .setField [.value (.string _), _] => true
  | _ => false

def validateStruct (operands : List Operand) : Except Thrown Unit :=
  .throwWhen (!operands.all isStructEntry) (.unsupported
    "A map literal's entries must each be a set-field with a constant string key")

section Structure

variable [Double.Rounding]

def validateStringConversion (operands : List Operand) : Except Thrown Unit :=
  .throwWhen (operands[0]?.any (rendersUntypedConstant · none))
    (.unsupported ("string() over an integral constant whose int or double type the " ++
      "plan does not carry: CEL renders the int 1000000 as \"1000000\" and the double as " ++
      "\"1e+06\", and the plan ships both as the same bare number"))

/-- The operator's own translation-time check. -/
def validateOperator (operator : PlanOperator) (operands : List Operand) : Except Thrown Unit :=
  match operator with
  | .matches => validatePattern operands
  | .struct => validateStruct operands
  | .exists | .existsOne | .all => validateMacro 2 operator operands
  | .filter | .map => validateMacro 1 operator operands
  | .div => validateDivision operands
  | .mod => validateModulo operands
  | .string => validateStringConversion operands
  | _ => .ok ()

mutual

/-- Every node is well formed and uses a known operator, and each operator's own
check passes. -/
def validateStructure : Operand → (parentOperator : Option PlanOperator) → Except Thrown Unit
  | .value _, _ | .var _, _ => .ok ()
  | .expression operator operands, parentOperator => do
      .throwWhen (!isKnownOperator operator)
        (.unsupported ("Unsupported operator: " ++ operator.name))
      .throwWhen (operator = .setField && parentOperator ≠ some .struct)
        (.unsupported "set-field is only meaningful as a map literal's entry")
      validateOperator operator operands
      validateStructures operands operator

def validateStructures : List Operand → PlanOperator → Except Thrown Unit
  | [], _ => .ok ()
  | operand :: operands, operator => do
      validateStructure operand (some operator)
      validateStructures operands operator

end

end Structure

/-! ## Whole-plan checks -/

mutual

/-- `filter()` and `map()` return a list, which no boolean position may hold. -/
def assertNoListValuedCondition : Operand → Except Thrown Unit
  | .value _ | .var _ => .ok ()
  | .expression operator operands =>
      match operator with
      | .filter | .map =>
          .error (.unsupported (operator.name ++ "() returns a list, not a boolean, so it cannot " ++
            "be a condition on its own; only size() over its result has a boolean meaning"))
      | .and | .or | .not => assertNoListValuedConditions operands
      | _ => .ok ()

def assertNoListValuedConditions : List Operand → Except Thrown Unit
  | [] => .ok ()
  | operand :: operands => do
      assertNoListValuedCondition operand
      assertNoListValuedConditions operands

end

def isNullLiteral : Json → Bool
  | .null => true
  | _ => false

def carriesNullLiteral : Operand → Bool
  | .value (.array items) => items.any isNullLiteral
  | .value literal => isNullLiteral literal
  | _ => false

mutual

/-- Reject every null literal operand: under the omitted convention a null field
carries no attribute. -/
def assertNoNullComparisonOperands : Operand → Except Thrown Unit
  | .value _ | .var _ => .ok ()
  | .expression operator operands => do
      .throwWhen (operands.any carriesNullLiteral)
        (.unsupported ("Cannot translate `" ++ operator.name ++ "` against a null operand " ++
          "under nullAttributeRepresentation \"omitted\": a NULL field sends no attribute, so " ++
          "Cerbos evaluates the comparison as a missing-attribute error (deny) while a " ++
          "null-selecting filter would return those documents. Send NULL fields as explicit " ++
          "nulls and use \"explicit\", or keep this shape out of the policy."))
      assertNoNullComparisons operands

def assertNoNullComparisons : List Operand → Except Thrown Unit
  | [] => .ok ()
  | operand :: operands => do
      assertNoNullComparisonOperands operand
      assertNoNullComparisons operands

end

/-- A check of an operand under the lambda variables bound around it. -/
abbrev ReferenceCheck := (bound : List String) → Except Thrown Unit

section References

variable (mapper : Mapper)

mutual

/-- Every reference outside a lambda's own variable has a mapper entry. -/
def assertEveryReferenceMapped : Operand → ReferenceCheck
  | .value _, _ => .ok ()
  | .var name, bound =>
      if bound.contains (referenceRoot name) || isMappedReference name mapper then .ok ()
      else .error (.error ("No mapper entry for " ++ name ++ ": an unmapped reference is not " ++
        "used verbatim as a document path, because a path absent from every document satisfies " ++
        "a negated comparison on every document. Map it to a field, or declare it with an " ++
        "entry to use the plan path as-is."))
  | .expression operator operands, bound =>
      if operator = .lambda then do
        let components ← lambdaComponents (.expression operator operands)
        match (referenceChecks operands)[components.bodyIndex]? with
        | some check => check (bound ++ components.names)
        | none => .error .typeError
      else
        -- `get-field`'s second operand is the field name, not a reference.
        let checks := referenceChecks operands
        (if operator = .getField then checks.take 1 else checks).forM (· bound)

def referenceChecks : List Operand → List ReferenceCheck
  | [] => []
  | operand :: operands =>
      (fun bound => assertEveryReferenceMapped operand bound) :: referenceChecks operands

end

end References

end QueryPlanAdapters.Convex
