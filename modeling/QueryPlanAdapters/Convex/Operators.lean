import QueryPlanAdapters.Convex.NumericMode
import QueryPlanAdapters.Cel.Temporal

/-!
# Convex: the operators of the in-memory evaluator

An evaluation yields a value, yields CEL's evaluation error, or throws. Operands
are evaluated lazily: an operator receives an evaluator for each of its operands,
and for each operand of its operands, and runs those it needs. A container is
compared with itself the way it is compared with a copy of itself.
-/

namespace QueryPlanAdapters.Convex

/-- Lambda variables in scope. They live in a plain object, which also answers for
the names it inherits. -/
abbrev Bindings := String → Option Value

namespace Bindings

def empty : Bindings := fun _ => none

def get? (bindings : Bindings) (name : String) : Option Value :=
  match bindings name with
  | some v => some v
  | none => if objectPrototypeMembers.contains name then some (.inherited name) else none

/-- Assign a variable. An assignment to `__proto__` adds no entry. -/
def set (bindings : Bindings) (name : String) (v : Value) : Bindings := fun other =>
  if other = name ∧ name ≠ "__proto__" then some v else bindings other

end Bindings

structure Scope where
  doc : Value
  mapper : Mapper
  bindings : Bindings
  /-- Whether a stored null reads as a missing attribute. -/
  nullIsMissing : Bool
  /-- The evaluating clock, in milliseconds. -/
  now : Int

abbrev Result := Except Thrown Outcome

abbrev Evaluator := Scope → Result

structure Call where
  operator : PlanOperator
  operands : List Operand
  scope : Scope
  /-- The evaluators of the operands, in order. -/
  evaluators : List Evaluator
  /-- For each operand, the evaluators of its own operands. -/
  innerEvaluators : List (List Evaluator)

/-! ## References -/

def readPath (outcome : Outcome) (scope : Scope) : Outcome :=
  match outcome with
  | .value .null => if scope.nullIsMissing then .error else .value .null
  | outcome => outcome

/-- A lambda variable, or a path through one, first; then the mapped document
field. A bare lambda variable is a list element and is never read as missing. -/
def lookUp (name : String) (scope : Scope) : Outcome :=
  match (referenceRest name).bind fun rest =>
      (scope.bindings.get? (referenceRoot name)).map fun v => (v, rest) with
  | some (v, rest) => readPath (getNestedValue (.value v) rest) scope
  | none =>
      match scope.bindings.get? name with
      | some v => .value v
      | none => readPath (getNestedValue (.value scope.doc) (resolveField name scope.mapper)) scope

/-- Outside every lambda, a reference whose root is no inherited name reads the document. -/
theorem lookUp_document {name : String} {scope : Scope} (hbindings : scope.bindings = .empty)
    (hplain : referenceRoot name ∉ objectPrototypeMembers) :
    lookUp name scope =
      readPath (getNestedValue (.value scope.doc) (resolveField name scope.mapper)) scope := by
  have hroot : Bindings.get? scope.bindings (referenceRoot name) = none := by
    simp [Bindings.get?, Bindings.empty, hbindings, hplain]
  have hname : Bindings.get? scope.bindings name = none := by
    have hbare : ∀ member ∈ objectPrototypeMembers, isBareName member = true := by decide
    have hmember : name ∉ objectPrototypeMembers := by
      intro h
      rw [referenceRoot_of_isBareName (hbare name h)] at hplain
      exact hplain h
    simp [Bindings.get?, Bindings.empty, hbindings, hmember]
  cases hrest : referenceRest name <;> simp [lookUp, hrest, hroot, hname]

/-- `name in bindings`. -/
def Scope.isBound (scope : Scope) (name : String) : Bool :=
  (scope.bindings.get? name).isSome

/-- Whether the operand is a document field, rather than a constant or a binding. -/
def isDocumentField (isBound : String → Bool) (operand : Operand) : Bool :=
  match operand with
  | .var name => !isBound (referenceRoot name)
  | _ => false

/-- Whether the operand is certainly not a CEL int: a document field, a
fractional constant, or `double()`. -/
def isDoubleOperand (isBound : String → Bool) (operand : Operand) : Bool :=
  match operand with
  | .value literal => isFractionalLiteral literal
  | .var _ => isDocumentField isBound operand
  | .expression operator _ => operator = .double

/-- How an arithmetic node combines two operands outside temporal arithmetic. -/
inductive ArithmeticMode where
  | int | noOverload | loose
  deriving DecidableEq, Repr

/-- The mode is chosen from the nodes: int arithmetic over certain ints; an error
where a certain int stands beside a certain double, for which CEL has no overload;
and otherwise whatever the values are. -/
def arithmeticMode (isBound : String → Bool) (operator : PlanOperator) (operands : List Operand) :
    ArithmeticMode :=
  if isIntExpression (.expression operator operands) then .int
  else if operands.any isIntExpression && operands.any (isDoubleOperand isBound) then .noOverload
  else .loose

/-- Whether `+` or `-` is temporal: an operand is certainly a timestamp or a duration. -/
def isTemporalNode (operator : PlanOperator) (operands : List Operand) : Bool :=
  (operator = .add || operator = .sub) && operands.any fun operand => (temporalKindOf operand).isSome

/-! ## Lambdas -/

structure LambdaComponents where
  /-- Where the body stands among the lambda's operands. -/
  bodyIndex : Nat
  names : List String
  deriving DecidableEq, Repr

def variableName : Operand → String
  | .var name => name
  | _ => ""

/-- A lambda's body and its variables. With one variable the planner does not fix
the order of the two operands: the variable is the bare name. Two variables
follow the body. -/
def lambdaComponents (lambda : Operand) : Except Thrown LambdaComponents :=
  match lambda with
  | .expression .lambda [_, first, second] =>
      if looksLikeLambdaVariable first && looksLikeLambdaVariable second then
        .ok { bodyIndex := 0, names := [variableName first, variableName second] }
      else .error (.unsupported
        "A two-variable lambda requires its body followed by two variable operands")
  | .expression .lambda [first, second] =>
      if looksLikeLambdaVariable second then
        .ok { bodyIndex := 0, names := [variableName second] }
      else if looksLikeLambdaVariable first then
        .ok { bodyIndex := 1, names := [variableName first] }
      else .error (.unsupported "Lambda requires a variable operand")
  | .expression .lambda _ =>
      .error (.unsupported "Lambda requires a body and one or two variables")
  | _ => .error (.unsupported "Expected a lambda operand")

/-- The macro's lambda as a function of one collection item: its number of
variables, and its body under their values. -/
structure Lambda where
  arity : Nat
  body : List Value → Result

namespace Call

/-- The operand at an index, or the failure that names its role. -/
def operandAt (call : Call) (index : Nat) (role : String) : Except Thrown Operand :=
  match call.operands[index]? with
  | some operand => .ok operand
  | none => .error (.unsupported (call.operator.name ++ " " ++ role))

/-- Evaluate the operand at an index. -/
def arg (call : Call) (index : Nat) (role : String) : Result :=
  match call.evaluators[index]? with
  | some evaluator => evaluator call.scope
  | none => .error (.unsupported (call.operator.name ++ " " ++ role))

end Call

/-- The scope in which a variable has a value. -/
def Scope.set (scope : Scope) (name : String) (v : Value) : Scope :=
  { scope with bindings := scope.bindings.set name v }

/-- The scope inside a lambda whose variables have values. -/
def Scope.bindVariables (scope : Scope) (names : List String) (values : List Value) : Scope :=
  (names.zip values).foldl (fun scope (name, v) => scope.set name v) scope

def lambdaOf (call : Call) : Except Thrown Lambda := do
  let lambda ← call.operandAt 1 "lambda"
  let components ← lambdaComponents lambda
  match (call.innerEvaluators.getD 1 [])[components.bodyIndex]? with
  | none => throw .typeError
  | some evaluator =>
      return {
        arity := components.names.length
        body := fun values => evaluator (call.scope.bindVariables components.names values) }

/-! ## Collections -/

/-- Whether a key is one that `Object.keys` lists first, as a number. -/
def isArrayIndexKey (key : String) : Bool :=
  key.toList ≠ [] && key.toList.all isDigit && decimalValue key.toList < 2 ^ 32 - 1 &&
    (key.toList.head? ≠ some '0' || key.toList.length = 1)

/-- `Object.entries`: the index keys in numeric order, then the others as inserted. -/
def ownEntries (fields : List (String × Value)) : List (String × Value) :=
  (fields.filter fun field => isArrayIndexKey field.1).insertionSort
      (fun a b => decimalValue a.1.toList ≤ decimalValue b.1.toList) ++
    fields.filter fun field => !isArrayIndexKey field.1

/-- The pairs a two-variable comprehension binds: a list's indices and elements,
or a map's keys and values. -/
def comprehensionPairs : Outcome → Option (List (List Value))
  | .value (.array items) =>
      some (items.zipIdx.map fun (item, index) => [.number (.finite index), item])
  | .value (.record fields) =>
      some ((ownEntries fields).map fun (key, v) => [.string key, v])
  | _ => none

/-- What a macro ranges over, and what `in` tests: a list's elements, or a map's keys. -/
def macroItems : Outcome → Option (List Value)
  | .value (.array items) => some items
  | .value (.record fields) => some ((ownEntries fields).map fun (key, _) => .string key)
  | _ => none

def listContains (list : List Value) (v : Value) : Bool :=
  list.any fun member => Value.valuesEqual member v

/-! ## Operator families -/

/-- Run evaluations from the left as CEL's `&&` or `||`: a decisive one wins over
an error in any position, and what follows it is not run. -/
def junctionLoop (decisive : Bool) : (sawError : Bool) → List Result → Result
  | sawError, [] => .ok (if sawError then .error else .value (.bool (!decisive)))
  | sawError, result :: results => do
      match (← result).asBoolean with
      | .unknown => junctionLoop decisive true results
      | .yes => if decisive then .ok (.value (.bool true)) else junctionLoop decisive sawError results
      | .no => if decisive then junctionLoop decisive sawError results else .ok (.value (.bool false))

def junction (decisive : Bool) (call : Call) : Result :=
  junctionLoop decisive false (call.evaluators.map (· call.scope))

def comparison (operator : ComparisonOperator) (call : Call) : Result := do
  let left ← call.arg 0 "left operand"
  let right ← call.arg 1 "right operand"
  return compareValues operator left right

def stringTest (argumentRole : String) (test : (receiver argument : String) → Bool)
    (call : Call) : Result := do
  let receiver ← call.arg 0 "receiver"
  let argument ← call.arg 1 argumentRole
  match receiver, argument with
  | .value (.string receiver), .value (.string argument) =>
      return .value (.bool (test receiver argument))
  | _, _ => return .error

inductive Quantifier where
  | exists | existsOne | all
  deriving DecidableEq, Repr

/-- The loop of `exists`, `exists_one` and `all` over the bodies' evaluations,
with CEL's error absorption across elements. -/
def quantifierLoop (quantifier : Quantifier) :
    (trueCount : Nat) → (sawError : Bool) → List Result → Result
  | trueCount, sawError, [] =>
      .ok <|
        if sawError then .error
        else match quantifier with
          | .exists => .value (.bool false)
          | .existsOne => .value (.bool (trueCount = 1))
          | .all => .value (.bool true)
  | trueCount, sawError, result :: results => do
      match (← result).asBoolean with
      | .yes =>
          if quantifier = .exists then .ok (.value (.bool true))
          else quantifierLoop quantifier (trueCount + 1) sawError results
      | .no =>
          if quantifier = .all then .ok (.value (.bool false))
          else quantifierLoop quantifier trueCount sawError results
      | .unknown => quantifierLoop quantifier trueCount true results

def quantifier (quantifier : Quantifier) (call : Call) : Result := do
  let lambda ← lambdaOf call
  let target ← call.arg 0 "collection"
  let items :=
    if lambda.arity = 2 then comprehensionPairs target
    else (macroItems target).map fun items => items.map fun item => [item]
  match items with
  | none => return .error
  | some items => quantifierLoop quantifier 0 false (items.map lambda.body)

/-- `filter()`: an error in any body is the whole list's. -/
def filterLoop (body : List Value → Result) : (filtered : List Value) → List Value → Result
  | filtered, [] => .ok (.value (.array filtered))
  | filtered, item :: items => do
      match (← body [item]).asBoolean with
      | .unknown => .ok .error
      | .yes => filterLoop body (filtered ++ [item]) items
      | .no => filterLoop body filtered items

/-- `map()`, and the elements of a list literal. -/
def collectLoop : (collected : List Value) → List Result → Result
  | collected, [] => .ok (.value (.array collected))
  | collected, result :: results => do
      match ← result with
      | .error => .ok .error
      | .value v => collectLoop (collected ++ [v]) results

def indeterminateZeroDivisorMessage : String :=
  "division by a constant zero whose sign is indeterminate: a query plan is " ++
    "JSON-encoded on its way into a Convex function and JSON has no -0, so the " ++
    "adapter cannot tell +Infinity from -Infinity"

/-- The nanoseconds of a temporal operand; a timestamp is held as a bigint. -/
def nanosOf : Outcome → Option Int
  | .value (.duration nanos) => some nanos
  | .value (.bigint nanos) => some nanos
  | _ => none

/-- A timestamp, an error outside the years 1 to 9999. -/
def checkedTimestamp (nanos : Int) : Outcome :=
  if nanos < minTimestampNanos ∨ maxTimestampNanos < nanos then .error else .value (.bigint nanos)

/-- `+` and `-` with a timestamp or a duration operand. -/
def temporalArithmetic (call : Call) : Result := do
  let kinds := call.operands.map temporalKindOf
  let kind := temporalResultKind call.operator (kinds.getD 0 none) (kinds.getD 1 none)
  let left ← call.arg 0 "left"
  let right ← call.arg 1 "right"
  match kind, nanosOf left, nanosOf right with
  | some kind, some a, some b =>
      let nanos := if call.operator = .add then a + b else a - b
      return if kind = .timestamp then checkedTimestamp nanos else checkedDuration nanos
  | _, _, _ => return .error

section Arithmetic

variable [Double.Rounding]

/-- Arithmetic outside CEL's int overloads: strings and lists concatenate, and
two numbers combine as doubles. -/
def looseArithmetic (operator : ArithmeticOperator) (call : Call) (left right : Value) : Result :=
  match operator, left, right with
  | .add, .string a, .string b => .ok (.value (.string (a ++ b)))
  | .add, .array a, .array b => .ok (.value (.array (a ++ b)))
  | .add, .number a, .number b => .ok (.value (.number (a.add b)))
  | .sub, .number a, .number b => .ok (.value (.number (a.sub b)))
  | .mult, .number a, .number b => .ok (.value (.number (a.mul b)))
  | .div, .number a, .number b =>
      -- Backstop for zeros only computed at evaluation time. A zero read from the
      -- document is exempt: it keeps its sign.
      if b.isZero && !a.isZero && !call.operands[1]?.any (isDocumentField call.scope.isBound) then
        .error (.unsupported indeterminateZeroDivisorMessage)
      else .ok (.value (.number (a.div b)))
  | .mod, .number a, .number b =>
      -- CEL's `%` has int overloads only, and a document field is never an int.
      if call.operands.any Operand.isVariable || b.isZero then .ok .error
      else .ok (.value (.number (a.rem b)))
  | _, _, _ => .ok .error

def arithmetic (operator : ArithmeticOperator) (call : Call) : Result := do
  if isTemporalNode call.operator call.operands then temporalArithmetic call
  else
    let left ← call.arg 0 "left"
    let right ← call.arg 1 "right"
    match arithmeticMode call.scope.isBound call.operator call.operands, left, right with
    | .int, left, right => return intArithmetic operator left right
    | .loose, .value left, .value right => looseArithmetic operator call left right
    | _, _, _ => return .error

end Arithmetic

inductive HierarchyRelation where
  | ancestorOf | descendentOf | overlaps
  deriving DecidableEq, Repr

def hierarchyRelation (relation : HierarchyRelation) (call : Call) : Result := do
  let left ← call.arg 0 "left"
  let right ← call.arg 1 "right"
  match left, right with
  | .value (.hierarchy left), .value (.hierarchy right) =>
      return .value <| .bool <| match relation with
        | .ancestorOf => isStrictAncestor left right
        | .descendentOf => isStrictAncestor right left
        | .overlaps => hierarchiesOverlap left right
  | _, _ => return .error

/-- Cerbos's list operations: both operands lists, or an error. -/
def listOperation (operation : (left right : List Value) → Value) (call : Call) : Result := do
  let left ← call.arg 0 "left"
  let right ← call.arg 1 "right"
  match left, right with
  | .value (.array left), .value (.array right) => return .value (operation left right)
  | _, _ => return .error

/-- The elements of the shorter list, the first on a tie, that the longer one holds. -/
def intersect (left right : List Value) : Value :=
  if right.length < left.length then .array (right.filter (listContains left))
  else .array (left.filter (listContains right))

end QueryPlanAdapters.Convex
