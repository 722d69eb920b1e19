import QueryPlanAdapters.Convex.Operators

/-!
# Convex: the in-memory evaluator

The post-filter that answers, one document at a time, every part of a plan that
Convex's filter engine cannot. `evaluateOperator` is the operator roster;
`evaluate` runs it over a tree.
-/

namespace QueryPlanAdapters.Convex

/-- `DURATION_UNITS[unit]` over a plain object. -/
def durationUnit (text : String) : UnitEntry :=
  match durationUnits.lookup text with
  | some nanos => .nanos nanos
  | none => if objectPrototypeMembers.contains text then .inherited else .missing

def evaluateNot (call : Call) : Result := do
  let operand ← call.arg 0 "operand"
  return .ofTruth operand.asBoolean.not

def evaluateIn (call : Call) : Result := do
  let needle ← call.arg 0 "needle"
  let haystack ← call.arg 1 "haystack"
  match needle, macroItems haystack with
  | .value needle, some members => return .value (.bool (listContains members needle))
  | _, _ => return .error

def evaluateMatches (call : Call) : Result := do
  let receiver ← call.arg 0 "receiver"
  let pattern ← call.arg 1 "pattern"
  match receiver, pattern with
  | .value (.string receiver), .value (.string pattern) =>
      match parseSafeRegexPattern pattern with
      | some safePattern => return .value (.bool (matchesSafeRegexPattern receiver safePattern))
      | none => return .error
  | _, _ => return .error

/-- The constant key of a `set-field` entry. -/
def entryKey : Operand → Option String
  | .expression _ (.value (.string key) :: _) => some key
  | _ => none

/-- A map literal's entries in order. A repeated key is an error, as is an
erroneous value; an entry validation would refuse is a type error. -/
def structLoop (scope : Scope) : (entries : List (String × Value)) →
    List (Operand × List Evaluator) → Result
  | entries, [] => .ok (.value (.record entries))
  | entries, (entry, evaluators) :: rest =>
      match entryKey entry, evaluators[1]? with
      | some key, some evaluator => do
          match ← evaluator scope with
          | .error => .ok .error
          | .value v =>
              if (entries.lookup key).isSome then .ok .error
              else structLoop scope (entries ++ [(key, v)]) rest
      | _, _ => .error .typeError

def evaluateStruct (call : Call) : Result :=
  structLoop call.scope [] (call.operands.zip call.innerEvaluators)

def evaluateFilter (call : Call) : Result := do
  match macroItems (← call.arg 0 "collection") with
  | none => return .error
  | some items =>
      let lambda ← lambdaOf call
      filterLoop lambda.body [] items

def evaluateMap (call : Call) : Result := do
  match macroItems (← call.arg 0 "collection") with
  | none => return .error
  | some items =>
      let lambda ← lambdaOf call
      collectLoop [] (items.map fun item => lambda.body [item])

/-- A map is read by key, a list by an index in its range. -/
def indexInto : (collection index : Outcome) → Outcome
  | .value (.record fields), .value (.string key) =>
      match fields.lookup key with
      | some v => .value v
      | none => .error
  | .value (.array items), .value (.number index) =>
      if index.isInteger && 0 ≤ index.trunc then
        match items[index.trunc.toNat]? with
        | some v => .value v
        | none => .error
      else .error
  | _, _ => .error

def evaluateIndex (call : Call) : Result := do
  let collection ← call.arg 0 "collection"
  let index ← call.arg 1 "value"
  return indexInto collection index

/-- The field a `get-field` names: a variable's name or a string literal. -/
def fieldName : Operand → Option String
  | .var name => some name
  | .value (.string name) => some name
  | _ => none

def evaluateGetField (call : Call) : Result := do
  let target ← call.arg 0 "target"
  let fieldOperand ← call.operandAt 1 "name"
  match fieldName fieldOperand with
  | some field =>
      if field = "" then return .error
      else return readPath (getNestedValue target field) call.scope
  | none => return .error

def sizeOf : Outcome → Outcome
  | .value (.string s) => .value (.number (.finite s.length))
  | .value (.array items) => .value (.number (.finite items.length))
  | .value (.record fields) => .value (.number (.finite fields.length))
  | _ => .error

def convertToUpperAscii : Outcome → Outcome
  | .value (.string s) => .value (.string (upperAscii s))
  | _ => .error

/-- A conversion of the only operand. -/
def conversion (convert : Outcome → Outcome) (call : Call) : Result := do
  let operand ← call.arg 0 "operand"
  return convert operand

def convertToTimestamp : Outcome → Outcome
  | .value (.string s) =>
      match parseRfc3339Timestamp s with
      | some nanos => .value (.bigint nanos)
      | none => .error
  | _ => .error

/-- Whether the only operand is certainly a timestamp. -/
def evaluateTimeSince (call : Call) : Result := do
  let operand ← call.operandAt 0 "operand"
  let v ← call.arg 0 "operand"
  match temporalKindOf operand, v with
  | some .timestamp, .value (.bigint nanos) =>
      return .value (.duration (saturatedSince (call.scope.now * 1000000) nanos))
  | _, _ => return .error

def evaluateIf (call : Call) : Result := do
  let condition ← call.arg 0 "condition"
  match condition.asBoolean with
  | .unknown => return .error
  | .yes => call.arg 1 "selected branch"
  | .no => call.arg 2 "selected branch"

/-- The segments of a list of strings. -/
def stringSegments : List Value → Option (List String)
  | [] => some []
  | .string s :: items => (stringSegments items).map (s :: ·)
  | _ :: _ => none

def evaluateHierarchy (call : Call) : Result := do
  let v ← call.arg 0 "value"
  match call.evaluators[1]? with
  | some evaluator =>
      match v, ← evaluator call.scope with
      | .value (.string s), .value (.string delimiter) =>
          return .value (.hierarchy (splitDelimited s delimiter))
      | _, _ => return .error
  | none =>
      match v with
      | .value (.string s) => return .value (.hierarchy (splitDelimited s "."))
      | .value (.hierarchy segments) => return .value (.hierarchy segments)
      | .value (.array items) =>
          match stringSegments items with
          | some segments => return .value (.hierarchy segments)
          | none => return .error
      | _ => return .error

section Roster

variable [Double.Rounding]

/-- `duration()`. A unit text that the unit table only inherits throws. -/
def convertToDuration (operand : Outcome) : Result :=
  match operand with
  | .value (.string s) =>
      match parseDuration durationUnit s with
      | .duration nanos => .ok (.value (.duration nanos))
      | .error => .ok .error
      | .typeError => .error .typeError
  | _ => .ok .error

def evaluateDuration (call : Call) : Result := do
  let operand ← call.arg 0 "operand"
  convertToDuration operand

/-- `string()`. An int renders "1000000" where a double of the same value renders "1e+06". -/
def evaluateString (call : Call) : Result := do
  let operand ← call.arg 0 "operand"
  return convertToString operand (call.operands[0]?.any fun o => numericTypeOf o = some .int)

/-- The operator roster. -/
def evaluateOperator (call : Call) : Result :=
  match call.operator with
  | .and => junction false call
  | .or => junction true call
  | .not => evaluateNot call
  | .eq => comparison .eq call
  | .ne => comparison .ne call
  | .lt => comparison .lt call
  | .le => comparison .le call
  | .gt => comparison .gt call
  | .ge => comparison .ge call
  | .in => evaluateIn call
  | .contains => stringTest "needle" includesText call
  | .startsWith => stringTest "prefix" startsWithText call
  | .endsWith => stringTest "suffix" endsWithText call
  | .matches => evaluateMatches call
  | .except =>
      listOperation (fun left right => .array (left.filter fun v => !listContains right v)) call
  | .intersect => listOperation intersect call
  | .isSubset => listOperation (fun left right => .bool (left.all (listContains right))) call
  | .list => collectLoop [] (call.evaluators.map (· call.scope))
  | .struct => evaluateStruct call
  | .setField =>
      .error (.unsupported "set-field is only meaningful as a map literal's entry")
  | .hasIntersection =>
      listOperation
        (fun left right => .bool (left.any fun l => right.any fun r => l.valuesEqual r)) call
  | .exists => quantifier .exists call
  | .existsOne => quantifier .existsOne call
  | .all => quantifier .all call
  | .filter => evaluateFilter call
  | .map => evaluateMap call
  | .lambda => .error (.unsupported "lambda should not be evaluated directly")
  | .add => arithmetic .add call
  | .sub => arithmetic .sub call
  | .mult => arithmetic .mult call
  | .div => arithmetic .div call
  | .mod => arithmetic .mod call
  | .index => evaluateIndex call
  | .getField => evaluateGetField call
  | .size => conversion sizeOf call
  | .string => evaluateString call
  | .double => conversion convertToDouble call
  | .int => conversion convertToInt call
  | .upperAscii => conversion convertToUpperAscii call
  | .duration => evaluateDuration call
  | .timeSince => evaluateTimeSince call
  | .timestamp => conversion convertToTimestamp call
  | .if => evaluateIf call
  | .hierarchy => evaluateHierarchy call
  | .ancestorOf => hierarchyRelation .ancestorOf call
  | .descendentOf => hierarchyRelation .descendentOf call
  | .overlaps => hierarchyRelation .overlaps call
  | .nin => .error (.unsupported "Unsupported operator: nin")
  | .other spelling => .error (.unsupported ("Unsupported operator: " ++ spelling))

mutual

/-- Evaluate an operand against one document. -/
def evaluate : Operand → Evaluator
  | .value literal, _ => .ok (.value (.ofJson literal))
  | .var name, scope => .ok (lookUp name scope)
  | .expression operator operands, scope =>
      evaluateOperator { operator, operands, scope, evaluators := evaluators operands,
                         innerEvaluators := innerEvaluators operands }

def evaluators : List Operand → List Evaluator
  | [] => []
  | operand :: operands => (fun scope => evaluate operand scope) :: evaluators operands

def innerEvaluators : List Operand → List (List Evaluator)
  | [] => []
  | .expression _ inner :: operands => evaluators inner :: innerEvaluators operands
  | _ :: operands => [] :: innerEvaluators operands

end

theorem evaluators_eq_map (operands : List Operand) :
    evaluators operands = operands.map evaluate := by
  induction operands with
  | nil => rfl
  | cons operand operands ih => simp only [evaluators, ih, List.map_cons]

theorem innerEvaluators_eq_map (operands : List Operand) :
    innerEvaluators operands = operands.map fun operand => operand.operands.map evaluate := by
  induction operands with
  | nil => rfl
  | cons operand operands ih =>
      cases operand with
      | value literal => simp [innerEvaluators, Operand.operands, ih]
      | var name => simp [innerEvaluators, Operand.operands, ih]
      | expression operator inner =>
          simp [innerEvaluators, Operand.operands, ih, evaluators_eq_map]

/-- The call an expression's operator receives. -/
def callOf (operator : PlanOperator) (operands : List Operand) (scope : Scope) : Call :=
  { operator, operands, scope
    evaluators := operands.map evaluate
    innerEvaluators := operands.map fun operand => operand.operands.map evaluate }

theorem evaluate_expression (operator : PlanOperator) (operands : List Operand) (scope : Scope) :
    evaluate (.expression operator operands) scope =
      evaluateOperator (callOf operator operands scope) := by
  rw [evaluate, evaluators_eq_map, innerEvaluators_eq_map, callOf]

/-- A macro's lambda evaluates its body under the variables' values. -/
theorem lambdaOf_callOf {operator : PlanOperator} {operands : List Operand} {scope : Scope}
    {lambda body : Operand} {components : LambdaComponents} (hlambda : operands[1]? = some lambda)
    (hcomponents : lambdaComponents lambda = .ok components)
    (hbody : lambda.operands[components.bodyIndex]? = some body) :
    lambdaOf (callOf operator operands scope) =
      .ok { arity := components.names.length
            body := fun values => evaluate body (scope.bindVariables components.names values) } := by
  simp [lambdaOf, Call.operandAt, callOf, hlambda, hcomponents, List.getD_eq_getElem?_getD, hbody,
    bind, Except.bind, pure, Except.pure]

@[simp] theorem evaluate_value (literal : Json) (scope : Scope) :
    evaluate (.value literal) scope = .ok (.value (.ofJson literal)) := by
  rw [evaluate]

@[simp] theorem evaluate_var (name : String) (scope : Scope) :
    evaluate (.var name) scope = .ok (lookUp name scope) := by
  rw [evaluate]

end Roster

end QueryPlanAdapters.Convex
