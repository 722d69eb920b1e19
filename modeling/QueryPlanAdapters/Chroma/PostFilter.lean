import QueryPlanAdapters.Chroma.Comparison
import QueryPlanAdapters.Convex.Operators

/-!
# ChromaDB: the post-filter

The part of a plan that Chroma's `Where` grammar cannot hold is compiled into a predicate
over one record's metadata. Compiling tracks what each operand's CEL type certainly is and
refuses where an answer would turn on a type that the plan dropped. What it returns is a
type and a function that runs on a record.
-/

namespace QueryPlanAdapters.Chroma

abbrev Operand := QueryPlanAdapters.Operand FiniteDouble

/-- What compiling throws: an `UnsupportedOperatorError`, or a plain `Error`. -/
inductive Refusal where
  | unsupported (operator message : String)
  | error (message : String)
  deriving DecidableEq

/-- What a compiled predicate can throw: `BigInt()` of a number that is no integer. -/
inductive Thrown where
  | rangeError
  deriving DecidableEq

abbrev Result := Except Thrown Outcome

/-! ## Static types -/

inductive StaticType where
  /-- Certainly a CEL int. -/
  | int
  /-- Certainly a CEL double. -/
  | double
  /-- An integral numeric literal, which the policy wrote either way. -/
  | ambiguous
  /-- A metadata read. -/
  | «attribute»
  | timestamp
  | duration
  /-- Certainly not a number. -/
  | other
  | unknown
  deriving DecidableEq, Repr

def StaticType.name : StaticType → String
  | int => "int"
  | double => "double"
  | ambiguous => "ambiguous"
  | «attribute» => "attribute"
  | timestamp => "timestamp"
  | duration => "duration"
  | other => "other"
  | unknown => "unknown"

/-- How a refused conversion names the overload its operand may select. -/
def mayBe : StaticType → String
  | .int => "an int"
  | .ambiguous => "an int"
  | .double => "a double"
  | .attribute => "a stored value"
  | .timestamp => "a timestamp"
  | .duration => "a duration"
  | .other => "a string, bool, list or map"
  | .unknown => "of a type the plan does not carry"

/-- The static type of a ternary: its branches' where they agree, and a number only where
that is certain. -/
def joinTypes (a b : StaticType) : StaticType :=
  if a = b then a
  else if a = .ambiguous || b = .ambiguous then
    if a = .int || b = .int then .int
    else if a = .double || b = .double then .double
    else .unknown
  else if [a, b].all fun t => t = .attribute || t = .double || t = .other then .attribute
  else .unknown

/-! ## The compiled form -/

structure Env where
  metadata : List (String × Json)
  /-- Lambda variables in scope. -/
  bindings : List (String × Value)

structure Compiled where
  type : StaticType
  run : Env → Result

/-- What the post-filter needs from the caller's mapper. -/
structure PostFilterFields where
  isMapped : String → Bool
  metadataKey : String → String
  isBoolean : String → Bool

structure Context where
  fields : PostFilterFields
  /-- The static type of each lambda variable in scope. -/
  bindings : List (String × StaticType)
  /-- The operator around the operand being compiled, which the refusal of a leaf reports. -/
  parent : PlanOperator

abbrev Compiler := Context → Except Refusal Compiled

/-- An operand with its compiler, and those of its own operands: a macro compiles the body
of its lambda, and an index the entries of a map literal. -/
inductive CompilerTree where
  | node (operand : Operand) (compile : Compiler) (operands : List CompilerTree)

namespace CompilerTree

def operand : CompilerTree → Operand
  | node operand _ _ => operand

def compile : CompilerTree → Compiler
  | node _ compile _ => compile

def operands : CompilerTree → List CompilerTree
  | node _ _ operands => operands

/-- The trees of the operands of one operator's expression. -/
def operandsOf (operator : PlanOperator) (tree : CompilerTree) : Option (List CompilerTree) :=
  match tree.operand with
  | .expression op _ => if op = operator then some tree.operands else none
  | _ => none

end CompilerTree

def constant (type : StaticType) (v : Value) : Compiled where
  type
  run _ := .ok (.value v)

/-! ## Leaves -/

mutual

def containsNull : Json → Bool
  | .null => true
  | .array items => containsNullItems items
  | .object fields => containsNullFields fields
  | _ => false

def containsNullItems : List Json → Bool
  | [] => false
  | item :: items => containsNull item || containsNullItems items

def containsNullFields : List (String × Json) → Bool
  | [] => false
  | (_, field) :: fields => containsNull field || containsNullFields fields

end

def compileValue (literal : Json) : Compiler := fun ctx =>
  if containsNull literal then
    .error (.unsupported ctx.parent.name (ctx.parent.name ++
      " compares a null literal, and Chroma metadata has no null: a record cannot tell an " ++
      "explicit null attribute from a missing one"))
  else match literal with
    | .number n =>
        .ok (constant (if n.value.isInteger then .ambiguous else .double) (.number n.value))
    | literal => .ok (constant .other (.ofJson literal))

/-- A metadata key as CEL reads the attribute: scalar metadata only. -/
def readMetadata (metadata : List (String × Json)) (key : String) : Outcome :=
  match metadata.lookup key with
  | some (.string s) => .value (.string s)
  | some (.bool b) => .value (.bool b)
  | some (.number n) => .value (.number n.value)
  | _ => .error

/-- A lambda variable. Compiling has found it in scope. -/
def readBinding (bindings : List (String × Value)) (name : String) : Outcome :=
  match bindings.lookup name with
  | some v => .value v
  | none => .error

def compileVariable (name : String) : Compiler := fun ctx =>
  match ctx.bindings.lookup (referenceRoot name) with
  | some bound =>
      match referenceRest name with
      | none => .ok { type := bound, run := fun env => .ok (readBinding env.bindings name) }
      | some path =>
          .ok {
            type := .unknown
            run := fun env =>
              .ok (getNestedValue (readBinding env.bindings (referenceRoot name)) path) }
  | none =>
      if !ctx.fields.isMapped name then
        .error (.unsupported ctx.parent.name (name ++
          " has no fieldNameMapper entry, so the post-filter cannot read it: an attribute the " ++
          "mapping does not declare is one a Chroma record may not store (a list, a relation), " ++
          "and reading it as missing would deny records the PDP allows"))
      else
        let key := ctx.fields.metadataKey name
        .ok {
          type := if ctx.fields.isBoolean name then .other else .attribute
          run := fun env => .ok (readMetadata env.metadata key) }

/-! ## Operand helpers -/

def compileOne (trees : List CompilerTree) (ctx : Context) : Except Refusal Compiled :=
  match trees with
  | [operand] => operand.compile ctx
  | _ => .error (.error "Expected exactly one operand")

def compileTwo (trees : List CompilerTree) (ctx : Context) :
    Except Refusal (Compiled × Compiled) :=
  match trees with
  | [left, right] => do
      let left ← left.compile ctx
      let right ← right.compile ctx
      return (left, right)
  | _ => .error (.error "Expected exactly two operands")

/-- Evaluate each compiled operand; an error ends the evaluation. -/
def runAll : List Compiled → Env → Except Thrown (Option (List Value))
  | [], _ => .ok (some [])
  | operand :: operands, env => do
      match ← operand.run env with
      | .error => return none
      | .value v => return (← runAll operands env).map (v :: ·)

/-- An operator of one operand whose result is a function of its value. -/
def strictOne (type : StaticType) (apply : Value → Outcome) (trees : List CompilerTree) :
    Compiler := fun ctx => do
  let operand ← compileOne trees ctx
  return {
    type
    run := fun env => do
      match ← runAll [operand] env with
      | some [v] => return apply v
      | _ => return .error }

/-- An operator of two operands whose result is a function of their values. -/
def strictTwo (type : StaticType) (apply : (left right : Value) → Outcome)
    (trees : List CompilerTree) : Compiler := fun ctx => do
  let (left, right) ← compileTwo trees ctx
  return {
    type
    run := fun env => do
      match ← runAll [left, right] env with
      | some [l, r] => return apply l r
      | _ => return .error }

/-- An operand in a boolean position, where a list has no place. -/
def compileCondition (tree : CompilerTree) : Compiler := fun ctx =>
  match tree.operand with
  | .expression .filter _ | .expression .map _ =>
      let operator := if (tree.operandsOf .filter).isSome then "filter" else "map"
      .error (.unsupported operator
        (operator ++ "() returns a list, not a boolean, so it cannot be a condition on its own"))
  | _ => tree.compile ctx

/-! ## Operator families -/

/-- CEL's commutative `&&` and `||`: a deciding operand wins over an error in any position. -/
def junctionLoop (decisive : Bool) : (sawError : Bool) → List Compiled → Env → Result
  | sawError, [], _ => .ok (if sawError then .error else .value (.bool (!decisive)))
  | sawError, operand :: operands, env => do
      match (← operand.run env).asBoolean with
      | .unknown => junctionLoop decisive true operands env
      | .yes =>
          if decisive then .ok (.value (.bool true)) else junctionLoop decisive sawError operands env
      | .no =>
          if decisive then junctionLoop decisive sawError operands env else .ok (.value (.bool false))

def junction (decisive : Bool) (trees : List CompilerTree) : Compiler := fun ctx => do
  if trees.length < 2 then .error (.error "Expected at least 2 operands")
  else
    let compiled ← trees.mapM fun tree => compileCondition tree ctx
    return { type := .other, run := junctionLoop decisive false compiled }

def negation (trees : List CompilerTree) : Compiler := fun ctx => do
  match trees with
  | [operand] =>
      let compiled ← compileCondition operand ctx
      return { type := .other, run := fun env => return .ofTruth (← compiled.run env).asBoolean.not }
  | _ => .error (.error "Expected exactly one operand")

def comparison (operator : ComparisonOperator) : List CompilerTree → Compiler :=
  strictTwo .other fun left right => compareValues operator (.value left) (.value right)

def stringTest (test : (receiver argument : String) → Bool) : List CompilerTree → Compiler :=
  strictTwo .other fun receiver argument =>
    match receiver, argument with
    | .string receiver, .string argument => .value (.bool (test receiver argument))
    | _, _ => .error

/-! ## Arithmetic -/

inductive Mode where
  /-- CEL int arithmetic. -/
  | int
  /-- Double arithmetic, and the concatenation of strings and of lists. -/
  | dynamic
  /-- A no-such-overload error on every record. -/
  | error
  deriving DecidableEq, Repr

/-- How CEL evaluates an operator over operands of these static types, or a refusal where
that turns on a type the plan does not carry. -/
def arithmeticMode (operator : PlanOperator) (left right : StaticType) : Except Refusal Mode :=
  let has := fun type : StaticType => left = type || right = type
  let intLike := fun type : StaticType => type = .int || type = .ambiguous
  if has .unknown || has .timestamp then
    .error (.unsupported operator.name (operator.name ++
      " over an operand whose CEL type the plan does not carry (a list element, a mixed " ++
      "ternary or a timestamp) cannot be evaluated exactly"))
  else if operator = .mod then .ok (if intLike left && intLike right then .int else .error)
  else if has .int then
    if intLike left && intLike right then .ok .int
    else if has .double then
      .error (.unsupported operator.name
        (operator.name ++ " mixes an int with a double, which does not type-check"))
    else .ok .error
  else if has .double then .ok .dynamic
  else if has .ambiguous && has .attribute then
    .error (.unsupported operator.name (operator.name ++
      " meets an integral literal next to a stored number, and the plan does not carry whether " ++
      "it was written as an int or a double: CEL arithmetic has no int/double overload, so " ++
      "`R.attr.x + 1` is an error where `R.attr.x + 1.0` is not"))
  else if left = .ambiguous && right = .ambiguous then
    .error (.unsupported operator.name (operator.name ++
      " over two integral literals, and the plan does not carry whether each was written as an " ++
      "int or a double: `0 / 0` is an error where `0.0 / 0.0` is NaN"))
  else .ok .dynamic

/-- The result type of timestamp and duration arithmetic, none where neither operand is a
timestamp or a duration. -/
def temporalType (operator : PlanOperator) (left right : StaticType) :
    Except Refusal (Option StaticType) :=
  let temporal := fun type : StaticType => type = .timestamp || type = .duration
  if !temporal left && !temporal right then .ok none
  else match operator, left, right with
    | .add, .timestamp, .duration | .add, .duration, .timestamp => .ok (some .timestamp)
    | .add, .duration, .duration => .ok (some .duration)
    | .sub, .timestamp, .duration => .ok (some .timestamp)
    | .sub, .timestamp, .timestamp | .sub, .duration, .duration => .ok (some .duration)
    | operator, left, right =>
        .error (.unsupported operator.name (operator.name ++ " over a " ++ left.name ++ " and a " ++
          right.name ++ ": the post-filter evaluates a timestamp plus or minus a duration, the " ++
          "difference of two timestamps and the sum or difference of two durations only"))

def signedZeroMessage : String :=
  "the chromadb client stores metadata through JSON, which writes -0.0 as 0, so a stored zero's " ++
    "sign is lost"

mutual

/-- Whether the operand's value can depend on a metadata read. -/
def readsMetadata (bindings : List (String × StaticType)) : Operand → Bool
  | .value _ => false
  | .var name => (bindings.lookup (referenceRoot name)).isNone
  | .expression _ operands => someReadsMetadata bindings operands

def someReadsMetadata (bindings : List (String × StaticType)) : List Operand → Bool
  | [] => false
  | operand :: operands => readsMetadata bindings operand || someReadsMetadata bindings operands

end

/-- cel-go's timestamp and duration arithmetic. -/
def temporalArithmetic (operator : PlanOperator) (left right : Value) : Outcome :=
  let combine := fun a b : Int => if operator = .add then a + b else a - b
  match left, right with
  | .timestamp a, .duration b => .value (.timestamp (combine a b))
  | .duration a, .timestamp b => if operator = .add then .value (.timestamp (a + b)) else .error
  | .duration a, .duration b => checkedDuration (combine a b)
  | .timestamp a, .timestamp b => if operator = .sub then checkedDuration (a - b) else .error
  | _, _ => .error

section Arithmetic

variable [Double.Rounding]

def dynamicArithmetic (operator : ArithmeticOperator) (left right : Value) : Outcome :=
  match operator, left, right with
  | .add, .number a, .number b => .value (.number (a.add b))
  | .sub, .number a, .number b => .value (.number (a.sub b))
  | .mult, .number a, .number b => .value (.number (a.mul b))
  | .div, .number a, .number b => .value (.number (a.div b))
  | .add, .string a, .string b => .value (.string (a ++ b))
  | .add, .array a, .array b => .value (.array (a ++ b))
  | _, _, _ => .error

/-- The static type of arithmetic outside the temporal overloads. -/
def arithmeticType (mode : Mode) (left right : StaticType) : StaticType :=
  match mode with
  | .int => .int
  | .error => .other
  | .dynamic =>
      if left = .double || right = .double then .double
      else if left = .attribute || right = .attribute then .attribute
      else .other

def arithmetic (operator : PlanOperator) (op : ArithmeticOperator) (trees : List CompilerTree) :
    Compiler := fun ctx => do
  let (left, right) ← compileTwo trees ctx
  let runBoth := fun (apply : Value → Value → Outcome) (env : Env) => do
    match ← runAll [left, right] env with
    | some [l, r] => return apply l r
    | _ => return .error
  match ← temporalType operator left.type right.type with
  | some type => return { type, run := runBoth (temporalArithmetic operator) }
  | none =>
      let mode ← arithmeticMode operator left.type right.type
      if operator = .div && mode = .dynamic &&
          trees[1]?.any fun tree => readsMetadata ctx.bindings tree.operand then
        .error (.unsupported "div" ("div by a value read from metadata: " ++ signedZeroMessage ++
          ", and IEEE division by a zero gives the infinity of its sign"))
      else
        return {
          type := arithmeticType mode left.type right.type
          run := runBoth fun l r =>
            match mode with
            | .error => .error
            | .int => intArithmetic op (.value l) (.value r)
            | .dynamic => dynamicArithmetic op l r }

end Arithmetic

/-! ## Collections and lambdas -/

/-- What a macro ranges over: a list's elements, or a map's keys. -/
def macroItems : Outcome → Option (List Value)
  | .value (.array items) => some items
  | .value (.record fields) => some ((Convex.ownEntries fields).map fun (key, _) => .string key)
  | _ => none

def bareVariable (tree : CompilerTree) : Option String :=
  match tree.operand with
  | .var name => if isBareName name then some name else none
  | _ => none

/-- A lambda's body and its variable, the operand that is a bare name. -/
def lambdaComponents (lambda : CompilerTree) : Except Refusal (CompilerTree × String) :=
  match lambda.operandsOf .lambda with
  | none => .error (.error "Expected a lambda operand")
  | some [_, _, _] =>
      .error (.unsupported "lambda" ("a two-variable comprehension (index and element, or key " ++
        "and value) has no evaluation in the post-filter"))
  | some [first, second] =>
      match bareVariable second, bareVariable first with
      | some name, _ => .ok (first, name)
      | none, some name => .ok (second, name)
      | none, none => .error (.error "Lambda requires a variable operand")
  | some _ => .error (.error "Expected exactly two operands")

/-- The static type of an element of a collection. Only a literal list says anything. -/
def elementType : Operand → StaticType
  | .value (.array items) =>
      let isNumber := fun item : Json => match item with | .number _ => true | _ => false
      if !items.any isNumber then .other
      else if !items.all isNumber then .unknown
      else if items.all Convex.isFractionalLiteral then .double
      else .ambiguous
  | _ => .unknown

/-- `filter()`: an error in any body is the whole list's. -/
def filterLoop (each : Value → Result) : (out : List Value) → List Value → Result
  | out, [] => .ok (.value (.array out))
  | out, item :: items => do
      match (← each item).asBoolean with
      | .unknown => return .error
      | .yes => filterLoop each (out ++ [item]) items
      | .no => filterLoop each out items

def mapLoop (each : Value → Result) : (out : List Value) → List Value → Result
  | out, [] => .ok (.value (.array out))
  | out, item :: items => do
      match ← each item with
      | .error => return .error
      | .value v => mapLoop each (out ++ [v]) items

/-- `exists`, `exists_one` and `all`, with CEL's error absorption across elements. -/
def quantifierLoop (quantifier : Convex.Quantifier) (each : Value → Result) :
    (trueCount : Nat) → (sawError : Bool) → List Value → Result
  | trueCount, sawError, [] =>
      .ok <|
        if sawError then .error
        else match quantifier with
          | .exists => .value (.bool false)
          | .existsOne => .value (.bool (trueCount = 1))
          | .all => .value (.bool true)
  | trueCount, sawError, item :: items => do
      match (← each item).asBoolean with
      | .yes =>
          if quantifier = .exists then .ok (.value (.bool true))
          else quantifierLoop quantifier each (trueCount + 1) sawError items
      | .no =>
          if quantifier = .all then .ok (.value (.bool false))
          else quantifierLoop quantifier each trueCount sawError items
      | .unknown => quantifierLoop quantifier each trueCount true items

inductive Macro where
  | quantifier (quantifier : Convex.Quantifier)
  | filter
  | map
  deriving DecidableEq, Repr

def Macro.loop (macroKind : Macro) (each : Value → Result) (items : List Value) : Result :=
  match macroKind with
  | .quantifier q => quantifierLoop q each 0 false items
  | .filter => filterLoop each [] items
  | .map => mapLoop each [] items

def collectionMacro (macroKind : Macro) (trees : List CompilerTree) : Compiler := fun ctx => do
  match trees with
  | [collectionTree, lambda] =>
      let collection ← collectionTree.compile ctx
      let (body, name) ← lambdaComponents lambda
      let bodyCtx :=
        { ctx with bindings := (name, elementType collectionTree.operand) :: ctx.bindings }
      let compiledBody ←
        if macroKind = .map then body.compile bodyCtx else compileCondition body bodyCtx
      let each := fun (env : Env) (element : Value) =>
        compiledBody.run { env with bindings := (name, element) :: env.bindings }
      return {
        type := .other
        run := fun env => do
          match macroItems (← collection.run env) with
          | none => return .error
          | some items => macroKind.loop (each env) items }
  | _ => .error (.error "Expected exactly two operands")

/-! ## Conversions -/

/-- A one-argument conversion, refused over an operand whose static type selects an
overload the evaluator does not model. -/
def conversion (operator : PlanOperator) (type : StaticType) (refused : List StaticType)
    (convert : Value → Outcome) (trees : List CompilerTree) : Compiler := fun ctx => do
  let operand ← compileOne trees ctx
  if refused.contains operand.type then
    .error (.unsupported operator.name (operator.name ++ "() over an operand that may be " ++
      mayBe operand.type ++ ": the post-filter does not evaluate that overload"))
  else
    return {
      type
      run := fun env => do
        match ← operand.run env with
        | .error => return .error
        | .value v => return convert v }

/-- `DURATION_UNITS[unit]`, for an own property of the table. -/
def durationUnit (text : String) : UnitEntry :=
  match durationUnits.lookup text with
  | some nanos => .nanos nanos
  | none => .missing

def convertToTimestamp : Value → Outcome
  | .string s =>
      match parseRfc3339Timestamp s with
      | some nanos => .value (.timestamp nanos)
      | none => .error
  | _ => .error

def timeSince (nowNanos : Int) : Value → Outcome
  | .timestamp nanos => .value (.duration (saturatedSince nowNanos nanos))
  | _ => .error

/-- The text of a value that is certainly an int: `BigInt()` throws where it is no integer. -/
def intText (v : Value) : Result :=
  match v with
  | .number d => if d.isInteger then .ok (.value (.string (toString d.trunc))) else .error .rangeError
  | .bigint n => .ok (.value (.string (toString n)))
  | .string s => .ok (.value (.string s))
  | .bool b => .ok (.value (.string (if b then "true" else "false")))
  | _ => .ok .error

section Conversions

variable [Double.Rounding]

/-- `parseGoDuration`. -/
def convertToDuration : Value → Outcome
  | .string s =>
      match parseDuration durationUnit s with
      | .duration nanos => .value (.duration nanos)
      | _ => .error
  | _ => .error

def compileString (trees : List CompilerTree) : Compiler := fun ctx => do
  let operand ← compileOne trees ctx
  if operand.type = .timestamp || operand.type = .duration then
    .error (.unsupported "string" ("string() over a " ++ operand.type.name ++ " renders it in " ++
      (if operand.type = .timestamp then "RFC 3339" else "seconds") ++
      ", an overload the post-filter does not evaluate"))
  else if operand.type = .ambiguous || operand.type = .unknown then
    .error (.unsupported "string" ("string() renders an int and a double differently past 1e6 " ++
      "(\"1000000\" against \"1e+06\"), and the plan does not carry which this operand is"))
  else if operand.type ≠ .int && operand.type ≠ .other &&
      trees.any fun tree => readsMetadata ctx.bindings tree.operand then
    .error (.unsupported "string" ("string() over a number read from metadata: " ++
      signedZeroMessage ++ ", and string() renders -0.0 as \"-0\""))
  else
    return {
      type := .other
      run := fun env => do
        match ← operand.run env with
        | .error => return .error
        | .value v =>
            if operand.type = .int then intText v else return convertToString (.value v) false }

end Conversions

/-! ## Hierarchies -/

/-- `hierarchy(path)` and `hierarchy(path, delimiter)`. -/
def toHierarchy (path : Value) (delimiter : Option Value) : Outcome :=
  match path, delimiter with
  | .string s, some (.string delimiter) => .value (.hierarchy (splitDelimited s delimiter))
  | _, some _ => .error
  | .hierarchy segments, none => .value (.hierarchy segments)
  | .string s, none => .value (.hierarchy (splitDelimited s "."))
  | .array items, none =>
      match items.mapM fun item => match item with | .string s => some s | _ => none with
      | some segments => .value (.hierarchy segments)
      | none => .error
  | _, none => .error

def compileHierarchy (trees : List CompilerTree) : Compiler := fun ctx => do
  match trees with
  | [value] =>
      let value ← value.compile ctx
      return {
        type := .other
        run := fun env => do
          match ← value.run env with
          | .error => return .error
          | .value path => return toHierarchy path none }
  | [value, delimiter] =>
      let value ← value.compile ctx
      let delimiter ← delimiter.compile ctx
      return {
        type := .other
        run := fun env => do
          match ← runAll [value, delimiter] env with
          | some [path, separator] => return toHierarchy path (some separator)
          | _ => return .error }
  | _ => .error (.error "Expected one or two operands for hierarchy")

def hierarchyRelation (relation : Convex.HierarchyRelation) : List CompilerTree → Compiler :=
  strictTwo .other fun left right =>
    match left, right with
    | .hierarchy left, .hierarchy right =>
        .value <| .bool <| match relation with
          | .ancestorOf => isStrictAncestor left right
          | .descendentOf => isStrictAncestor right left
          | .overlaps => left.isPrefixOf right || right.isPrefixOf left
    | _, _ => .error

/-! ## Index -/

/-- The position in a list that an index names. -/
def listPosition : Value → Option Int
  | .bigint n => some n
  | .number d => if d.isInteger then some d.trunc else none
  | _ => none

def indexValue (collection index : Value) : Outcome :=
  match collection, index with
  | .array items, index =>
      match listPosition index with
      | some position =>
          if position < 0 then .error
          else match items[position.toNat]? with
            | some v => .value v
            | none => .error
      | none => .error
  | .record fields, .string key =>
      match fields.lookup key with
      | some v => .value v
      | none => .error
  | _, _ => .error

/-- The entries of a map literal, their keys distinct string literals. -/
def compileEntries (ctx : Context) : (keys : List String) → List CompilerTree →
    Except Refusal (List (String × Compiled))
  | _, [] => .ok []
  | keys, entry :: entries => do
      match entry.operandsOf .setField with
      | none =>
          .error (.unsupported "struct" ("a struct literal whose entries are not set-field pairs " ++
            "has no evaluation in the post-filter"))
      | some [key, value] =>
          match key.operand with
          | .value (.string name) =>
              if keys.contains name then .error repeatedKey
              else
                let compiled ← value.compile { ctx with parent := .setField }
                let rest ← compileEntries ctx (name :: keys) entries
                return (name, compiled) :: rest
          | _ => .error repeatedKey
      | some _ => .error (.error "Expected exactly two operands")
where
  repeatedKey : Refusal :=
    .unsupported "struct" ("a map literal is evaluated only with distinct string literal keys: a " ++
      "JavaScript record cannot tell the CEL key 1 from \"1\"")

def compileMapLiteral (entries : List CompilerTree) : Compiler := fun ctx => do
  let fields ← compileEntries ctx [] entries
  return {
    type := .other
    run := fun env => do
      match ← runAll (fields.map Prod.snd) env with
      | none => return .error
      | some values => return .value (.record ((fields.map Prod.fst).zip values)) }

def compileIndex (trees : List CompilerTree) : Compiler := fun ctx => do
  match trees with
  | [target, key] =>
      let collection ← match target.operandsOf .struct with
        | some entries => compileMapLiteral entries ctx
        | none => target.compile ctx
      let key ← key.compile ctx
      return {
        type := .unknown
        run := fun env => do
          match ← runAll [collection, key] env with
          | some [collection, key] => return indexValue collection key
          | _ => return .error }
  | _ => .error (.error "Expected exactly two operands")

/-- The field a `get-field` names: a variable's name or a string literal. -/
def fieldName : Operand → Option String
  | .var name => some name
  | .value (.string name) => some name
  | _ => none

def compileGetField (trees : List CompilerTree) : Compiler := fun ctx => do
  match trees with
  | [targetTree, fieldTree] =>
      match fieldName fieldTree.operand with
      | none => .error (.error "get-field requires a field name")
      | some field =>
          let target ← targetTree.compile ctx
          return { type := .unknown, run := fun env => return getField (← target.run env) field }
  | _ => .error (.error "Expected exactly two operands")

/-! ## The roster -/

def sizeOf : Value → Outcome
  | .string s => .value (.number (.finite s.length))
  | .array items => .value (.number (.finite items.length))
  | .hierarchy segments => .value (.number (.finite segments.length))
  | .record fields => .value (.number (.finite fields.length))
  | _ => .error

def isIn (needle haystack : Value) : Outcome :=
  match haystack with
  | .array items => .value (.bool (items.any fun v => v.valuesEqual needle))
  | .record fields =>
      .value (.bool (match needle with | .string key => (fields.lookup key).isSome | _ => false))
  | _ => .error

def hasIntersection (left right : Value) : Outcome :=
  match left, right with
  | .array left, .array right => .value (.bool (left.any fun l => right.any fun r => l.valuesEqual r))
  | _, _ => .error

def compileMatches (trees : List CompilerTree) : Compiler := fun ctx => do
  match trees with
  | [receiver, pattern] =>
      let safe := match pattern.operand with
        | .value (.string s) => parseSafeRegexPattern s
        | _ => none
      match safe with
      | none =>
          .error (.unsupported "matches" ("matches requires a constant RE2 pattern in the " ++
            "literal, anchor and trailing .* subset the post-filter answers with plain string " ++
            "comparisons, without a regex engine whose dialect differs from RE2"))
      | some safe =>
          let compiled ← receiver.compile ctx
          return {
            type := .other
            run := fun env => do
              match ← compiled.run env with
              | .value (.string s) => return .value (.bool (matchesSafeRegexPattern s safe))
              | _ => return .error }
  | _ => .error (.error "Expected exactly two operands")

def compileList (trees : List CompilerTree) : Compiler := fun ctx => do
  let compiled ← trees.mapM fun tree => tree.compile ctx
  return {
    type := .other
    run := fun env => do
      match ← runAll compiled env with
      | none => return .error
      | some values => return .value (.array values) }

/-- A ternary runs the branch that is chosen. -/
def compileIf (trees : List CompilerTree) : Compiler := fun ctx => do
  match trees with
  | [condition, whenTrue, whenFalse] =>
      let condition ← condition.compile ctx
      let whenTrue ← whenTrue.compile ctx
      let whenFalse ← whenFalse.compile ctx
      return {
        type := joinTypes whenTrue.type whenFalse.type
        run := fun env => do
          match (← condition.run env).asBoolean with
          | .unknown => return .error
          | .yes => whenTrue.run env
          | .no => whenFalse.run env }
  | _ => .error (.error "Expected exactly 3 operands for if")

/-- `timeSince()` against the clock read at translation. -/
def compileTimeSince (now : Int) (trees : List CompilerTree) : Compiler := fun ctx => do
  let operand ← compileOne trees ctx
  return {
    type := .duration
    run := fun env => do
      match ← operand.run env with
      | .error => return .error
      | .value v => return timeSince (now * 1000000) v }

section Roster

variable [Double.Rounding] (now : Int)

/-- Every operator the post-filter evaluates. -/
def compileOperator (operator : PlanOperator) (trees : List CompilerTree) : Compiler :=
  match operator with
  | .and => junction false trees
  | .or => junction true trees
  | .not => negation trees
  | .eq => comparison .eq trees
  | .ne => comparison .ne trees
  | .lt => comparison .lt trees
  | .le => comparison .le trees
  | .gt => comparison .gt trees
  | .ge => comparison .ge trees
  | .in => strictTwo .other isIn trees
  | .contains => stringTest includesText trees
  | .startsWith => stringTest startsWithText trees
  | .endsWith => stringTest endsWithText trees
  | .upperAscii =>
      strictOne .other (fun v => match v with | .string s => .value (.string (upperAscii s)) | _ => .error)
        trees
  | .matches => compileMatches trees
  | .hasIntersection => strictTwo .other hasIntersection trees
  | .exists => collectionMacro (.quantifier .exists) trees
  | .existsOne => collectionMacro (.quantifier .existsOne) trees
  | .all => collectionMacro (.quantifier .all) trees
  | .filter => collectionMacro .filter trees
  | .map => collectionMacro .map trees
  | .add => arithmetic .add .add trees
  | .sub => arithmetic .sub .sub trees
  | .mult => arithmetic .mult .mult trees
  | .div => arithmetic .div .div trees
  | .mod => arithmetic .mod .mod trees
  | .list => compileList trees
  | .index => compileIndex trees
  | .getField => compileGetField trees
  | .size => strictOne .int sizeOf trees
  | .string => compileString trees
  | .double =>
      conversion .double .double [.timestamp, .duration, .unknown]
        (fun v => convertToDouble (.value v)) trees
  | .int =>
      conversion .int .int [.timestamp, .duration, .unknown] (fun v => convertToInt (.value v)) trees
  | .timestamp =>
      conversion .timestamp .timestamp [.int, .ambiguous, .duration, .unknown] convertToTimestamp
        trees
  | .duration =>
      conversion .duration .duration [.int, .ambiguous, .timestamp, .unknown] convertToDuration trees
  | .timeSince => compileTimeSince now trees
  | .if => compileIf trees
  | .hierarchy => compileHierarchy trees
  | .ancestorOf => hierarchyRelation .ancestorOf trees
  | .descendentOf => hierarchyRelation .descendentOf trees
  | .overlaps => hierarchyRelation .overlaps trees
  | operator => fun _ =>
      .error (.unsupported operator.name ("Unsupported operator " ++ operator.name ++
        ": the post-filter has no evaluation for it"))

mutual

def compilerTree : Operand → CompilerTree
  | .value literal => .node (.value literal) (compileValue literal) []
  | .var name => .node (.var name) (compileVariable name) []
  | .expression operator operands =>
      let trees := compilerTrees operands
      .node (.expression operator operands)
        (fun ctx => compileOperator now operator trees { ctx with parent := operator }) trees

def compilerTrees : List Operand → List CompilerTree
  | [] => []
  | operand :: operands => compilerTree operand :: compilerTrees operands

end

/-- Compile an operand, or refuse it. -/
def compile (operand : Operand) : Compiler :=
  (compilerTree now operand).compile

/-- The predicate over a record's metadata; a record stored without any has none. -/
def compilePostFilter (condition : Operand) (fields : PostFilterFields) :
    Except Refusal (Option (List (String × Json)) → Except Thrown Bool) := do
  let compiled ← compileCondition (compilerTree now condition) { fields, bindings := [], parent := .eq }
  return fun metadata => do
    let outcome ← compiled.run { metadata := metadata.getD [], bindings := [] }
    return outcome.asBoolean = .yes

theorem compilerTrees_eq_map (operands : List Operand) :
    compilerTrees now operands = operands.map (compilerTree now) := by
  induction operands with
  | nil => rfl
  | cons operand operands ih => rw [compilerTrees, ih, List.map_cons]

theorem compile_expression (operator : PlanOperator) (operands : List Operand) (ctx : Context) :
    compile now (.expression operator operands) ctx =
      compileOperator now operator (operands.map (compilerTree now))
        { ctx with parent := operator } := by
  rw [compile, compilerTree, ← compilerTrees_eq_map]
  rfl

end Roster

end QueryPlanAdapters.Chroma
