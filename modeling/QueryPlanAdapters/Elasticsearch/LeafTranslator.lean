import QueryPlanAdapters.Elasticsearch.RegexTranslator
import QueryPlanAdapters.Cel.AsciiCase

/-!
# Elasticsearch: leaf comparisons

One document field against one literal. The caller declares the CEL type of each compared
field, because Elasticsearch coerces a query's value onto the mapped type; an operator may
be overridden. Under the negative polarity every leaf asks for the field to exist.
-/

namespace QueryPlanAdapters.Elasticsearch

/-- The CEL scalar type stored in a mapped field. -/
inductive ScalarType where
  | string | number | boolean | timestamp
  deriving DecidableEq, Repr

abbrev OperatorFunction := (field : String) → (value : Literal) → Translation Query

/-- What the caller declares about the index. -/
structure Options where
  fieldMap : List (String × String)
  operatorOverrides : PlanOperator → Option OperatorFunction
  nestedPaths : List String
  collectionFields : List String
  explicitNullAttributes : List String
  scalarTypes : List (String × ScalarType)

/-- Whether the walk is proving a sub-tree true or false. -/
inductive Polarity where
  | true | false
  deriving DecidableEq, Repr

namespace Polarity

def holds : Polarity → Bool
  | true => Bool.true
  | false => Bool.false

def negate : Polarity → Polarity
  | true => false
  | false => true

def ofBool (b : Bool) : Polarity :=
  if b then .true else .false

end Polarity

/-- How a plan variable resolves: through the field map, or inside a lambda below its
nested path. -/
inductive Scope where
  | root (fieldMap : List (String × String))
  | lambda (nestedPath lambdaVariable : String)

def Scope.field : Scope → String → Translation String
  | root fieldMap, name =>
      match fieldMap.lookup name with
      | some field => .ok field
      | none => unmapped ("Unknown attribute: " ++ name)
  | lambda nestedPath lambdaVariable, name =>
      let start := lambdaVariable ++ "."
      if startsWithText name start then
        .ok (nestedPath ++ "." ++ String.ofList (name.toList.drop start.length))
      else
        malformed ("Variable '" ++ name ++ "' does not start with lambda variable '" ++
          lambdaVariable ++ "'")

/-! ## Default operators -/

/-- `value.toString()`, of the strings that the string operators are reached with. -/
def textOf : Literal → String
  | .string s => s
  | _ => ""

def escapeWildcard (value : Literal) : String :=
  String.ofList <| (textOf value).toList.flatMap fun c =>
    if c = '\\' || c = '*' || c = '?' then ['\\', c] else [c]

/-- A scalar operand is read as a one-element list. -/
def termsQuery (field : String) (value : Literal) : Query :=
  match value with
  | .array items => .terms field items
  | value => .terms field [value]

def defaultOperator [JavaCharacter] : PlanOperator → Option OperatorFunction
  | .eq => some fun field value => .ok (.term field value)
  | .lt => some fun field value => .ok (.range field .lt value)
  | .gt => some fun field value => .ok (.range field .gt value)
  | .le => some fun field value => .ok (.range field .lte value)
  | .ge => some fun field value => .ok (.range field .gte value)
  | .in => some fun field value => .ok (termsQuery field value)
  | .contains => some fun field value => .ok (.wildcard field ("*" ++ escapeWildcard value ++ "*"))
  | .startsWith => some fun field value => .ok (.prefixQuery field value)
  | .endsWith => some fun field value => .ok (.wildcard field ("*" ++ escapeWildcard value))
  | .matches => some fun field value => matchesQuery field (textOf value)
  | .hasIntersection => some fun field value => .ok (termsQuery field value)
  | _ => none

/-! ## Operands -/

/-- Operators whose literal must be a scalar: term and range queries take one value. -/
def isScalarOperandOperator : PlanOperator → Bool
  | .eq | .ne | .lt | .gt | .le | .ge | .contains | .startsWith | .endsWith | .matches => true
  | _ => false

def isStringOperator : PlanOperator → Bool
  | .contains | .startsWith | .endsWith | .matches => true
  | _ => false

/-- The negation of each ordering operator. -/
def negatedRange : PlanOperator → PlanOperator
  | .lt => .ge
  | .le => .gt
  | .gt => .le
  | .ge => .lt
  | operator => operator

inductive ResolvedOperand where
  | field (name : String)
  | literal (value : Literal)

structure Comparison where
  name : String
  value : Literal
  variableFirst : Bool

def resolveLeafOperand : Operand → Translation ResolvedOperand
  | .var name => .ok (.field name)
  | .value literal => do
      rejectNonFinite (protoValueToJava literal)
      return .literal (protoValueToJava literal)
  | .expression .except _ => exceptUnsupported
  | .expression .if _ => ternaryUnsupported
  | .expression .timestamp [operand] => do
      let resolved ← resolveLeafOperand operand
      match resolved with
      | .literal value => validateTimestampLiteral value
      | .field _ => .ok ()
      return resolved
  | .expression operator _ =>
      unsupported ("Unexpected " ++ operator.name ++ " expression in leaf operand: a Query DSL " ++
        "leaf compares one document field against a literal, and computing " ++ operator.name ++
        " over a field needs a script")

def resolveComparison (leftOperand rightOperand : Operand) : Translation Comparison := do
  match ← resolveLeafOperand leftOperand, ← resolveLeafOperand rightOperand with
  | .field name, .literal value => return { name, value, variableFirst := true }
  | .literal value, .field name => return { name, value, variableFirst := false }
  | .field _, .field _ =>
      unsupported "Elasticsearch Query DSL cannot compare two document fields without scripts"
  | .literal _, .literal _ => malformed "Leaf expression must contain exactly one document field"

/-- The operator rewritten with the field on the left. -/
def normalizeLeafOperator (operator : PlanOperator) (variableFirst : Bool) :
    Translation PlanOperator :=
  if variableFirst then .ok operator
  else match operator with
    | .lt => .ok .gt
    | .le => .ok .ge
    | .gt => .ok .lt
    | .ge => .ok .le
    | .contains | .startsWith | .endsWith | .matches =>
        unsupported (operator.name ++ " with a document field as the receiver argument cannot be " ++
          "expressed without scripts")
    | operator => .ok operator

def isNonScalar : Literal → Bool
  | .array _ | .object _ => true
  | _ => false

def kindOf : Literal → String
  | .object _ => "map"
  | _ => "list"

def rejectNonScalarElements (operator : PlanOperator) (values : List Literal) :
    Translation Unit :=
  match values.find? isNonScalar with
  | some element =>
      unsupported (operator.name ++ " over a list holding a " ++ kindOf element ++ " element " ++
        "cannot be expressed: a terms query matches scalar terms only")
  | none => .ok ()

/-- Refuse a list or map literal where a scalar is needed. -/
def rejectNonScalarOperand (operator : PlanOperator) (value : Literal) (variableFirst : Bool) :
    Translation Unit :=
  if isScalarOperandOperator operator && isNonScalar value then
    unsupported (operator.name ++ " against a " ++ kindOf value ++ " literal cannot be expressed: a " ++
      "term or range query compares a field against a scalar, and the Query DSL has no whole-" ++
      kindOf value ++ " comparison")
  else match operator, variableFirst, value with
    | .in, true, .object _ =>
        unsupported ("in over a map literal cannot be expressed: CEL map membership tests the " ++
          "map's keys, and the Query DSL has no such operand")
    | .in, false, .array _ | .in, false, .object _ =>
        unsupported ("in with a " ++ kindOf value ++ " element cannot be expressed: a terms query " ++
          "matches scalar terms only")
    | .in, _, .array values | .hasIntersection, _, .array values =>
        rejectNonScalarElements operator values
    | _, _, _ => .ok ()

def inhabits : ScalarType → Literal → Bool
  | .string, .string _ | .timestamp, .string _ | .number, .number _ | .boolean, .bool _ => true
  | _, _ => false

def hasTimestampWrapper (operands : List Operand) : Bool :=
  operands.any fun operand => match operand with
    | .expression .timestamp _ => true
    | _ => false

def bareTemporalComparison {α : Type} : Translation α :=
  unsupported ("Bare temporal comparison cannot preserve CEL string equality; use timestamp() " ++
    "explicitly")

/-- Elasticsearch does not index null, so a null intersection element cannot match. -/
def rejectNullIntersection (values : List Literal) : Translation Unit :=
  if values.any isNull then
    unsupported "hasIntersection with null requires an explicit null-value mapping"
  else .ok ()
where
  isNull : Literal → Bool
    | .null => true
    | _ => false

def nullLeafQuery (operator : PlanOperator) (field : String) (variableFirst whenTrue : Bool) :
    Translation Query :=
  match operator with
  | .eq => if whenTrue then unsafeExplicitNullComparison else .ok (.exists field)
  | .ne => if whenTrue then .ok (.exists field) else unsafeExplicitNullComparison
  | .in =>
      if variableFirst then unsafeExplicitNullComparison
      else unsupported "null membership in a document array requires an explicit null-value mapping"
  | _ => unsupported "Null values are only supported with eq, ne, and scalar in operators"

/-! ## The leaf translator -/

namespace Options

variable (options : Options)

/-- Whether the field map names a sub-field, so that the field is an object in the index. -/
def isObjectPath (field : String) : Bool :=
  options.fieldMap.any fun entry => startsWithText entry.2 (field ++ ".")

def isOverridden (operator : PlanOperator) : Bool :=
  (options.operatorOverrides operator).isSome

/-- The declared type of a field. It is required: the adapter cannot see the mapping. -/
def declaredType (field : String) (operator : PlanOperator) : Translation ScalarType :=
  match options.scalarTypes.lookup field with
  | some type => .ok type
  | none =>
      unmapped ("Field '" ++ field ++ "' has no declared scalar type: " ++ operator.name ++
        " lowers to a term or range query, and Elasticsearch coerces the query term onto the " ++
        "field's mapped type where CEL's cross-type equality is false. Declare it in " ++
        "Options.withScalarTypes")

def declaredElementType (field : String) (operator : PlanOperator) (operands : List Operand) :
    Translation ScalarType := do
  let type ← options.declaredType field operator
  if type = .timestamp && !hasTimestampWrapper operands then bareTemporalComparison
  else return type

/-- The query for a literal whose type is not the field's declared one. A cross-type
comparison is a CEL error and matches nothing; a cross-type equality is false. -/
def typeMismatchQuery (operator : PlanOperator) (field : String) (value : Literal)
    (operands : List Operand) (whenTrue : Bool) : Translation (Option Query) :=
  if options.isOverridden operator || !isScalarOperandOperator operator then .ok none
  else do
    let type ← options.declaredType field operator
    if type = .timestamp && !hasTimestampWrapper operands then bareTemporalComparison
    else if inhabits type value && !(isStringOperator operator && type ≠ .string) then return none
    else match operator with
      | .eq => return some (if whenTrue then .matchNone else .exists field)
      | .ne => return some (if whenTrue then .exists field else .matchNone)
      | _ => return some .matchNone

/-- The elements of `field in [...]` of the field's type. Nulls are kept. -/
def typedMembers (field : String) (values : List Literal) (operands : List Operand) :
    Translation (List Literal) :=
  if options.isOverridden .in then .ok values
  else do
    let type ← options.declaredElementType field .in operands
    return values.filter fun element => rejectNullIntersection.isNull element || inhabits type element

/-- The literals of an intersection that have the collection's declared element type. -/
def typedIntersection (field : String) (values : List Literal) (operands : List Operand) :
    Translation (List Literal) := do
  let type ← options.declaredElementType field .hasIntersection operands
  return values.filter (inhabits type)

section Leaf

variable [JavaCharacter]

def operatorOrDefault (operator : PlanOperator) : Option OperatorFunction :=
  (options.operatorOverrides operator).or (defaultOperator operator)

def applyOperator (operator : PlanOperator) (field : String) (value : Literal) :
    Translation Query :=
  match options.operatorOrDefault operator with
  | some function => function field value
  | none => unsupported ("Unknown operator: " ++ operator.name)

/-- Without an `ne` override, `ne` is `exists AND NOT eq`. -/
def positiveQuery (operator : PlanOperator) (field : String) (value : Literal) :
    Translation Query :=
  if operator = .ne && !options.isOverridden .ne then do
    return .definedAndNot field (← options.applyOperator .eq field value)
  else options.applyOperator operator field value

/-- The query for the operator not holding. -/
def negatedQuery (operator : PlanOperator) (field : String) (value : Literal) (positive : Query) :
    Translation Query :=
  match operator with
  | .eq | .in | .contains | .startsWith | .endsWith | .matches =>
      .ok (.definedAndNot field positive)
  | .ne => options.applyOperator .eq field value
  | .lt | .le | .gt | .ge => options.applyOperator (negatedRange operator) field value
  | operator => unsupported ("Cannot safely negate operator without scripts: " ++ operator.name)

def nullAwareMembershipQuery (field : String) (values : List Literal) (whenTrue : Bool) :
    Translation Query :=
  if whenTrue then unsafeExplicitNullComparison
  else
    let nonNull := values.filter fun value => !rejectNullIntersection.isNull value
    if nonNull.isEmpty then .ok (.exists field)
    else do return .definedAndNot field (← options.applyOperator .in field (.array nonNull))

def polarizedQuery (operator : PlanOperator) (field : String) (value : Literal) (whenTrue : Bool) :
    Translation Query := do
  let positive ← options.positiveQuery operator field value
  if whenTrue then return positive else options.negatedQuery operator field value positive

/-- The query once the literal's types are settled: that of a membership of a null is its own. -/
def finishLeaf (operator : PlanOperator) (field : String) (value : Literal) (whenTrue : Bool) :
    Translation Query :=
  match operator, value with
  | .in, .array values =>
      if values.any rejectNullIntersection.isNull then
        options.nullAwareMembershipQuery field values whenTrue
      else options.polarizedQuery .in field (.array values) whenTrue
  | operator, value => options.polarizedQuery operator field value whenTrue

/-- A membership or an intersection, with the literals that have the field's type. -/
def membershipLeaf (operator : PlanOperator) (field : String) (value : Literal)
    (variableFirst : Bool) (operands : List Operand) (whenTrue : Bool) : Translation Query :=
  match operator, variableFirst, value with
  | .in, true, .array values => do
      let members ← options.typedMembers field values operands
      if members.isEmpty then
        -- No element has the field's type, so `in` is false wherever the field is present.
        return if whenTrue then .matchNone else .exists field
      else options.finishLeaf .in field (.array members) whenTrue
  | .in, false, value =>
      if options.isOverridden .in then options.finishLeaf .in field value whenTrue
      else do
        let type ← options.declaredElementType field .in operands
        -- A value of the wrong type is never an element; the negated form is refused before.
        if !inhabits type value then return .matchNone
        else options.finishLeaf .in field value whenTrue
  | .hasIntersection, _, .array values => do
      rejectNullIntersection values
      if options.isOverridden .hasIntersection then
        options.finishLeaf .hasIntersection field value whenTrue
      else
        let members ← options.typedIntersection field values operands
        if members.isEmpty then return .matchNone
        else options.finishLeaf .hasIntersection field (.array members) whenTrue
  | operator, _, value => options.finishLeaf operator field value whenTrue

/-- `applyResolvedLeaf`, of operands that are no rewritable shape. -/
def plainLeaf (operator : PlanOperator) (operands : List Operand) (scope : Scope)
    (polarity : Polarity) : Translation Query :=
  match operands with
  | [left, right] => do
      let comparison ← resolveComparison left right
      let field ← scope.field comparison.name
      let value := comparison.value
      let normalized ← normalizeLeafOperator operator comparison.variableFirst
      if normalized = .in && !comparison.variableFirst && options.isObjectPath field then
        unsupported ("in over the object field '" ++ field ++ "' tests its keys, as CEL does over " ++
          "a map, and Elasticsearch indexes no key whose value is null, so a query cannot tell a " ++
          "key held with a null from an absent one")
      else if !polarity.holds && normalized = .in && !comparison.variableFirst then
        unsupported ("Negated membership in a document collection cannot distinguish a missing " ++
          "collection from an empty collection in Elasticsearch")
      else
        rejectNonScalarOperand normalized value comparison.variableFirst
        match value with
        | .null => nullLeafQuery normalized field comparison.variableFirst polarity.holds
        | value =>
            match ← options.typeMismatchQuery normalized field value operands polarity.holds with
            | some query => return query
            | none =>
                options.membershipLeaf normalized field value comparison.variableFirst operands
                  polarity.holds
  | operands =>
      malformed (operator.name ++ " requires exactly 2 operands, got " ++ toString operands.length)

end Leaf

end Options

/-! ## Rewritten leaves -/

/-- CEL equality of two scalar literals. -/
def celEquals : Literal → Literal → Bool
  | .null, .null => true
  | .number a, .number b => a.eq b
  | .string a, .string b => a = b
  | .bool a, .bool b => a = b
  | _, _ => false

/-- More case variants than this and the list is refused rather than built. -/
def maxCaseVariantLetters : Nat := 10

/-- Where the letters of the folded case stand; none where a letter cannot be reached. -/
def letterPositions (upper : Bool) : (position : Nat) → List Char → Option (List Nat)
  | _, [] => some []
  | position, c :: cs =>
      if AsciiCase.isFolded (!upper) c then none
      else do
        let letters ← letterPositions upper (position + 1) cs
        return if AsciiCase.isFolded upper c then position :: letters else letters

/-- The literal with the letters whose bit is set in the other case. -/
def caseVariant (upper : Bool) (letters : List Nat) (mask : Nat) (literal : List Char) :
    List Char :=
  letters.zipIdx.foldl (fun chars letter =>
    if mask.testBit letter.2 then chars.modify letter.1 (AsciiCase.switch upper) else chars) literal

def foldName (upper : Bool) : String :=
  if upper then "upperAscii" else "lowerAscii"

/-- Every string that the fold maps onto a literal: none when the literal holds a letter of
the other case. -/
def asciiCaseVariants (literal : String) (upper : Bool) : Translation (List String) :=
  match letterPositions upper 0 literal.toList with
  | none => .ok []
  | some letters =>
      if maxCaseVariantLetters < letters.length then
        unsupported (foldName upper ++ "() compared with a literal of more than " ++
          toString maxCaseVariantLetters ++ " ASCII letters is refused: the terms query would list " ++
          "every case variant, 2^" ++ toString letters.length ++ " of them, and computing the fold " ++
          "over a field needs a script")
      else
        .ok ((List.range (2 ^ letters.length)).map fun mask =>
          String.ofList (caseVariant upper letters mask literal.toList))

/-! ### Durations -/

/-- `^(-)?([0-9]+)(?:\.([0-9]{1,9}))?s$`, as nanoseconds. The seconds are a `long`. -/
def parseDurationLiteral (spelling : String) : Translation Int :=
  let (negative, cs) := takeOptional ['-'] spelling.toList
  let seconds := cs.takeWhile isDigit
  match seconds.isEmpty, takeFraction (cs.dropWhile isDigit) with
  | false, some (nanos, ['s']) =>
      if 2 ^ 63 ≤ decimalValue seconds then .error .jdk
      else
        let total : Int := decimalValue seconds * 1000000000 + nanos
        .ok (if negative then -total else total)
  | _, _ =>
      malformed ("duration() requires a protobuf duration literal such as \"86400s\": " ++ spelling)

/-- `truncatedTo(ChronoUnit.MILLIS)` -/
def floorToMillis (nanos : Int) : Int :=
  nanos / 1000000 * 1000000

def ceilToMillis (nanos : Int) : Int :=
  let floor := floorToMillis nanos
  if floor = nanos then floor else floor + 1000000

/-- Whether an `Instant` can hold it: a thousand million years around 1970. -/
def isInstant (nanos : Int) : Bool :=
  -31557014167219200 * 1000000000 ≤ nanos && nanos < 31556889864403200 * 1000000000

def fieldOfTimestamp : Operand → Option String
  | .expression .timestamp [.var name] => some name
  | _ => none

def literalOfTimestamp : Operand → Option Literal
  | .expression .timestamp [.value literal] => some literal
  | _ => none

def literalOfDuration : Operand → Option String
  | .expression .duration [.value (.string spelling)] => some spelling
  | _ => none

/-- The field and the duration of a timestamp's arithmetic. -/
def shiftedField (operator : PlanOperator) (first second : Operand) : Option (String × String) :=
  match fieldOfTimestamp first, literalOfDuration second with
  | some name, some spelling => some (name, spelling)
  | _, _ =>
      if operator = .add then do
        let spelling ← literalOfDuration first
        let name ← fieldOfTimestamp second
        return (name, spelling)
      else none

def timestampOf (operand : Operand) : Operand :=
  .expression .timestamp [operand]

def isTimestampComparison : PlanOperator → Bool
  | .eq | .ne | .lt | .le | .gt | .ge => true
  | _ => false

namespace Options

variable [JavaCharacter] (options : Options)

/-- `timestamp(f) ± duration(d)` against a timestamp literal, as the field against the
literal shifted the other way. The field is also bounded to where the sum exists. -/
def shiftedTimestampComparison (operator : PlanOperator) (fieldFirst : Bool)
    (arithmetic : PlanOperator) (name spelling : String) (other : Operand) (scope : Scope)
    (polarity : Polarity) : Translation Query :=
  match isTimestampComparison operator, literalOfTimestamp other with
  | true, some protoLiteral => do
      let duration ← parseDurationLiteral spelling
      let shift := if arithmetic = .add then duration else -duration
      let literal := protoValueToJava protoLiteral
      validateTimestampLiteral literal
      match parseOffsetDateTime (textOf literal) with
      | none => .error .jdk
      | some instant =>
          let shifted := instant - shift
          if !isInstant shifted then .error .jdk
          else if !inTimestampRange shifted then
            unsupported ("Shifting the timestamp literal by the duration leaves CEL's timestamp " ++
              "range, so the comparison has no range-query form")
          else
            let timestamp := timestampOf (.var name)
            let shiftedLiteral := timestampOf (.value (.string (formatInstant shifted)))
            let comparison ← options.plainLeaf operator
              (if fieldFirst then [timestamp, shiftedLiteral] else [shiftedLiteral, timestamp])
              scope polarity
            if shift = 0 then return comparison
            else
              let field ← scope.field name
              -- Elasticsearch stores a date to the millisecond, so a millisecond bound is exact.
              let bound := fun bound instant =>
                Query.range field bound (.string (formatInstant instant))
              let inRange :=
                if shift < 0 then bound .gte (ceilToMillis (minTimestampNanos - shift))
                else bound .lte (floorToMillis (maxTimestampNanos - shift))
              return .boolMust [comparison, inRange]
  | _, _ =>
      unsupported ("Timestamp arithmetic over a document field reduces to a range query only when " ++
        "compared with a timestamp() literal; computing it over a field needs a script")

/-- `upperAscii(f) == "ONE"`, as the field's membership in the literal's case variants. -/
def asciiCaseFold (operator : PlanOperator) (upper : Bool) (operands : List Operand)
    (other : Operand) (scope : Scope) (polarity : Polarity) : Translation Query :=
  if operator ≠ .eq && operator ≠ .ne then
    unsupported (operator.name ++ " over " ++ foldName upper ++ "() cannot be expressed: only == and " ++
      "!= reduce to membership of the field in the literal's case variants, and computing " ++
      foldName upper ++ " over a field needs a script")
  else match operands, other with
    | [.var name], .value (.string literal) => do
        let field ← scope.field name
        let type ← options.declaredType field operator
        if type ≠ .string then
          unsupported (foldName upper ++ "() over the non-string field '" ++ field ++ "' is a CEL " ++
            "error, which a terms query cannot reproduce")
        else
          let variants ← asciiCaseVariants literal upper
          options.plainLeaf .in [.var name, .value (.array (variants.map .string))] scope
            (.ofBool ((operator = .eq) == polarity.holds))
    | _, _ =>
        unsupported (foldName upper ++ "() reduces to a terms query only over one document field " ++
          "compared with a string literal")

/-- The keys of a map literal whose value is, or is not, equal to the target. -/
def lookupKeys (target : Literal) (wantMatch : Bool) : List Operand → Translation (List Literal)
  | [] => .ok []
  | .expression .setField [.value key, .value protoValue] :: entries => do
      let value := protoValueToJava protoValue
      if isNonScalar value then
        unsupported ("A map literal holding a " ++ kindOf value ++ " value cannot be looked up by a " ++
          "document field: the Query DSL has no whole-" ++ kindOf value ++ " comparison")
      else
        let keys ← lookupKeys target wantMatch entries
        return if celEquals value target = wantMatch then key :: keys else keys
  | _ :: _ =>
      unsupported ("A map literal with a computed key or value cannot be looked up by a document " ++
        "field without scripts")

/-- `{k1: v1, ...}[f] == x`, as a positive membership of the field under either polarity. -/
def mapLiteralLookup (operator : PlanOperator) (entries : List Operand) (key other : Operand)
    (scope : Scope) (polarity : Polarity) : Translation Query :=
  if operator ≠ .eq && operator ≠ .ne then
    unsupported (operator.name ++ " against a map literal indexed by a document field cannot be " ++
      "expressed: only == and != reduce to membership of the field in the map's keys")
  else match key, other with
    | .var name, .value protoTarget => do
        let target := protoValueToJava protoTarget
        rejectNonFinite target
        if isNonScalar target then
          unsupported ("A map literal lookup compared with a " ++ kindOf target ++ " literal cannot " ++
            "be expressed: the Query DSL has no whole-" ++ kindOf target ++ " comparison")
        else
          let keys ← lookupKeys target ((operator = .eq) == polarity.holds) entries
          options.plainLeaf .in [.var name, .value (.array keys)] scope .true
    | _, _ =>
        unsupported ("A map literal lookup reduces to a terms query only when one document field is " ++
          "the key and the lookup is compared with a literal")

/-- A comparison whose computed operand reduces to a plain field leaf, none for an operand
of another shape. The leaf it reduces to has no such operand itself. -/
def rewrittenOperand (operator : PlanOperator) (fieldFirst : Bool) (computed other : Operand)
    (scope : Scope) (polarity : Polarity) : Option (Translation Query) :=
  match computed with
  | .expression .index [.expression .struct entries, key] =>
      some (options.mapLiteralLookup operator entries key other scope polarity)
  | .expression .upperAscii operands =>
      some (options.asciiCaseFold operator true operands other scope polarity)
  | .expression (.other "lowerAscii") operands =>
      some (options.asciiCaseFold operator false operands other scope polarity)
  | .expression arithmetic [first, second] =>
      if arithmetic = .add || arithmetic = .sub then
        (shiftedField arithmetic first second).map fun (name, spelling) =>
          options.shiftedTimestampComparison operator fieldFirst arithmetic name spelling other scope
            polarity
      else none
  | _ => none

def applyResolvedLeaf (operator : PlanOperator) (operands : List Operand) (scope : Scope)
    (polarity : Polarity) : Translation Query :=
  match operands with
  | [left, right] =>
      match options.rewrittenOperand operator true left right scope polarity with
      | some query => query
      | none =>
          match options.rewrittenOperand operator false right left scope polarity with
          | some query => query
          | none => options.plainLeaf operator operands scope polarity
  | operands => options.plainLeaf operator operands scope polarity

end Options

end QueryPlanAdapters.Elasticsearch
