import QueryPlanAdapters.Prisma.Arithmetic
import QueryPlanAdapters.Prisma.Membership
import QueryPlanAdapters.Prisma.FieldReferences
import QueryPlanAdapters.Prisma.Timestamps

/-!
# Prisma: comparisons with a computed operand

What the dispatch of a comparison does once an operand is neither a plain column nor a
constant: casts that convert nothing, constant arithmetic, the arithmetic and the
concatenation that are solved for their column, the length of a string column, and the
index into a map literal.
-/

namespace QueryPlanAdapters.Prisma

open Sql

/-! ## Resolved operands -/

/-- The key of an operator in a filter. -/
def FieldOperator.key : FieldOperator → String
  | equals => "equals"
  | not => "not"
  | lt => "lt"
  | lte => "lte"
  | gt => "gt"
  | gte => "gte"
  | «in» => "in"
  | startsWith => "startsWith"

def RelationOperator.key : RelationOperator → String
  | some => "some"
  | every => "every"
  | none => "none"
  | is => "is"

mutual

/-- The filter as the JavaScript object that it is. -/
def PrismaFilter.toLiteral : PrismaFilter → Literal
  | .empty => .object []
  | .AND filters => .object [("AND", .array (filtersToLiterals filters))]
  | .OR filters => .object [("OR", .array (filtersToLiterals filters))]
  | .NOT filter => .object [("NOT", filter.toLiteral)]
  | .field name operator value => .object [(name, .object [(operator.key, value)])]
  | .shorthand name value => .object [(name, value)]
  | .reference name operator other container =>
      .object [(name, .object [(operator.key,
        .object [("_ref", .string other), ("_container", .string container)])])]
  | .relation name operator inner => .object [(name, .object [(operator.key, inner.toLiteral)])]

def filtersToLiterals : List PrismaFilter → List Literal
  | [] => []
  | filter :: filters => filter.toLiteral :: filtersToLiterals filters

end

/-- The type that a cast to it leaves as it is. -/
def identityCast : PlanOperator → Option MappedType
  | .string => some .string
  | .double => some .number
  | _ => none

/-- A cast that converts nothing is the column itself, whose NULL is then missing: the cast of
a null value is an error. -/
def resolveIdentityCast (operator : PlanOperator) (operands : List Node)
    (context : TranslationContext) : Reading (Option ResolvedFieldReference) :=
  match identityCast operator, operands with
  | some target, [.var name] => do
      let fieldRef ← resolveFieldReference name context
      if fieldRef.valueType ≠ some target then return none
      else return some { fieldRef with nullAttributeRepresentation := some .omitted }
  | _, _ => return none

section Resolving

variable (evaluation : ConstantEvaluation)

/-- The value of arithmetic over two constants, none when it cannot be folded. -/
def tryFoldValueExpression (operator : PlanOperator) (operands : List (Translation ResolvedOperand)) :
    Translation (Option Literal) :=
  match isArithmetic operator, operands with
  | true, left :: right :: _ => do
      match ← left with
      | .field _ => return none
      | .value first _ =>
          match ← right with
          | .field _ => return none
          | .value second _ => return (evaluation.arithmetic operator first second).toOption
  | _, _ => return none

variable (b : Builder) (context : TranslationContext)

mutual

/-- A column or a constant. Any other expression is the filter that it translates to. -/
def resolveOperand (allowSubMillisecond : Bool) : Node → Translation ResolvedOperand
  | .var name => do return .field (← reading (resolveFieldReference name context))
  | .value v => return .value v false
  | .expression operator operands =>
      if operator = .timestamp then do
        liftM (← reading (resolveTimestampOperand operands context allowSubMillisecond))
      else do
        match ← reading (resolveIdentityCast operator operands context) with
        | some fieldRef => return .field fieldRef
        | none =>
            match ← tryFoldValueExpression evaluation operator (resolveEach operands) with
            | some folded => return .value folded false
            | none =>
                let filter ← b.positive (.expression operator operands) context
                return .value filter.toLiteral false

def resolveEach : List Node → List (Translation ResolvedOperand)
  | [] => []
  | operand :: operands => resolveOperand false operand :: resolveEach operands

end

end Resolving

/-! ## Arithmetic solved for its column -/

/-- The column value that makes its concatenation with a constant, or the sum of the two,
equal to a value. -/
def solveAdd (comparisonValue addConstant : Literal) (fieldIsLeft : Bool) :
    Except Refusal (Option Literal) :=
  match comparisonValue, addConstant with
  | .string value, .string constant =>
      if fieldIsLeft then
        if !endsWithText value constant then .ok none
        else
          let length := value.toList.length - constant.toList.length
          .ok (some (.string (String.ofList (value.toList.take length))))
      else if !startsWithText value constant then .ok none
      else .ok (some (.string (String.ofList (value.toList.drop constant.toList.length))))
  | .number value, .number constant =>
      .ok (some (.number (value.sub constant)))
  | _, _ => unsupported "Type mismatch in add comparison"

/-- The clauses of a bound, which may itself be a bracket. -/
def boundClauses : PrismaFilter → List PrismaFilter
  | .AND filters => filters
  | filter => [filter]

/-- `lo <= column <= hi`. An empty interval is a contradiction, and an unbounded one a
tautology. -/
def buildIntervalFilter (context : TranslationContext) (fieldRef : ResolvedFieldReference)
    (interval : DoubleInterval) : Except Refusal PrismaFilter :=
  let bound := fun operator d => buildComparisonFilter context fieldRef operator (.number d)
  match interval with
  | .empty => do return .AND [← bound .gt 0, ← bound .le 0]
  | .bounds none none => do return .OR [← bound .gt 0, ← bound .le 0]
  | .bounds lo hi => do
      let least ← lo.toList.mapM (bound .ge)
      let greatest ← hi.toList.mapM (bound .le)
      return match (least ++ greatest).flatMap boundClauses with
        | [filter] => filter
        | filters => .AND filters

/-- The comparison of `column + text` with a value, `!=` being the negation. -/
def handleConcatenation (context : TranslationContext) (fieldRef : ResolvedFieldReference)
    (operator : ComparisonOperator) (other constant : Literal) (fieldIsLeft : Bool) :
    Except Refusal PrismaFilter :=
  if operator.isOrdering then
    unsupported ("Operator " ++ operator.name ++ " is not supported with string concatenation")
  else do
    match ← solveAdd other constant fieldIsLeft with
    | some solvedValue => buildComparisonFilter context fieldRef operator solvedValue
    | none =>
        let equality ← buildFieldFilter fieldRef .equals other
        let inequality ← buildFieldFilter fieldRef .not other
        return if operator = .eq then .AND [equality, inequality] else .OR [equality, inequality]

section Arithmetic

variable [Double.Rounding]

/-- The comparison of arithmetic on a column with a number, solved for the column. -/
def handleNumericArithmetic (context : TranslationContext) (fieldRef : ResolvedFieldReference)
    (operator : ComparisonOperator) (arithOp : PlanOperator) (other constant : Literal)
    (fieldIsLeft : Bool) : Except Refusal PrismaFilter :=
  match constant, other with
  | .number c, .number v => do
      let interval ← solveArithmetic operator arithOp fieldIsLeft c v
      let filter ← buildIntervalFilter context fieldRef interval
      return if operator = .ne then .NOT filter else filter
  | _, _ => unsupported (arithOp.name ++ " comparison requires numeric operands")

def solvedComparison (context : TranslationContext) (fieldRef : ResolvedFieldReference)
    (operator : ComparisonOperator) (arithOp : PlanOperator) (other constant : Literal)
    (fieldIsLeft : Bool) : Except Refusal PrismaFilter :=
  match arithOp, constant with
  | .add, .string _ => handleConcatenation context fieldRef operator other constant fieldIsLeft
  | arithOp, constant =>
      handleNumericArithmetic context fieldRef operator arithOp other constant fieldIsLeft

variable (b : Builder) (evaluation : ConstantEvaluation)

/-- Arithmetic on the other side has to be of constants. -/
def assertFoldable (context : TranslationContext) : Node → Translation Unit
  | .expression operator operands =>
      if !isArithmetic operator then pure ()
      else do
        match ← tryFoldValueExpression evaluation operator
            (resolveEach evaluation b context operands) with
        | some _ => pure ()
        | none =>
            unsupported ("Arithmetic on both sides of a comparison is not supported: the " ++
              "expression cannot be solved to a plain column filter")
  | _ => pure ()

/-- `column ⊕ constant CMP value`, and its mirrored forms. -/
def handleArithmeticComparison (operator : ComparisonOperator) (arithOp : PlanOperator)
    (arithOperands : List Node) (other : Node) (arithIsLeft : Bool) (context : TranslationContext) :
    Translation PrismaFilter :=
  match arithOperands with
  | [] => unsupported (arithOp.name ++ " operator requires a left operand")
  | [_] => unsupported (arithOp.name ++ " operator requires a right operand")
  | left :: right :: _ => do
      assertFoldable b evaluation context other
      let arithLeft ← resolveOperand evaluation b context false left
      let arithRight ← resolveOperand evaluation b context false right
      let other ← resolveOperand evaluation b context false other
      let effectiveOperator := if arithIsLeft then operator else operator.mirrored
      match arithLeft, arithRight, other with
      | .value first _, .value second _, .field fieldRef => do
          let folded ← evaluation.arithmetic arithOp first second
          buildComparisonFilter context fieldRef
            (if arithIsLeft then operator.mirrored else operator) folded
      | .value first _, .value second _, .value _ _ => do
          let _ ← evaluation.arithmetic arithOp first second
          unsupported (arithOp.name ++ " with two values requires a field reference on the other side")
      | _, _, .field _ =>
          unsupported (arithOp.name ++ " operator with field references requires a value on the " ++
            "other side of the comparison")
      | .field fieldRef, .value constant _, .value value _ =>
          solvedComparison context fieldRef effectiveOperator arithOp value constant true
      | .value constant _, .field fieldRef, .value value _ =>
          solvedComparison context fieldRef effectiveOperator arithOp value constant false
      | .field _, .field _, .value _ _ =>
          unsupported (arithOp.name ++
            " operator requires exactly one field reference and one value, or two values")

end Arithmetic

/-! ## The length of a string column -/

/-- No store holds a string of this many characters. -/
def stringLengthCeiling : Int := 2 ^ 32

/-- Past this, a length threshold short of the ceiling is refused. -/
def maxLengthPattern : Int := 1024

/-- At least so many characters, as a LIKE pattern of `_`: Prisma does not escape the
wildcards of a `startsWith`. -/
def lengthAtLeast (fieldRef : ResolvedFieldReference) (count : Int) : Except Refusal PrismaFilter :=
  if stringLengthCeiling ≤ count then do
    return .NOT (← buildFieldFilter fieldRef .startsWith (.string ""))
  else if maxLengthPattern < count then
    unsupported ("Cannot translate a string length threshold of " ++ toString count ++
      ": the LIKE pattern it needs exceeds the " ++ toString maxLengthPattern ++ "-character limit")
  else
    buildFieldFilter fieldRef .startsWith
      (.string (String.ofList (List.replicate count.toNat '_')))

/-- `size(column) CMP n` over a string column. -/
def buildStringLengthFilter (fieldRef : ResolvedFieldReference) (predicate : CountPredicate) :
    Except Refusal PrismaFilter := do
  let filter ←
    if !predicate.isExact then lengthAtLeast fieldRef predicate.count
    else do
      let least ← lengthAtLeast fieldRef predicate.count
      let more ← lengthAtLeast fieldRef (predicate.count + 1)
      pure (.AND [least, .NOT more])
  return if predicate.negated then .NOT filter else filter

/-! ## An index into a map literal -/

/-- A property of an object, set in its place or at the end. -/
def setProperty (fields : List (String × Literal)) (key : String) (value : Literal) :
    List (String × Literal) :=
  if fields.any (·.1 = key) then fields.map fun field => if field.1 = key then (key, value) else field
  else fields ++ [(key, value)]

mutual

/-- A literal operand's value: a value, or a list or struct of literals. -/
def literalValue : Node → Option Literal
  | .value v => some v
  | .expression .list operands => PlanValue.array <$> literalValues operands
  | .expression .struct fields => PlanValue.object <$> literalFields [] fields
  | _ => none

def literalValues : List Node → Option (List Literal)
  | [] => some []
  | operand :: operands => do
      let v ← literalValue operand
      return v :: (← literalValues operands)

def literalFields (fields : List (String × Literal)) : List Node → Option (List (String × Literal))
  | [] => some fields
  | .expression .setField [.value (.string key), value] :: operands => do
      literalFields (setProperty fields key (← literalValue value)) operands
  | _ => none

end

/-- The map of an index into a map literal, its key, and what it is compared with. -/
def lookupOperands : List Node → Option (Option Literal × Node × Node)
  | [first, second] =>
      match if isMapLiteralLookup first then (first, second) else (second, first) with
      | (.expression _ [map, key], other) => some (literalValue map, key, other)
      | _ => none
  | _ => none

/-- `{"k": v, ...}[x] == v` and `!=`, as the keys that make it true, or false where its
negation is asked for: any other key is an error, and so under neither. -/
def tryHandleMapLiteralLookup (operator : PlanOperator) (operands : List Node)
    (context : TranslationContext) (negated : Bool) : Translation PrismaFilter :=
  match lookupOperands operands with
  | some (some (.object fields), .var name, .value other) =>
      if !context.scopes.isEmpty then
        unsupported ("An index into a map literal inside a lambda body is not supported: a missing " ++
          "key is an error under both polarities, and the macro negates its body with a plain NOT")
      else do
        let fieldRef ← reading (resolveFieldReference name context)
        if fieldRef.valueType ≠ some .string then
          unsupported ("An index into a map literal requires a string key column, and " ++ name ++
            " is not mapped with valueType: \"string\"")
        else
          let (matching, others) := fields.partition fun field => areValuesEqual field.2 other
          let holds := (operator = .eq) != negated
          buildFieldFilter fieldRef .in
            (.array ((if holds then matching else others).map fun field => .string field.1))
  | _ =>
      unsupported ("An index into a map literal is translated only as a literal map indexed by a " ++
        "column and compared with a literal: a Prisma filter has no map lookup")

/-! ## The dispatch -/

/-- A column reference, bare or wrapped in timestamp(). -/
def isColumnOperand : Node → Bool
  | .var _ => true
  | .expression .timestamp [.var _] => true
  | _ => false

def isTimestampCall : Node → Bool
  | .expression .timestamp _ => true
  | _ => false

def isMapCall : Node → Bool
  | .expression .map _ => true
  | _ => false

/-- Refuse a bare `dateTime` column compared with a `timestamp(...)` operand. -/
def assertNoRawTemporalAgainstTimestamp (column other : Node) (context : TranslationContext) :
    Translation Unit :=
  match column, isTimestampCall other with
  | .var name, true => do
      let fieldRef ← reading (resolveFieldReference name context)
      if fieldRef.valueType = some .dateTime then
        unsupported ("Cannot compare " ++ name ++ " with a timestamp: the attribute holds an RFC " ++
          "3339 string, and CEL has no overload comparing a string with a timestamp, so check() " ++
          "raises an error that no column filter reproduces under both polarities; wrap the " ++
          "attribute in timestamp()")
      else pure ()
  | _, _ => pure ()

section Dispatch

variable [Double.Rounding] (b : Builder) (evaluation : ConstantEvaluation)

/-- Two columns, of one mapped type; a temporal column has to be wrapped on both sides. -/
def compareColumns (operator : ComparisonOperator) (leftOperand : Node)
    (left : ResolvedFieldReference) (rightOperand : Node) (right : ResolvedFieldReference)
    (context : TranslationContext) : Except Refusal PrismaFilter :=
  if left.valueType = some .dateTime && right.valueType = some .dateTime &&
      !(isTimestampCall leftOperand && isTimestampCall rightOperand) then
    unsupported ("Raw temporal column comparison loses RFC-3339 string spelling; wrap both " ++
      "operands in timestamp()")
  else if left.valueType.isSome && right.valueType.isSome && left.valueType ≠ right.valueType then
    unsupported "Cannot compare fields with different mapped value types"
  else
    buildFieldToFieldFilter context (comparisonNode operator) leftOperand left rightOperand right

/-- Two operands, each a column or a constant once it is resolved. -/
def compareResolved (operator : ComparisonOperator) (left right : Node)
    (context : TranslationContext) : Translation PrismaFilter := do
  assertNoRawTemporalAgainstTimestamp left right context
  assertNoRawTemporalAgainstTimestamp right left context
  let oneColumn := isColumnOperand left != isColumnOperand right
  let resolvedLeft ← resolveOperand evaluation b context oneColumn left
  let resolvedRight ← resolveOperand evaluation b context oneColumn right
  match resolvedLeft, resolvedRight with
  | .value v subMillisecond, .field fieldRef =>
      buildValueComparisonFilter context fieldRef operator.mirrored v subMillisecond
  | .value v _, .value w _ => do
      if ← evaluation.comparison operator v w then return .empty else rejectConstantFalse
  | .field leftRef, .field rightRef => compareColumns operator left leftRef right rightRef context
  | .field fieldRef, .value v subMillisecond =>
      buildValueComparisonFilter context fieldRef operator v subMillisecond

/-- The rest of `handleRelationalOperator`, once an operand is computed or both are columns. -/
def compareComputed (operator : ComparisonOperator) (left right : Node)
    (context : TranslationContext) : Translation PrismaFilter :=
  match left, right with
  | .expression .size [], _ => unsupported "size operator requires a named collection operand"
  | .expression .size (collection :: _), value =>
      handleSizeComparison buildStringLengthFilter operator collection value context
  | left, right =>
      match arithmeticOf left, arithmeticOf right with
      | some (arithOp, operands), _ =>
          handleArithmeticComparison b evaluation operator arithOp operands right true context
      | none, some (arithOp, operands) =>
          handleArithmeticComparison b evaluation operator arithOp operands left false context
      | none, none =>
          if isMapCall left || isMapCall right then
            unsupported ("Direct comparison of map(...) to a value is not supported (operator: " ++
              operator.name ++
              "). Wrap the map() expression in hasIntersection(map(...), [...]) instead.")
          else compareResolved b evaluation operator left right context
where
  arithmeticOf : Node → Option (PlanOperator × List Node)
    | .expression operator operands => if isArithmetic operator then some (operator, operands) else none
    | _ => none

/-- The operators that a condition can be made of besides connectives, comparisons and macros. -/
def isTranslated : PlanOperator → Bool
  | .if | .in | .contains | .startsWith | .endsWith | .matches | .hasIntersection | .lambda | .map
  | .overlaps | .ancestorOf | .descendentOf => true
  | _ => false

/-- The handlers with the comparisons of a computed operand. -/
def withComparisons (handlers : Builder → Builder) (b : Builder) : Builder :=
  { handlers b with
    mapLiteralLookup := tryHandleMapLiteralLookup
    upperAsciiComparison := tryHandleUpperAsciiComparison
    computedComparison := compareComputed b evaluation
    other := fun operator operands context =>
      if isTranslated operator then (handlers b).other operator operands context
      else unsupported ("Unsupported operator: " ++ operator.name) }

end Dispatch

end QueryPlanAdapters.Prisma
