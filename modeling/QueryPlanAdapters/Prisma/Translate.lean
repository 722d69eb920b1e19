import QueryPlanAdapters.Prisma.Fields

/-!
# Prisma: the translator

One dispatch from a plan operator to its handler, and the negation they share. Each
lambda being translated keeps the nullable columns its body reads and the filters
under which a nested collection expression is UNKNOWN; that is the state of a
translation. The two directions call each other, so each takes them as a builder's
fields and the recursion is closed over a bound on its depth. Operators and operand
shapes that are handled elsewhere are handlers of the builder.
-/

namespace QueryPlanAdapters.Prisma

/-- What is recorded with a lambda while its body is translated. -/
structure ScopeRecord where
  nullableFields : List String := []
  unknownFilters : List PrismaFilter := []

def ScopeRecord.addNullable (scope : ScopeRecord) (field : String) : ScopeRecord :=
  if field ∈ scope.nullableFields then scope
  else { scope with nullableFields := scope.nullableFields ++ [field] }

def ScopeRecord.addUnknown (scope : ScopeRecord) (filter : PrismaFilter) : ScopeRecord :=
  { scope with unknownFilters := scope.unknownFilters ++ [filter] }

/-- The state has one record for each enclosing lambda, the outermost first. -/
abbrev Translation := StateT (List ScopeRecord) (Except Refusal)

/-- Run a lookup, and keep what it records. -/
def reading {α : Type} (x : Reading α) : Translation α :=
  modifyGet fun scopes =>
    (x.result, x.recorded.foldl (fun scopes entry =>
      scopes.modify entry.1 (·.addNullable entry.2)) scopes)

/-- Record with the innermost lambda, if there is one. -/
def recordUnknown (context : TranslationContext) (filter : PrismaFilter) : Translation Unit :=
  if context.scopes.isEmpty then pure ()
  else modify (·.modify (context.scopes.length - 1) (·.addUnknown filter))

/-- Translate a lambda body, with a record of its own. -/
def withLambdaScope {α : Type} (body : Translation α) : Translation (α × ScopeRecord) := do
  modify (· ++ [{}])
  let a ← body
  let scopes ← get
  set scopes.dropLast
  return (a, scopes.getLast?.getD {})

/-! ## Shapes of operands -/

/-- The boolean collection macros: each takes a collection and a lambda. -/
def isCollectionOperator : PlanOperator → Bool
  | .exists | .existsOne | .all | .except | .filter => true
  | _ => false

def isTernary : Node → Bool
  | .expression .if _ => true
  | _ => false

/-- `{"k": v, ...}[x]` -/
def isMapLiteralLookup : Node → Bool
  | .expression .index [.expression .struct _, _] => true
  | _ => false

def isUpperAscii : Node → Bool
  | .expression .upperAscii _ => true
  | _ => false

mutual

def containsCollectionOperator : Node → Bool
  | .expression operator operands =>
      isCollectionOperator operator || containsCollectionOperatorEach operands
  | _ => false

def containsCollectionOperatorEach : List Node → Bool
  | [] => false
  | operand :: operands =>
      containsCollectionOperator operand || containsCollectionOperatorEach operands

end

mutual

/-- Whether a map-literal lookup appears anywhere in an operand. -/
def containsMapLiteralLookup : Node → Bool
  | .expression operator operands =>
      containsMapLiteralLookupEach operands || isMapLiteralLookup (.expression operator operands)
  | _ => false

def containsMapLiteralLookupEach : List Node → Bool
  | [] => false
  | operand :: operands =>
      containsMapLiteralLookup operand || containsMapLiteralLookupEach operands

end

/-- Whether `tryHandleTernaryComparison` takes a comparison or membership. -/
def isTernaryComparison (operator : PlanOperator) (operands : List Node) : Bool :=
  ((comparisonOperator operator).isSome || operator = .in) && operands.any isTernary

/-- Whether an equality of two operands has one of a given shape. -/
def isEqualityOver (shape : Node → Bool) (operator : PlanOperator) (operands : List Node) : Bool :=
  (operator = .eq || operator = .ne) && operands.length = 2 && operands.any shape

/-- The plan's operator of a comparison. -/
def comparisonNode : ComparisonOperator → PlanOperator
  | .eq => .eq
  | .ne => .ne
  | .lt => .lt
  | .le => .le
  | .gt => .gt
  | .ge => .ge

@[simp] theorem comparisonOperator_comparisonNode (operator : ComparisonOperator) :
    comparisonOperator (comparisonNode operator) = some operator := by
  cases operator <;> rfl

/-- A binary comparison, with a constant that comes first moved to the other side. -/
def normalizeBinaryOperands (operator : ComparisonOperator) (operands : List Node) :
    ComparisonOperator × List Node :=
  match operands with
  | [first, second] =>
      if first.isValue && !second.isValue then (operator.mirrored, [second, first])
      else (operator, operands)
  | operands => (operator, operands)

/-! ## Hops -/

mutual

/-- The references of an expression, outside of its lambdas. -/
def visitedReferences : Node → List String
  | .var name => [name]
  | .value _ => []
  | .expression operator operands =>
      if operator = .lambda then [] else visitedReferencesEach operands

def visitedReferencesEach : List Node → List String
  | [] => []
  | operand :: operands => visitedReferences operand ++ visitedReferencesEach operands

end

/-- The to-one relations that a reference needs: all but a collection at its end. -/
def requiredHops (relations : List RelationConfig) : List RelationConfig :=
  match relations.getLast? with
  | none => []
  | some last => if last.type = .one then relations else relations.dropLast

/-- The hop requirement of each reference that has one. -/
def hopFilters (context : TranslationContext) : List String → Reading (List PrismaFilter)
  | [] => pure []
  | name :: names => do
      let reference ← resolveFieldReference name context
      let filters ← hopFilters context names
      return (buildHopsExistFilter (requiredHops (reference.relations.getD []))).toList ++ filters

/-- "Every to-one hop this expression dots through exists." -/
def buildExpressionHopsExistFilter (operand : Node) (context : TranslationContext) :
    Reading (Option PrismaFilter) := do
  match ← hopFilters context (visitedReferences operand).eraseDups with
  | [] => return none
  | [filter] => return some filter
  | filters => return some (.AND filters)

/-- Whether negating an expression needs a hop requirement. -/
def referencesRequiredHop (operand : Node) (context : TranslationContext) : Reading Bool := do
  return (← buildExpressionHopsExistFilter operand context).isSome

/-- `{ NOT: filter }`, with every to-one hop that `operand` dots through required outside
the negation. -/
def negateRequiringHops (operand : Node) (filter : PrismaFilter) (context : TranslationContext) :
    Translation PrismaFilter := do
  let hops ← reading (buildExpressionHopsExistFilter operand context)
  let negated ← negateFilter filter
  return hops.elim negated fun hops => .AND [hops, negated]

/-! ## Collection macros -/

structure CollectionLambdaParts where
  head : RelationConfig
  restRelations : List RelationConfig
  /-- The element predicate, wrapped through the relations beyond the first. -/
  filterValue : PrismaFilter
  elementFilter : PrismaFilter
  nullableFields : List String
  unknownFilters : List PrismaFilter

/-- "The body is UNKNOWN on the element", when it can be. -/
def buildUnknownElementFilter (parts : CollectionLambdaParts) : Option PrismaFilter :=
  let witness :=
    if parts.nullableFields.isEmpty then [] else [buildNullWitnessFilter parts.nullableFields]
  match parts.unknownFilters ++ witness with
  | [] => none
  | [filter] => some filter
  | filters => some (.OR filters)

/-- Wrap an element's filter through the full relation chain. -/
def wrapCollectionElementFilter (parts : CollectionLambdaParts) (elementFilter : PrismaFilter) :
    PrismaFilter :=
  relationFilter parts.head .some (wrapInRelations parts.restRelations elementFilter)

/-- all() over a chain: the predicate must hold at the end of every path, and the hops
must exist. -/
def positiveChainAllFilter (parts : CollectionLambdaParts) : PrismaFilter :=
  let universal := parts.restRelations.foldr (fun relation universal =>
    relationFilter relation (if relation.type = .one then .is else .every) universal)
    parts.elementFilter
  let filters := (buildLeadingHopsExistFilter parts.head parts.restRelations).toList ++
    [relationFilter parts.head .every universal]
  if parts.nullableFields.isEmpty then .AND filters
  else .AND (filters ++
    [.NOT (wrapCollectionElementFilter parts (buildNullWitnessFilter parts.nullableFields))])

/-- Require that no element has NULL in a column the body reads. -/
def excludeNullElements (base : PrismaFilter) (parts : CollectionLambdaParts) : PrismaFilter :=
  if parts.nullableFields.isEmpty then base
  else .AND [base, relationFilter parts.head .none (buildNullWitnessFilter parts.nullableFields)]

def positiveCollectionFilter (operator : PlanOperator) (parts : CollectionLambdaParts)
    (context : TranslationContext) : Translation PrismaFilter :=
  match operator with
  | .exists => do
      let filter := relationFilter parts.head .some parts.filterValue
      -- An enclosing macro needs to know when this one is UNKNOWN.
      match buildUnknownElementFilter parts with
      | none => return filter
      | some unknownElement => do
          recordUnknown context
            (.AND [.NOT filter, wrapCollectionElementFilter parts unknownElement])
          return filter
  | .except => do return relationFilter parts.head .some (← negateFilter parts.filterValue)
  | .all =>
      if parts.restRelations.isEmpty then
        return excludeNullElements (relationFilter parts.head .every parts.filterValue) parts
      else return positiveChainAllFilter parts
  | operator => unsupported ("Unexpected operator: " ++ operator.name)

/-- The filter of a negated macro. An absent to-one parent stays denied. -/
def negatedCollectionFilter (operator : PlanOperator) (parts : CollectionLambdaParts) :
    Translation PrismaFilter :=
  let requireLeadingHops := fun filter =>
    (buildLeadingHopsExistFilter parts.head parts.restRelations).elim filter fun hops =>
      PrismaFilter.AND [hops, filter]
  match operator with
  | .exists =>
      let base := requireLeadingHops (.NOT (relationFilter parts.head .some parts.filterValue))
      match buildUnknownElementFilter parts with
      | none => return base
      | some unknownElement =>
          return .AND [base, .NOT (wrapCollectionElementFilter parts unknownElement)]
  | .all => do return wrapCollectionElementFilter parts (← negateFilter parts.elementFilter)
  | .except => do
      let negated ← negateFilter parts.filterValue
      return excludeNullElements (requireLeadingHops (relationFilter parts.head .none negated)) parts
  | operator => unsupported ("Unexpected operator: " ++ operator.name)

/-! ## Sizes -/

/-- What a comparison of a size with a number asks of it: at least, or exactly, a count. -/
structure CountPredicate where
  isExact : Bool
  count : Int
  negated : Bool
  deriving DecidableEq, Repr

def CountPredicate.atLeast (count : Int) (negated : Bool) : CountPredicate :=
  { isExact := false, count := max count 0, negated }

def countPredicate (operator : ComparisonOperator) (n : Double) : CountPredicate :=
  let exactly := fun negated =>
    -- A fractional size never equals anything, and a negative one never exists.
    if n.isInteger && 0 ≤ n.toRat then { isExact := true, count := ⌊n.toRat⌋, negated }
    else CountPredicate.atLeast 0 !negated
  match operator with
  | .gt => .atLeast (⌊n.toRat⌋ + 1) false
  | .ge => .atLeast ⌈n.toRat⌉ false
  | .lt => .atLeast ⌈n.toRat⌉ true
  | .le => .atLeast (⌊n.toRat⌋ + 1) true
  | .eq => exactly false
  | .ne => exactly true

/-- The comparison of the size of a relation with a count: only whether it is empty, and
whether the chain that reaches it exists, can be asked. -/
def relationSizeFilter (operator : ComparisonOperator) (predicate : CountPredicate)
    (hops : List RelationConfig) (deepest : RelationConfig) : Except Refusal PrismaFilter :=
  let isOne := !predicate.isExact && predicate.count = 1
  let isZero := predicate.isExact && predicate.count = 0
  let isNonEmpty := (isOne && !predicate.negated) || (isZero && predicate.negated)
  let isEmpty := (isOne && predicate.negated) || (isZero && !predicate.negated)
  if !predicate.isExact && predicate.count = 0 && !predicate.negated && !hops.isEmpty then
    return wrapInRelations hops .empty
  else if !isNonEmpty && !isEmpty then
    unsupported ("Unsupported size comparison: size(...) " ++ operator.name)
  else
    return wrapInRelations hops
      (relationFilter deepest (if isNonEmpty then .some else .none) .empty)

/-- `size(collection) CMP n`. The length of a string column is compared elsewhere. -/
def handleSizeComparison
    (stringLength : ResolvedFieldReference → CountPredicate → Except Refusal PrismaFilter)
    (operator : ComparisonOperator) (collection value : Node) (context : TranslationContext) :
    Translation PrismaFilter :=
  match collection, value with
  | .expression inner _, _ =>
      unsupported ("size() of " ++ inner.name ++ "(...) counts the elements of a derived list, and " ++
        "a Prisma relation filter can only test whether some, every or no related row matches, " ++
        "never count them")
  | .value _, _ => unsupported "size operator requires a named collection operand"
  | .var name, .value (.number n) =>
      if !n.isFinite then unsupported "size comparison requires a numeric value"
      else do
        let fieldRef ← reading (resolveFieldReference name context)
        match (fieldRef.relations.getD []).getLast? with
        | none =>
            if fieldRef.valueType = some .string then
              stringLength fieldRef (countPredicate operator n)
            else unsupported "size operator requires a relation mapping"
        | some deepest =>
            relationSizeFilter operator (countPredicate operator n)
              (fieldRef.relations.getD []).dropLast deepest
  | .var _, .value _ => unsupported "size comparison requires a numeric value"
  | .var _, _ => unsupported "size comparison requires a numeric value operand"

/-! ## The builder -/

/-- The translation in progress: the two directions, and the handlers of what is
translated elsewhere. -/
structure Builder where
  positive : Node → TranslationContext → Translation PrismaFilter
  negative : Node → TranslationContext → Translation PrismaFilter
  /-- The operators that are neither connectives, comparisons nor macros. -/
  other : PlanOperator → List Node → TranslationContext → Translation PrismaFilter
  /-- A comparison or membership with a ternary operand, or its negation. -/
  ternaryComparison : PlanOperator → List Node → TranslationContext → (negated : Bool) →
    Translation PrismaFilter
  /-- A comparison with an index into a map literal, or its negation. -/
  mapLiteralLookup : PlanOperator → List Node → TranslationContext → (negated : Bool) →
    Translation PrismaFilter
  upperAsciiComparison : PlanOperator → List Node → TranslationContext → Translation PrismaFilter
  /-- A comparison of which an operand is computed, or of two columns. -/
  computedComparison : ComparisonOperator → Node → Node → TranslationContext →
    Translation PrismaFilter
  /-- A macro over a literal list. -/
  foldKnownValueCollection : PlanOperator → Literal → Node → TranslationContext →
    (negated : Bool) → Translation PrismaFilter

namespace Builder

variable (b : Builder)

/-- The two operands a comparison has once its first reference or expression is found. -/
def comparedOperands (operands : List Node) : Except Refusal (Node × Node) :=
  match operands.findIdx? (!·.isValue) with
  | none => unsupported "No valid left operand found"
  | some i =>
      match operands[i]?, operands[if i = 0 then 1 else 0]? with
      | some left, some right => .ok (left, right)
      | _, _ => unsupported "No valid right operand found"

/-- `handleRelationalOperator` -/
def relationalOperator (operator : PlanOperator) (comparison : ComparisonOperator)
    (operands : List Node) (context : TranslationContext) : Translation PrismaFilter :=
  if isTernaryComparison operator operands then b.ternaryComparison operator operands context false
  else if isEqualityOver isMapLiteralLookup operator operands then
    b.mapLiteralLookup operator operands context false
  else if isEqualityOver isUpperAscii operator operands then
    b.upperAsciiComparison operator operands context
  else do
    let (comparison, operands) := normalizeBinaryOperands comparison operands
    let (left, right) ← comparedOperands operands
    match left, right with
    | .var name, .value v => do
        let fieldRef ← reading (resolveFieldReference name context)
        buildComparisonFilter context fieldRef comparison v
    | left, right => b.computedComparison comparison left right context

/-- The single variable of a lambda, and its body. -/
def lambdaOperands (operator : PlanOperator) (lambda : Node) : Except Refusal (Node × String) :=
  match lambda with
  | .expression lambdaOperator operands =>
      if lambdaOperator = .lambda && operands.length > 2 then
        unsupported (operator.name ++ " with a two-variable lambda: the first variable binds the " ++
          "element's list index or map key, and a Prisma relation filter tests related rows, " ++
          "which carry no position, and enumerates no map keys")
      else match operands with
        | body :: .var name :: _ => .ok (body, name)
        | _ => unsupported "Lambda variable must have a name"
  | _ => unsupported ("Second operand of " ++ operator.name ++ " must be a lambda expression")

def toOneMacroMessage (operator : PlanOperator) (collection : String) : String :=
  operator.name ++ " over " ++ collection ++ ": it is a to-one relation, which CEL reads as a map " ++
    "whose keys (the attribute names present on the related row) the macro ranges over, and a " ++
    "Prisma relation filter tests rows, not attribute names"

/-- The relations of a macro's collection, the last of which has to be to-many. -/
def collectionRelations (operator : PlanOperator) (collection : String)
    (relations : Option (List RelationConfig)) :
    Except Refusal (RelationConfig × List RelationConfig) :=
  match relations with
  | some (head :: rest) =>
      if (rest.getLast?.getD head).type = .one then
        unsupported (toOneMacroMessage operator collection)
      else .ok (head, rest)
  | _ => unsupported (operator.name ++ " operator requires a relation mapping")

def buildCollectionLambdaParts (operator : PlanOperator) (operands : List Node)
    (context : TranslationContext) : Translation CollectionLambdaParts :=
  match operands with
  | [.var collection, lambda] => do
      let (body, name) ← lambdaOperands operator lambda
      let reference ← reading (resolveFieldReference collection context)
      let (head, rest) ← collectionRelations operator collection reference.relations
      let scope : LambdaScope :=
        { variableName := name, relationModel := (rest.getLast?.getD head).model }
      let (condition, record) ←
        withLambdaScope (b.positive body (enterLambdaScope context collection scope))
      return {
        head
        restRelations := rest
        filterValue := wrapInRelations rest condition
        elementFilter := condition
        nullableFields := record.nullableFields
        unknownFilters := record.unknownFilters }
  | [_, _] =>
      unsupported ("First operand of " ++ operator.name ++ " must be a collection reference")
  | _ => unsupported (operator.name ++ " requires exactly two operands")

/-- `translateCollectionMacro` -/
def collectionMacro (operator : PlanOperator) (operands : List Node) (context : TranslationContext)
    (negated : Bool) : Translation PrismaFilter :=
  match operands, operator with
  | [.value elements, lambda], operator =>
      b.foldKnownValueCollection operator elements lambda context negated
  | _, .existsOne =>
      unsupported ("exists_one requires counting matching elements, which Prisma where-filters " ++
        "cannot express")
  | _, .filter =>
      unsupported ("The filter() collection operator returns a list, not a boolean. It cannot be " ++
        "used as a standalone condition. Use exists() or combine filter() with size() instead.")
  | operands, operator => do
      let parts ← b.buildCollectionLambdaParts operator operands context
      if negated then negatedCollectionFilter operator parts
      else positiveCollectionFilter operator parts context

/-- `buildPrismaFilterFromCerbosExpression` -/
def positiveStep (expression : Node) (context : TranslationContext) : Translation PrismaFilter :=
  match expression with
  | .var name => do
      let fieldRef ← reading (resolveFieldReference name context)
      buildFieldFilter fieldRef .equals (.bool true)
  | .value _ => unsupported "Invalid Cerbos expression structure"
  | .expression operator operands =>
      if (operator = .and || operator = .or) && operands.isEmpty then
        unsupported (operator.name ++ " requires at least one operand: an empty " ++ operator.name ++
          " is not something the planner emits, and translating it would produce an unconditional " ++
          "filter (\x7b AND: [] \x7d matches every row)")
      else match operator with
        | .and => do return .AND (← operands.mapM fun operand => b.positive operand context)
        | .or => do return .OR (← operands.mapM fun operand => b.positive operand context)
        | .not =>
            match operands with
            | operand :: _ => b.negative operand context
            | [] => unsupported "not operator requires an operand"
        | .exists | .existsOne | .all | .except | .filter =>
            b.collectionMacro operator operands context false
        | operator =>
            match comparisonOperator operator with
            | some comparison => b.relationalOperator operator comparison operands context
            | none => b.other operator operands context

/-- The negation of what no rule pushes it into. -/
def plainNegation (operand : Node) (context : TranslationContext) : Translation PrismaFilter := do
  let filter ← b.positive operand context
  negateRequiringHops operand filter context

/-- `buildNegatedFilter` -/
def negativeStep (operand : Node) (context : TranslationContext) : Translation PrismaFilter :=
  match operand with
  | .var name => do
      let fieldRef ← reading (resolveFieldReference name context)
      if (fieldRef.relations.getD []).isEmpty then
        buildFieldFilter { fieldRef with relations := none } .equals (.bool false)
      else b.plainNegation operand context
  | .value _ => b.plainNegation operand context
  | .expression operator operands =>
      if operator = .not then
        match operands with
        | operand :: _ => b.positive operand context
        | [] => unsupported "not requires an operand"
      else if isTernaryComparison operator operands then
        b.ternaryComparison operator operands context true
      else if isEqualityOver isMapLiteralLookup operator operands then
        b.mapLiteralLookup operator operands context true
      else do
        let pushes ←
          if containsCollectionOperator operand || containsMapLiteralLookup operand then pure true
          else reading (referencesRequiredHop operand context)
        if !pushes then b.plainNegation operand context
        else match operator with
          | .and => do return .OR (← operands.mapM fun operand => b.negative operand context)
          | .or => do return .AND (← operands.mapM fun operand => b.negative operand context)
          | .exists | .existsOne | .all | .except | .filter =>
              b.collectionMacro operator operands context true
          | operator =>
              if containsMapLiteralLookup operand then
                unsupported ("Cannot negate " ++ operator.name ++ " over an index into a map " ++
                  "literal: a missing key is an error under both polarities, and a NOT over its " ++
                  "filter would select it")
              else b.plainNegation operand context

end Builder

/-- The builder whose recursion is at most `fuel` deep, over the handlers of another. -/
def builder (handlers : Builder) : (fuel : Nat) → Builder
  | 0 =>
      { handlers with
        positive := fun _ _ => throw .outOfFuel
        negative := fun _ _ => throw .outOfFuel }
  | fuel + 1 =>
      { handlers with
        positive := (builder handlers fuel).positiveStep
        negative := (builder handlers fuel).negativeStep }

/-- The handlers with the comparison of a size. -/
def Builder.withSizes (handlers : Builder)
    (stringLength : ResolvedFieldReference → CountPredicate → Except Refusal PrismaFilter) :
    Builder :=
  { handlers with
    computedComparison := fun comparison left right context =>
      match left with
      | .expression .size (collection :: _) =>
          handleSizeComparison stringLength comparison collection right context
      | left => handlers.computedComparison comparison left right context }

/-- The context a translation starts in. -/
def rootContext (mapper : Mapper) (model : Option String)
    (nullRepresentation : NullAttributeRepresentation) : TranslationContext where
  mapper
  rootModel := model
  nullRepresentation
  scopes := []

end QueryPlanAdapters.Prisma
