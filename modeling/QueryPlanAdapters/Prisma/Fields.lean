import QueryPlanAdapters.Prisma.Mapping

/-!
# Prisma: predicates on one column, and relation filters

The leaves every operator bottoms out in, nested through the relations a reference
crosses.
-/

namespace QueryPlanAdapters.Prisma

/-! ## Refusals -/

inductive Refusal where
  /-- `UnsupportedQueryPlanError` -/
  | unsupported (message : String)
  /-- `Error` -/
  | error (message : String)
  /-- The model's own bound on the recursion, which the code does not have. -/
  | outOfFuel

def unsupported {μ : Type → Type} [MonadExcept Refusal μ] {α : Type} (message : String) : μ α :=
  throw (.unsupported message)

/-! ## Relations -/

/-- The Prisma operator that reaches into a relation for an existence test. -/
def relationOperator (relation : RelationConfig) : RelationOperator :=
  match relation.type with
  | .one => .is
  | .many => .some

/-- One relation-scoped filter, narrowed by the store-side predicate the caller declared.
`every` cannot absorb the predicate, and becomes the equivalent `none`. -/
def relationFilter (relation : RelationConfig) (operator : RelationOperator)
    (inner : PrismaFilter) : PrismaFilter :=
  match relation.subqueryFilter with
  | none => .relation relation.name operator inner
  | some declared =>
      if operator = .every then
        if inner.isEmpty then .relation relation.name .every inner
        else .relation relation.name .none (.AND [declared, .NOT inner])
      else
        .relation relation.name operator
          (if inner.isEmpty then declared else .AND [declared, inner])

/-- A filter nested through every relation, outermost first. -/
def wrapInRelations (relations : List RelationConfig) (filter : PrismaFilter) : PrismaFilter :=
  relations.foldr (fun relation current =>
    relationFilter relation (relationOperator relation) current) filter

/-- "Every one of these relations exists." -/
def buildHopsExistFilter (hops : List RelationConfig) : Option PrismaFilter :=
  if hops.isEmpty then none else some (wrapInRelations hops .empty)

/-- "Every intermediate hop of a dotted path exists", nothing for a direct relation. -/
def buildLeadingHopsExistFilter (head : RelationConfig) (restRelations : List RelationConfig) :
    Option PrismaFilter :=
  if restRelations.isEmpty then none else buildHopsExistFilter (head :: restRelations.dropLast)

/-- `{ NOT: filter }`. An unconditional filter cannot be negated this way. -/
def negateFilter (filter : PrismaFilter) : Except Refusal PrismaFilter :=
  if filter.isEmpty then
    unsupported ("Cannot negate an unconditional filter: Prisma evaluates { NOT: {} } as true and " ++
      "matches every row, where the negated condition matches none")
  else .ok (.NOT filter)

/-! ## Fields -/

def getLeafField (path : List String) : Except Refusal String :=
  match truthy path.getLast? with
  | some fieldName => .ok fieldName
  | none => throw (.error "Field path cannot be empty")

/-- `{ field: { [prismaOp]: value } }`, nested through the field's relations. -/
def buildFieldFilter (fieldRef : ResolvedFieldReference) (prismaOp : FieldOperator)
    (value : Literal) : Except Refusal PrismaFilter := do
  let fieldName ← getLeafField fieldRef.path
  return wrapInRelations (fieldRef.relations.getD []) (.field fieldName prismaOp value)

/-- `field IS NOT NULL AND <leaf>`, so that a NULL column makes it FALSE. -/
def guardedFieldFilter (fieldRef : ResolvedFieldReference) (leaf : PrismaFilter) :
    Except Refusal PrismaFilter := do
  let fieldName ← getLeafField fieldRef.path
  return wrapInRelations (fieldRef.relations.getD []) (.AND [.field fieldName .not .null, leaf])

/-- JavaScript's `typeof`, of a value that is no object. -/
def MappedType.holds (type : MappedType) : Literal → Bool
  | .string _ => type = .string
  | .number _ => type = .number
  | .bool _ => type = .boolean
  | _ => false

def MappedType.name : MappedType → String
  | dateTime => "dateTime"
  | string => "string"
  | number => "number"
  | boolean => "boolean"

def assertScalarValue (fieldRef : ResolvedFieldReference) (value : Literal) (operator : String) :
    Except Refusal Unit :=
  match value, fieldRef.valueType with
  | .array _, _ | .object _, _ =>
      unsupported (operator ++ " requires scalar values: Prisma cannot compare list or map elements")
  | .null, _ | _, none | _, some .dateTime => .ok ()
  | value, some type =>
      if type.holds value then .ok ()
      else unsupported (operator ++ " value type does not match mapped " ++ type.name ++ " field")

/-- The two-clause bracket of a fractional constant, which Prisma truncates on an integer
column. -/
def fractionalBracket (fieldName : String) (operator : ComparisonOperator) (value : Double) :
    PrismaFilter :=
  let exact := fun op => PrismaFilter.field fieldName op (.number value)
  let lower := fun op => PrismaFilter.field fieldName op (.number value.floor)
  let upper := fun op => PrismaFilter.field fieldName op (.number value.ceil)
  let equalsBracket := PrismaFilter.AND [exact .equals, lower .gt, upper .lt]
  match operator with
  | .gt => .OR [exact .gt, upper .gte]
  | .ge => .AND [exact .gte, lower .gt]
  | .lt => .OR [exact .lt, lower .lte]
  | .le => .AND [exact .lte, upper .lt]
  | .eq => equalsBracket
  | .ne => .NOT equalsBracket

/-- An ordering against a boolean constant, as the set of booleans that satisfy it. -/
def buildBooleanOrderingFilter (fieldRef : ResolvedFieldReference) (operator : ComparisonOperator)
    (value : Bool) : Except Refusal PrismaFilter :=
  let satisfied := [false, true].filter fun candidate =>
    operator.test (.finite candidate.toNat) (.finite value.toNat)
  match satisfied with
  | [candidate] => buildFieldFilter fieldRef .equals (.bool candidate)
  | satisfied => do
      let fieldName ← getLeafField fieldRef.path
      let both := [PrismaFilter.field fieldName .equals (.bool false),
        .field fieldName .equals (.bool true)]
      return wrapInRelations (fieldRef.relations.getD [])
        (if satisfied.isEmpty then .AND both else .OR both)

/-- The scalar filter each comparison lowers to. -/
def prismaOperator : ComparisonOperator → FieldOperator
  | .eq => .equals
  | .ne => .not
  | .lt => .lt
  | .le => .lte
  | .gt => .gt
  | .ge => .gte

/-- Refuse a null operand where the caller sends no attribute for a NULL. -/
def assertNullOperandTranslatable (translation : TranslationContext) (context : String)
    (declared : Option NullAttributeRepresentation) : Except Refusal Unit :=
  if declared.getD translation.nullRepresentation = .omitted then
    unsupported ("Cannot translate " ++ context ++ " under nullAttributeRepresentation " ++
      "\"omitted\": a NULL column sends no attribute, so Cerbos evaluates the comparison as a " ++
      "missing-attribute error (deny) while a NULL-selecting filter would return those rows. " ++
      "Send NULL columns as explicit nulls and use \"explicit\", or keep this shape out of the " ++
      "policy.")
  else .ok ()

/-- A comparison of a column with a constant. -/
def buildComparisonFilter (context : TranslationContext) (fieldRef : ResolvedFieldReference)
    (operator : ComparisonOperator) (value : Literal) : Except Refusal PrismaFilter := do
  assertScalarValue fieldRef value operator.name
  match value with
  | .null =>
      assertNullOperandTranslatable context ("`" ++ operator.name ++ "` against a null operand")
        fieldRef.nullAttributeRepresentation
      buildFieldFilter fieldRef (prismaOperator operator) .null
  | value =>
      match value, operator.isOrdering with
      | .bool b, true => buildBooleanOrderingFilter fieldRef operator b
      | value, isOrdering =>
          if isExplicitNullReference fieldRef && !isOrdering then
            let fieldName ← getLeafField fieldRef.path
            let equality ← guardedFieldFilter fieldRef (.field fieldName .equals value)
            return if operator = .eq then equality else .NOT equality
          else match value with
            | .number d =>
                if d.isInteger then buildFieldFilter fieldRef (prismaOperator operator) value
                else do
                  let fieldName ← getLeafField fieldRef.path
                  return wrapInRelations (fieldRef.relations.getD [])
                    (fractionalBracket fieldName operator d)
            | value => buildFieldFilter fieldRef (prismaOperator operator) value

/-- "Some nullable element column that the lambda touched is NULL." -/
def buildNullWitnessFilter (nullableFields : List String) : PrismaFilter :=
  match nullableFields.map fun field => PrismaFilter.shorthand field .null with
  | [check] => check
  | checks => .OR checks

end QueryPlanAdapters.Prisma
