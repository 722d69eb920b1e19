import QueryPlanAdapters.Prisma.Rewrite

/-!
# Prisma: what the mapped types say of a leaf

The declared type of a column and the type of a literal can decide a comparison for
every row. A leaf has the outcomes that it can take across the rows, and one whose
outcomes are known is replaced by a constant, or by the presence of a column.
-/

namespace QueryPlanAdapters.Prisma

/-! ## Types -/

/-- The CEL type an operand is known to have. Numbers are one family. -/
inductive CelType where
  | string | number | boolean | null | list | map
  deriving DecidableEq, Repr

def valueType : Literal → CelType
  | .null => .null
  | .array _ => .list
  | .string _ => .string
  | .number _ => .number
  | .bool _ => .boolean
  | .object _ => .map

/-- Whether an element can never equal a value of a type other than null. -/
def isMismatch (type : CelType) (element : Literal) : Bool :=
  valueType element ≠ .null && valueType element ≠ type

/-- The type of a value, or of a `list(...)` or `struct(...)` constructor. -/
def literalType : Node → Option CelType
  | .value v => some (valueType v)
  | .expression .list _ => some .list
  | .expression .struct _ => some .map
  | _ => none

/-- An element of a literal list. A nested constructor stands in for its type. -/
def literalElement (element : Node) : Option Literal :=
  match element, literalType element with
  | .value v, _ => some v
  | _, some .list => some (.array [])
  | _, some .map => some (.object [])
  | _, _ => none

def literalElements : Node → Option (List Literal)
  | .value (.array items) => some items
  | .expression .list operands => operands.mapM literalElement
  | _ => none

structure KnownType where
  type : CelType
  mayBeMissing : Bool

/-- Date-time columns are RFC 3339 strings in CEL but not in the store. -/
def scalarType : Option MappedType → Option CelType
  | some .string => some .string
  | some .number => some .number
  | some .boolean => some .boolean
  | _ => none

/-- Whether reading the reference can be a missing-attribute error. -/
def mayBeMissing (fieldRef : ResolvedFieldReference) : Bool :=
  if (fieldRef.relations.getD []).any (·.type = .one) then true
  else if isExplicitNullReference fieldRef then false
  else fieldRef.nullable ≠ some false

def operandType (operand : Node) (context : TranslationContext) : Reading (Option KnownType) :=
  match literalType operand, operand with
  | some type, _ => return some { type, mayBeMissing := false }
  | none, .var name => do
      let fieldRef ← resolveFieldReference name context
      return do
        let type ← scalarType fieldRef.valueType
        -- What is not reached through to-one relations only is a collection.
        if (fieldRef.relations.getD []).any (·.type ≠ .one) then none
        else some { type, mayBeMissing := mayBeMissing fieldRef }
  | none, _ => return none

/-- The context that a lambda body over a collection resolves its references in. -/
def scopedContext (context : TranslationContext) (collectionName variableName : String) :
    Reading (Option TranslationContext) := do
  let fieldRef ← resolveFieldReference collectionName context
  return (fieldRef.relations.bind List.getLast?).map fun last =>
    enterLambdaScope context collectionName { variableName, relationModel := last.model }

/-- The declared type of the projected element column of a list. -/
def elementFieldValueType (context : TranslationContext) (reference field : String) :
    Reading (Option MappedType) := do
  let config ← lookupMapping context.mapper reference
  return do
    let relation ← (← config).relation
    let fields ← relation.fields
    (← fields.lookup field).valueType

/-- The element type of a mapped list: a list of one column, or `map()` onto one. -/
def collectionElementType (operand : Node) (context : TranslationContext) :
    Reading (Option KnownType) :=
  match operand with
  | .var name => do
      let fieldRef ← resolveFieldReference name context
      let relations := fieldRef.relations.getD []
      match (relations.getLast?.filter (·.type = .many)).bind RelationConfig.field with
      | none => return none
      | some field =>
          let config ← lookupMapping context.mapper name
          let projected ← elementFieldValueType context name field
          let declared := (config.bind MapperConfig.valueType).orElse fun _ => projected
          return (scalarType declared).map fun type =>
            { type, mayBeMissing := relations.any (·.type = .one) }
  | .expression .map (.var collection :: .expression .lambda (.var projection :: .var name :: _) :: _) => do
      match ← scopedContext context collection name with
      | none => return none
      | some inner =>
          let fieldRef ← resolveFieldReference projection inner
          -- An element without the projected column makes the whole list an error.
          return (scalarType fieldRef.valueType).map fun type => { type, mayBeMissing := true }
  | _ => return none

/-! ## Presence -/

/-- A predicate that is TRUE for a present value of the column and UNKNOWN for a NULL. -/
def presence (name : String) (fieldRef : ResolvedFieldReference) : Option Node :=
  let compare := fun (operator : PlanOperator) (v : Literal) =>
    (.expression operator [.var name, .value v] : Node)
  match scalarType fieldRef.valueType with
  | some .string => some (compare .startsWith (.string ""))
  | some .number => some (.expression .or [compare .gt (.number 0), compare .le (.number 0)])
  | some .boolean => some (.expression .or [compare .eq (.bool true), compare .eq (.bool false)])
  | _ => none

/-! ## Outcomes -/

/-- The values one leaf can take across the rows. -/
structure Outcomes where
  canHold : Bool := false
  canFail : Bool := false
  canErr : Bool := false
  /-- The presence of each column whose absence is the only error. -/
  missing : Option (List Node) := none
  /-- TRUE when the column that to-one relations lead to is there, and never TRUE otherwise. -/
  reached : Option Node := none

/-- The columns that may be missing among some operands, by their presence. -/
def missingOperands (context : TranslationContext) : List Node → Reading (List (Option Node))
  | [] => return []
  | .var name :: operands => do
      let fieldRef ← resolveFieldReference name context
      let rest ← missingOperands context operands
      return if mayBeMissing fieldRef then presence name fieldRef :: rest else rest
  | _ :: operands => missingOperands context operands

/-- A leaf with one value whenever its operands are there. -/
def definite (value : Bool) (operands : List Node) (context : TranslationContext) :
    Reading Outcomes := do
  let missing ← missingOperands context operands
  let known := missing.mapM id
  return {
    canHold := value
    canFail := !value
    canErr := !missing.isEmpty
    missing := known }

/-- `leafOutcomes`, of an `in`. -/
def membershipOutcomes (member collection : Node) (context : TranslationContext) :
    Reading (Option Outcomes) := do
  match literalType member, ← collectionElementType collection context with
  | some memberType, some list =>
      if memberType ≠ .null then
        return if memberType = list.type then none
          else some { canFail := true, canErr := list.mayBeMissing }
      else inElements
  | _, _ => inElements
where
  /-- A member against a literal list, none of whose elements it can equal. -/
  inElements : Reading (Option Outcomes) := do
    match ← operandType member context, literalElements collection with
    | some field, some elements =>
        if elements.all (isMismatch field.type) then return some (← definite false [member] context)
        else return none
    | _, _ => return none

/-- `leafOutcomes`, of a `hasIntersection`. -/
def intersectionOutcomes (left right : Node) (context : TranslationContext) :
    Reading (Option Outcomes) := do
  match ← collectionElementType left context, literalElements right with
  | some element, some elements => return outcomes element elements
  | _, _ =>
      match ← collectionElementType right context, literalElements left with
      | some element, some elements => return outcomes element elements
      | _, _ => return none
where
  outcomes (element : KnownType) (elements : List Literal) : Option Outcomes :=
    if elements.all (isMismatch element.type) then
      some { canFail := true, canErr := element.mayBeMissing }
    else none

/-- The literal list without the elements that can never equal, if it has some. -/
def pruneLiteralList (operand : Node) (type : CelType) : Option Node :=
  match operand with
  | .value (.array items) =>
      let kept := items.filter (!isMismatch type ·)
      if kept.length = items.length || kept.isEmpty then none else some (.value (.array kept))
  | _ => none

/-- Drop the elements of a literal list that can never equal the other side. -/
def rewriteLiteralLists (operator : PlanOperator) (operands : List Node)
    (context : TranslationContext) : Reading Node :=
  let unchanged : Node := .expression operator operands
  match operator, operands with
  | .in, [first, second] => do
      let field ← operandType first context
      let pruned := field.bind fun field => pruneLiteralList second field.type
      return (pruned.map fun pruned => .expression operator [first, pruned]).getD unchanged
  | .hasIntersection, [first, second] => do
      match ← collectionElementType first context with
      | some leftList =>
          let pruned := pruneLiteralList second leftList.type
          return (pruned.map fun pruned => .expression operator [first, pruned]).getD unchanged
      | none =>
          let rightList ← collectionElementType second context
          let pruned := rightList.bind fun rightList => pruneLiteralList first rightList.type
          return (pruned.map fun pruned => .expression operator [pruned, second]).getD unchanged
  | _, _ => return unchanged

/-! ## Settling -/

/-- What decides the same rows as a leaf of these outcomes, under an even or an odd number
of negations. -/
def settleOutcomes (leaf : Node) (outcomes : Outcomes) (positive : Bool) : Node :=
  match outcomes.missing with
  | some missing =>
      if outcomes.canHold != outcomes.canFail then settleMissing missing else settleValue
  | none => settleValue
where
  settleMissing (missing : List Node) : Node :=
    match missing with
    | [] => .value (.bool outcomes.canHold)
    | missing =>
        let present : Node :=
          match missing with
          | [present] => present
          | missing => .expression .and missing
        if outcomes.canHold then present else .expression .not [present]
  settleValue : Node :=
    if positive && !outcomes.canHold then .value (.bool false)
    else if !positive && !outcomes.canFail then .value (.bool true)
    else match outcomes.reached with
      | some reached => if positive then reached else .expression .not [reached]
      | none =>
          if !outcomes.canErr && !(outcomes.canHold && outcomes.canFail) then
            .value (.bool outcomes.canHold)
          else leaf

/-- `settleTypeMismatches`, of an `in` or a `hasIntersection`, which no rewrite takes. -/
def settleMembership (operator : PlanOperator) (operands : List Node) (context : TranslationContext)
    (positive : Bool) : Reading Node := do
  let outcomes ← match operator, operands with
    | .in, [member, collection] => membershipOutcomes member collection context
    | .hasIntersection, [left, right] => intersectionOutcomes left right context
    | _, _ => pure none
  match outcomes with
  | none => rewriteLiteralLists operator operands context
  | some outcomes => return settleOutcomes (.expression operator operands) outcomes positive

end QueryPlanAdapters.Prisma
