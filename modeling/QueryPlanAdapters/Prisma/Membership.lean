import QueryPlanAdapters.Prisma.Ternary
import QueryPlanAdapters.Prisma.OperandTypes
import QueryPlanAdapters.Prisma.CaseFolding
import QueryPlanAdapters.Prisma.Hoisting

/-!
# Prisma: membership in a scalar

`in` needs a container, and CEL has no overload for a scalar. The handler takes a scalar
literal for a list of one element, and a column that no relation leads to for the list
that holds its value. What it then selects is decided by the equality of the column with
the literal.
-/

namespace QueryPlanAdapters.Prisma

open Sql

/-! ## Filters -/

/-- `field = value`, or `field IN values`. -/
def buildDirectOrInLeaf (fieldRef : ResolvedFieldReference) (values : List Literal) :
    Except Refusal PrismaFilter := do
  let fieldName ← getLeafField fieldRef.path
  return match values with
    | [value] => .shorthand fieldName value
    | values => .field fieldName .in (.array values)

def isNull : Literal → Bool
  | .null => true
  | _ => false

/-- `field IN values`, with what CEL makes of a null element and of an explicit null. -/
def buildMembershipFilter (context : TranslationContext) (fieldRef : ResolvedFieldReference)
    (values : List Literal) : Except Refusal PrismaFilter := do
  values.forM fun value => assertScalarValue fieldRef value "in"
  let nonNullValues := values.filter (!isNull ·)
  let carriesNull := nonNullValues.length ≠ values.length
  if carriesNull then
    assertNullOperandTranslatable context "a null element in an `in` list"
      fieldRef.nullAttributeRepresentation
  let members ←
    if !nonNullValues.isEmpty || values.isEmpty then do
      let leaf ← buildDirectOrInLeaf fieldRef nonNullValues
      -- A NULL column compares with every element, unless a null among them settles it.
      if carriesNull || !isExplicitNullReference fieldRef then
        pure [wrapInRelations (fieldRef.relations.getD []) leaf]
      else pure [← guardedFieldFilter fieldRef leaf]
    else pure []
  let nulls ←
    if carriesNull then do
      let leaf ← buildDirectOrInLeaf fieldRef [.null]
      pure [wrapInRelations (fieldRef.relations.getD []) leaf]
    else pure []
  return match members ++ nulls with
    | [filter] => filter
    | filters => .OR filters

/-! ## The handlers -/

/-- The relation that a reference names below its longest mapped relation of at most `count`
parts. -/
def chainedRelation (mapper : Mapper) (parts : List String) :
    (count : Nat) → Reading (Option RelationMapping)
  | 0 => pure none
  | count + 1 => do
      let config ← lookupMapping mapper (joinParts (parts.take (count + 1)))
      match config.bind MapperConfig.relation with
      | none => chainedRelation mapper parts count
      | some relation => return relationAlong (some relation) (parts.drop (count + 1))

/-- Whether a reference names a to-one relation itself, and no column reached through it. -/
def namesToOneRelation (mapper : Mapper) (reference : String) : Reading Bool := do
  let config ← lookupMapping mapper reference
  let relation ← match config.bind MapperConfig.relation with
    | some relation => pure (some relation)
    | none =>
        let parts := pathParts reference
        chainedRelation mapper parts (parts.length - 1)
  return relation.any fun relation => relation.type = .one && relation.field.isNone

/-- The elements of a literal container, which is one itself where it is no list. -/
def memberValues : Literal → List Literal
  | .array items => items
  | v => [v]

def toOneContainerMessage (collection : String) : String :=
  "in over " ++ collection ++ ": it is a to-one relation, which CEL reads as a map, and `in` over " ++
    "a map tests its keys (the attribute names present on the related row); a Prisma relation " ++
    "filter tests rows, not attribute names"

def builtListMessage (operator : String) : String :=
  "Membership in a list built by " ++ operator ++ "(...) from columns: each element is compared " ++
    "with the member, and a Prisma field reference compares two plain columns of one model, never " ++
    "a column with an expression over another column or with the elements of a related list"

def handleInOperator (b : Builder) (operands : List Node) (context : TranslationContext) :
    Translation PrismaFilter :=
  if isTernaryComparison .in operands && operands.length = 2 then
    b.ternaryComparison .in operands context false
  else match operands with
    | [.var member, .value collection] => do
        let fieldRef ← reading (resolveFieldReference member context)
        buildMembershipFilter context fieldRef (memberValues collection)
    | [.value member, .var collection] => do
        if ← reading (namesToOneRelation context.mapper collection) then
          unsupported (toOneContainerMessage collection)
        else
          let fieldRef ← reading (resolveFieldReference collection context)
          buildMembershipFilter context fieldRef [member]
    | [_, .expression .list _] => unsupported (builtListMessage "list")
    | [_, .expression .add _] => unsupported (builtListMessage "add")
    | [.var _, .var _] =>
        unsupported ("Membership between two database attributes is not supported: Prisma cannot " ++
          "compare a related element column with an outer scalar column")
    | [_, _] =>
        unsupported ("in requires a field member and literal list, or a literal member and field " ++
          "collection")
    | _ => unsupported "in requires exactly two operands"

/-- What a `hasIntersection` becomes. -/
inductive IntersectionFilter where
  | membership (filter : PrismaFilter)
  /-- `{ [field]: { some: values } }`, which is no filter of a scalar column: Prisma fails on it. -/
  | scalarSome (field : String) (values : List Literal)

/-- The rest of `handleMapIntersection`, of a `map` and a literal, is handled elsewhere. -/
def handleHasIntersectionOperator
    (mapIntersection : List Node → Node → TranslationContext → Translation PrismaFilter)
    (operands : List Node) (context : TranslationContext) : Translation IntersectionFilter :=
  let operands := match operands with
    | [first, second] => if first.isValue && !second.isValue then [second, first] else operands
    | operands => operands
  match operands with
  | [.expression .map mapOperands, right] =>
      if !right.isValue then unsupported "Second operand of hasIntersection must be a value"
      else .membership <$> mapIntersection mapOperands right context
  | [.var name, .value v] => do
      let fieldRef ← reading (resolveFieldReference name context)
      match v with
      | .array values =>
          if (fieldRef.relations.getD []).isEmpty then
            return .scalarSome (← getLeafField fieldRef.path) values
          else return .membership (← buildMembershipFilter context fieldRef values)
      | _ => unsupported "hasIntersection requires an array value"
  | [.var _, _] => unsupported "Second operand of hasIntersection must be a value"
  | [_, _] =>
      unsupported "First operand of hasIntersection must be a field reference or map expression"
  | _ => unsupported "hasIntersection requires exactly two operands"

/-- The handlers with membership and ternary operands. -/
def withMembership (evaluation : ConstantEvaluation) (handlers : Builder → Builder) (b : Builder) :
    Builder :=
  { handlers b with
    ternaryComparison := b.tryHandleTernaryComparison evaluation
    other := fun operator operands context =>
      if operator = .in then handleInOperator b operands context
      else (handlers b).other operator operands context }

/-! ## The plan -/

def operandName : Node → Option String
  | .var name => some name
  | _ => none

def isNullOperand : Node → Bool
  | .value v => isNull v
  | _ => false

mutual

/-- Fail with a null member of a struct literal that the caller's NULL is missing for. -/
def assertStructuralNulls (context : TranslationContext)
    (declared : Option NullAttributeRepresentation) : Node → Translation Unit
  | .expression operator operands => do
      let mapping ← match operands.findSome? operandName with
        | some sibling => reading (lookupMapping context.mapper sibling)
        | none => pure none
      let convention := (mapping.bind MapperConfig.nullAttributeRepresentation).orElse fun _ =>
        declared
      if operator = .setField && operands.any isNullOperand then
        assertNullOperandTranslatable context "a null member in a struct literal" convention
      assertStructuralNullsEach context convention operands
  | _ => pure ()

def assertStructuralNullsEach (context : TranslationContext)
    (declared : Option NullAttributeRepresentation) : List Node → Translation Unit
  | [] => pure ()
  | operand :: operands => do
      assertStructuralNulls context declared operand
      assertStructuralNullsEach context declared operands

end

/-- What a settled condition is answered with. -/
inductive PlannedFilter where
  | conditional (filter : PrismaFilter)
  /-- `{ [field]: { some: values } }`, or its negation. -/
  | scalarSome (field : String) (values : List Literal)
  | alwaysDenied

/-- Whether the query returns a record. One that Prisma fails on returns none. -/
def PlannedFilter.matches {ρ : Type} (engine : Engine) (store : Store ρ) (r : ρ) :
    PlannedFilter → Bool
  | .conditional filter => filter.matches engine store r
  | .scalarSome _ _ | .alwaysDenied => false

/-- A condition, or its negation. -/
def polarisedNode (negated : Bool) (node : Node) : Node :=
  if negated then .expression .not [node] else node

/-- The end of `queryPlanToPrisma`. -/
def answerCondition (b : Builder) (condition : Node) (context : TranslationContext) :
    Translation PlannedFilter :=
  match condition with
  | .value (.bool true) => return .conditional .empty
  | .value (.bool false) => return .alwaysDenied
  | .value _ => .conditional <$> rejectConstantFalse
  | condition => .conditional <$> b.positive condition context

/-- `queryPlanToPrisma`, of a membership or of its negation. The rewrites before the types
are settled change no more of it than the needle. -/
def planMembership (evaluation : ConstantEvaluation) (b : Builder) (negated : Bool)
    (needle container : Node) (context : TranslationContext) : Translation PlannedFilter := do
  let settled ← reading (settleMembership .in [needle, container] context !negated)
  let condition := polarisedNode negated settled
  assertStructuralNulls context none condition
  let folded ← constantFoldExpression evaluation condition
  answerCondition b folded context

def answerIntersection
    (mapIntersection : List Node → Node → TranslationContext → Translation PrismaFilter)
    (negated : Bool) (operands : List Node) (context : TranslationContext) :
    Translation PlannedFilter := do
  let node : Node := .expression .hasIntersection operands
  if negated && containsMapLiteralLookup node then
    unsupported ("Cannot negate hasIntersection over an index into a map literal: a missing key is " ++
      "an error under both polarities, and a NOT over its filter would select it")
  match ← handleHasIntersectionOperator mapIntersection operands context with
  | .scalarSome field values => return .scalarSome field values
  | .membership filter =>
      if negated then .conditional <$> negateRequiringHops node filter context
      else return .conditional filter

/-- `queryPlanToPrisma`, of a `hasIntersection` or of its negation. -/
def planIntersection (evaluation : ConstantEvaluation) (b : Builder)
    (mapIntersection : List Node → Node → TranslationContext → Translation PrismaFilter)
    (negated : Bool) (left right : Node) (context : TranslationContext) :
    Translation PlannedFilter := do
  let settled ← reading (settleMembership .hasIntersection [left, right] context !negated)
  let condition := polarisedNode negated settled
  assertStructuralNulls context none condition
  match ← constantFoldExpression evaluation condition with
  | .expression .hasIntersection operands =>
      answerIntersection mapIntersection false operands context
  | .expression .not [.expression .hasIntersection operands] =>
      answerIntersection mapIntersection true operands context
  | folded => answerCondition b folded context

/-! ## A scalar container -/

def isScalarLiteral : Literal → Bool
  | .array _ | .object _ => false
  | _ => true

/-- A scalar literal, or a column that is mapped without a relation. -/
def IsScalarContainer (context : TranslationContext) : Node → Prop
  | .value v => isScalarLiteral v = true
  | .var name => (resolveFieldReference name context).result.relations.getD [] = []
  | .expression _ _ => False

section Settled

variable {context : TranslationContext} {container : Node}

theorem collectionElementType_scalar (h : IsScalarContainer context container) :
    (collectionElementType container context).result = none := by
  cases container with
  | value v => rfl
  | var name =>
      have hrelations : (resolveFieldReference name context).result.relations.getD [] = [] := h
      simp [collectionElementType, hrelations]
  | expression => exact h.elim

theorem literalElements_scalar (h : IsScalarContainer context container) :
    literalElements container = none := by
  cases container with
  | value v => cases v <;> first | rfl | cases h
  | var name => rfl
  | expression => exact h.elim

theorem pruneLiteralList_scalar (h : IsScalarContainer context container) (type : CelType) :
    pruneLiteralList container type = none := by
  cases container with
  | value v => cases v <;> first | rfl | cases h
  | var name => rfl
  | expression => exact h.elim

/-- The declared types settle nothing about a membership in a scalar. -/
theorem settleMembership_scalar (h : IsScalarContainer context container) (needle : Node)
    (positive : Bool) :
    (settleMembership .in [needle, container] context positive).result =
      .expression .in [needle, container] := by
  have helements : (membershipOutcomes.inElements needle container context).result = none := by
    simp [membershipOutcomes.inElements, literalElements_scalar h]
  have houtcomes : (membershipOutcomes needle container context).result = none := by
    simp only [membershipOutcomes, Reading.bind_result, collectionElementType_scalar h]
    split
    next hnone => cases hnone
    next => exact helements
  simp [settleMembership, houtcomes, rewriteLiteralLists, pruneLiteralList_scalar h]

/-- Nor about an intersection with one. -/
theorem settleMembership_intersection {left right : Node}
    (h : IsScalarContainer context left ∨ IsScalarContainer context right) (positive : Bool) :
    (settleMembership .hasIntersection [left, right] context positive).result =
      .expression .hasIntersection [left, right] := by
  have houtcomes : (intersectionOutcomes left right context).result = none := by
    simp only [intersectionOutcomes, Reading.bind_result]
    obtain h | h := h
    · rw [collectionElementType_scalar h, literalElements_scalar h]
      cases literalElements right <;> cases (collectionElementType right context).result <;> simp
    · rw [literalElements_scalar h]
      cases (collectionElementType left context).result <;>
        simp [collectionElementType_scalar h]
  have hlists : (rewriteLiteralLists .hasIntersection [left, right] context).result =
      .expression .hasIntersection [left, right] := by
    simp only [rewriteLiteralLists, Reading.bind_result]
    obtain h | h := h
    · rw [collectionElementType_scalar h]
      cases (collectionElementType right context).result <;> simp [pruneLiteralList_scalar h]
    · cases (collectionElementType left context).result with
      | some leftList => simp [pruneLiteralList_scalar h]
      | none => simp [collectionElementType_scalar h]
  simp [settleMembership, houtcomes, hlists]

end Settled

/-! ## The filter of a member -/

section Filters

variable {context : TranslationContext} {fieldRef : ResolvedFieldReference} {v : Literal}
  {filter : PrismaFilter}

/-- The filter of an equality, with a guard where the column's NULL is the value null. -/
def memberLeaf (fieldRef : ResolvedFieldReference) (fieldName : String) (v : Literal) :
    PrismaFilter :=
  if isExplicitNullReference fieldRef && !isNull v then
    .AND [.field fieldName .not .null, .shorthand fieldName v]
  else .shorthand fieldName v

/-- Whether the plan takes a membership of a literal in one column. -/
structure TakesMember (context : TranslationContext) (fieldRef : ResolvedFieldReference)
    (v : Literal) (fieldName : String) : Prop where
  scalar : assertScalarValue fieldRef v "in" = .ok ()
  null : isNull v = true →
    fieldRef.nullAttributeRepresentation.getD context.nullRepresentation ≠ .omitted
  leaf : getLeafField fieldRef.path = .ok fieldName

theorem assertNullOperandTranslatable_eq_ok_iff {message : String}
    {declared : Option NullAttributeRepresentation} :
    assertNullOperandTranslatable context message declared = .ok () ↔
      declared.getD context.nullRepresentation ≠ .omitted := by
  rw [assertNullOperandTranslatable]
  split
  next h => exact iff_of_false (fun hok => by cases hok) (not_not.mpr h)
  next h => exact iff_of_true rfl h

/-- A membership in one literal is an equality. -/
theorem buildMembershipFilter_single :
    buildMembershipFilter context fieldRef [v] = (do
      assertScalarValue fieldRef v "in"
      (if isNull v then
        assertNullOperandTranslatable context "a null element in an `in` list"
          fieldRef.nullAttributeRepresentation
      else .ok () : Except Refusal Unit)
      let fieldName ← getLeafField fieldRef.path
      return wrapInRelations (fieldRef.relations.getD []) (memberLeaf fieldRef fieldName v)) := by
  have hforM : ([v].forM fun value => assertScalarValue fieldRef value "in") =
      assertScalarValue fieldRef v "in" := by
    rw [List.forM_eq_forM, List.forM_cons, List.forM_nil]
    cases assertScalarValue fieldRef v "in" <;> rfl
  rw [buildMembershipFilter, hforM]
  congr 1
  funext _
  cases hnull : isNull v with
  | true =>
      obtain rfl : v = .null := by
        cases v <;> first | rfl | cases hnull
      cases assertNullOperandTranslatable context "a null element in an `in` list"
        fieldRef.nullAttributeRepresentation <;> cases hleaf : getLeafField fieldRef.path <;>
        simp [isNull, buildDirectOrInLeaf, memberLeaf, hleaf]
  | false =>
      cases hleaf : getLeafField fieldRef.path <;> cases hexplicit : isExplicitNullReference fieldRef <;>
        simp [hnull, buildDirectOrInLeaf, guardedFieldFilter, memberLeaf, hleaf, hexplicit, bind,
          Except.bind, pure, Except.pure]

theorem buildMembershipFilter_eq_ok_iff :
    buildMembershipFilter context fieldRef [v] = .ok filter ↔
      ∃ fieldName, TakesMember context fieldRef v fieldName ∧
        filter = wrapInRelations (fieldRef.relations.getD []) (memberLeaf fieldRef fieldName v) := by
  rw [buildMembershipFilter_single, Except.bind_unit_eq_ok_iff, Except.bind_unit_eq_ok_iff]
  constructor
  · rintro ⟨hscalar, hnull, h⟩
    obtain ⟨fieldName, hleaf, h⟩ := Except.bind_eq_ok_iff.mp h
    refine ⟨fieldName, ⟨hscalar, fun hv => ?_, hleaf⟩, (Except.ok.inj h).symm⟩
    rw [if_pos hv] at hnull
    exact assertNullOperandTranslatable_eq_ok_iff.mp hnull
  · rintro ⟨fieldName, h, rfl⟩
    refine ⟨h.scalar, ?_, Except.bind_eq_ok_iff.mpr ⟨fieldName, h.leaf, rfl⟩⟩
    split
    next hv => exact assertNullOperandTranslatable_eq_ok_iff.mpr (h.null hv)
    next => rfl

end Filters

/-! ## What a member's filter selects -/

section Selection

variable {ρ : Type} (engine : Engine) (store : Store ρ)

/-- The equality of a column's value with a literal. A NULL is unequal to a value where the
column is declared explicit. -/
def memberTruth (fieldRef : ResolvedFieldReference) (v : Literal) (x : SqlValue) : Truth :=
  if isExplicitNullReference fieldRef && !isNull v && x.isNull then .no
  else fieldTruth engine .equals x v

/-- The equality of a record's column with a literal: of some column that relations lead to. -/
def columnEquals (fieldRef : ResolvedFieldReference) (fieldName : String) (v : Literal) (r : ρ) :
    Truth :=
  let relations := fieldRef.relations.getD []
  let equals := fun e => memberTruth engine fieldRef v (store.column e fieldName)
  if relations.isEmpty then equals r
  else .ofBool ((reached engine store relations r).any fun e => equals e = .yes)

/-- The equality does not select a record: it does not hold, or under a negation it holds, is
UNKNOWN, or a relation on the way to the column leads nowhere. -/
def MemberDenied (negated : Bool) (fieldRef : ResolvedFieldReference) (fieldName : String)
    (v : Literal) (r : ρ) : Prop :=
  if negated then
    columnEquals engine store fieldRef fieldName v r ≠ .no ∨
      (requiredHops (fieldRef.relations.getD []) ≠ [] ∧
        reached engine store (requiredHops (fieldRef.relations.getD [])) r = [])
  else columnEquals engine store fieldRef fieldName v r ≠ .yes

variable {engine store} {fieldRef : ResolvedFieldReference} {fieldName : String} {v : Literal}
  {r : ρ}

theorem truth_memberLeaf :
    (memberLeaf fieldRef fieldName v).truth engine store r =
      memberTruth engine fieldRef v (store.column r fieldName) := by
  rw [memberLeaf, memberTruth]
  cases isExplicitNullReference fieldRef && !isNull v with
  | false => rfl
  | true =>
      have hguard : (PrismaFilter.field fieldName .not .null).truth engine store r =
          .ofBool !(store.column r fieldName).isNull := rfl
      rw [if_pos rfl, PrismaFilter.truth_AND, List.map_cons, List.map_cons, List.map_nil, hguard]
      cases (store.column r fieldName).isNull <;> simp

theorem memberLeaf_isEmpty : (memberLeaf fieldRef fieldName v).isEmpty = false := by
  rw [memberLeaf]
  split <;> rfl

theorem truth_member :
    (wrapInRelations (fieldRef.relations.getD []) (memberLeaf fieldRef fieldName v)).truth engine
      store r = columnEquals engine store fieldRef fieldName v r := by
  rw [columnEquals.eq_def]
  by_cases hdirect : fieldRef.relations.getD [] = []
  · simp only [hdirect, List.isEmpty_nil, if_true, wrapInRelations, List.foldr_nil,
      truth_memberLeaf]
  · have hmatches : (memberLeaf fieldRef fieldName v).matches engine store = fun e =>
        decide (memberTruth engine fieldRef v (store.column e fieldName) = .yes) := by
      funext e
      rw [PrismaFilter.matches, truth_memberLeaf]
    simp only [truth_wrapInRelations hdirect, List.isEmpty_iff, if_neg hdirect, hmatches]

/-- What is selected by the filter of a member, or by its negation with the hops required. -/
theorem matches_member_iff (negated : Bool) {filter : PrismaFilter}
    (hfilter : filter =
      let member := wrapInRelations (fieldRef.relations.getD []) (memberLeaf fieldRef fieldName v)
      if negated then
        (buildHopsExistFilter (requiredHops (fieldRef.relations.getD []))).elim (.NOT member)
          fun hops => .AND [hops, .NOT member]
      else member) :
    filter.matches engine store r = false ↔
      MemberDenied engine store negated fieldRef fieldName v r := by
  subst hfilter
  rw [MemberDenied]
  cases negated with
  | false => simp [PrismaFilter.matches, truth_member]
  | true =>
      rw [if_pos rfl, if_pos rfl, PrismaFilter.matches,
        truth_negation (wrapInRelations_isEmpty memberLeaf_isEmpty), truth_member]
      split
      next hblocked => simp [hblocked]
      next hblocked =>
        rw [or_iff_left hblocked, decide_eq_false_iff_not, Truth.not_eq_yes_iff]

end Selection

/-! ## A literal and a column -/

/-- The column and the literal that a membership in a scalar compares. -/
def comparedMember (context : TranslationContext) : (needle container : Node) →
    Option (String × Literal)
  | .var name, .value v => some (name, v)
  | .value v, .var name =>
      if (namesToOneRelation context.mapper name).result then none else some (name, v)
  | _, _ => none

section Runs

variable {context : TranslationContext} {needle container : Node} {b : Builder}
  {scopes scopes' : List ScopeRecord} {filter : PrismaFilter}

theorem memberValues_scalar {v : Literal} (h : isScalarLiteral v = true) : memberValues v = [v] := by
  cases v <;> first | rfl | cases h

theorem isTernary_scalar (h : IsScalarContainer context container) :
    isTernary container = false := by
  cases container with
  | expression => exact h.elim
  | _ => rfl

theorem isTernaryComparison_in (h : IsScalarContainer context container) :
    isTernaryComparison .in [needle, container] = isTernary needle := by
  simp [isTernaryComparison, isTernary_scalar h]

/-- The membership of a literal in the column of a reference. -/
def memberFilter (context : TranslationContext) (name : String) (v : Literal) :
    Translation PrismaFilter := do
  let fieldRef ← reading (resolveFieldReference name context)
  buildMembershipFilter context fieldRef [v]

theorem memberFilter_eq_ok_iff {name : String} {v : Literal} :
    (∃ scopes', memberFilter context name v scopes = .ok (filter, scopes')) ↔
      ∃ fieldName, TakesMember context (resolveFieldReference name context).result v fieldName ∧
        filter = wrapInRelations ((resolveFieldReference name context).result.relations.getD [])
          (memberLeaf (resolveFieldReference name context).result fieldName v) := by
  rw [← buildMembershipFilter_eq_ok_iff]
  constructor
  · rintro ⟨scopes', hrun⟩
    obtain ⟨fieldRef, _, hread, hrun⟩ := Translation.bind_eq_ok_iff.mp hrun
    obtain rfl := reading_result hread
    exact (Translation.lift_eq_ok_iff.mp hrun).1
  · intro hfilter
    exact ⟨_, Translation.bind_eq_ok_iff.mpr
      ⟨_, _, rfl, Translation.lift_eq_ok_iff.mpr ⟨hfilter, rfl⟩⟩⟩

/-- The handler takes a column and a literal for an equality, and nothing else. -/
theorem handleInOperator_eq_ok_iff (h : IsScalarContainer context container)
    (hneedle : isTernary needle = false) :
    (∃ scopes', handleInOperator b [needle, container] context scopes = .ok (filter, scopes')) ↔
      ∃ name v, comparedMember context needle container = some (name, v) ∧
        ∃ scopes', memberFilter context name v scopes = .ok (filter, scopes') := by
  rw [handleInOperator.eq_def, isTernaryComparison_in h, hneedle, Bool.false_and, if_neg Bool.false_ne_true]
  have hrefused : ∀ message : String,
      ¬∃ scopes', (unsupported message : Translation PrismaFilter) scopes = .ok (filter, scopes') := by
    rintro message ⟨scopes', hrun⟩
    cases hrun
  cases container with
  | expression => exact h.elim
  | value w =>
      cases needle with
      | var name => simp [comparedMember, memberFilter, memberValues_scalar h]
      | value v => simpa [comparedMember] using hrefused _
      | expression => simpa [comparedMember] using hrefused _
  | var collection =>
      cases needle with
      | var name => simpa [comparedMember] using hrefused _
      | expression => simpa [comparedMember] using hrefused _
      | value v =>
          show (∃ scopes', (reading (namesToOneRelation context.mapper collection) >>= fun isToOne =>
            if isToOne then unsupported (toOneContainerMessage collection)
            else memberFilter context collection v) scopes = .ok (filter, scopes')) ↔ _
          rw [comparedMember]
          cases htoOne : (namesToOneRelation context.mapper collection).result with
          | true =>
              refine iff_of_false ?_ (by simp)
              rintro ⟨scopes', hrun⟩
              obtain ⟨isToOne, _, hread, hrun⟩ := Translation.bind_eq_ok_iff.mp hrun
              obtain rfl := reading_result hread
              rw [htoOne] at hrun
              cases hrun
          | false =>
              simp only [Bool.false_eq_true, if_false, Option.some.injEq, Prod.mk.injEq]
              constructor
              · rintro ⟨scopes', hrun⟩
                obtain ⟨isToOne, middle, hread, hrun⟩ := Translation.bind_eq_ok_iff.mp hrun
                obtain rfl := reading_result hread
                rw [htoOne] at hrun
                exact ⟨collection, v, ⟨rfl, rfl⟩,
                  memberFilter_eq_ok_iff.mpr (memberFilter_eq_ok_iff.mp ⟨scopes', hrun⟩)⟩
              · rintro ⟨_, _, ⟨rfl, rfl⟩, hmember⟩
                obtain ⟨scopes', hrun⟩ := memberFilter_eq_ok_iff.mpr (memberFilter_eq_ok_iff.mp hmember)
                refine ⟨scopes', Translation.bind_eq_ok_iff.mpr ⟨_, _, rfl, ?_⟩⟩
                rw [htoOne]
                exact hrun

end Runs

/-! ## Translations of a membership -/

section Translations

variable {evaluation : ConstantEvaluation} {handlers : Builder → Builder}
  {context : TranslationContext} {needle container : Node} {scopes scopes' : List ScopeRecord}
  {filter : PrismaFilter} {negated : Bool}

/-- The filter of a membership that compares a column with a literal, or of its negation. -/
def IsMemberFilter (context : TranslationContext) (negated : Bool) (needle container : Node)
    (filter : PrismaFilter) : Prop :=
  ∃ name v fieldName, comparedMember context needle container = some (name, v) ∧
    TakesMember context (resolveFieldReference name context).result v fieldName ∧
    filter =
      let relations := (resolveFieldReference name context).result.relations.getD []
      let member := wrapInRelations relations
        (memberLeaf (resolveFieldReference name context).result fieldName v)
      if negated then
        (buildHopsExistFilter (requiredHops relations)).elim (.NOT member) fun hops =>
          .AND [hops, .NOT member]
      else member

theorem positive_in (fuel : Nat) (operands : List Node) :
    (recursiveBuilder (withMembership evaluation handlers) (fuel + 2)).positive
        (.expression .in operands) context =
      handleInOperator (recursiveBuilder (withMembership evaluation handlers) fuel) operands
        context := rfl

theorem positive_in_eq_ok_iff (h : IsScalarContainer context container)
    (hneedle : isTernary needle = false) (fuel : Nat) :
    (∃ scopes', (recursiveBuilder (withMembership evaluation handlers) (fuel + 2)).positive
        (.expression .in [needle, container]) context scopes = .ok (filter, scopes')) ↔
      IsMemberFilter context false needle container filter := by
  rw [positive_in, handleInOperator_eq_ok_iff h hneedle]
  constructor
  · rintro ⟨name, v, hname, hmember⟩
    obtain ⟨fieldName, htakes, hfilter⟩ := memberFilter_eq_ok_iff.mp hmember
    exact ⟨name, v, fieldName, hname, htakes, hfilter⟩
  · rintro ⟨name, v, fieldName, hname, htakes, hfilter⟩
    exact ⟨name, v, hname, memberFilter_eq_ok_iff.mpr ⟨fieldName, htakes, hfilter⟩⟩

/-- A column and a literal are both leaves. -/
theorem leaves_of_comparedMember {name : String} {v : Literal}
    (hname : comparedMember context needle container = some (name, v)) :
    (needle = .var name ∧ container = .value v) ∨ (needle = .value v ∧ container = .var name) := by
  rw [comparedMember.eq_def] at hname
  split at hname
  next => simp_all
  next =>
    split at hname
    next => cases hname
    next => simp_all
  next => cases hname

theorem visitedReferences_member {name : String} {v : Literal}
    (hname : comparedMember context needle container = some (name, v)) :
    visitedReferences (.expression .in [needle, container]) = [name] := by
  obtain ⟨rfl, rfl⟩ | ⟨rfl, rfl⟩ := leaves_of_comparedMember hname <;> rfl

/-- The negation of a membership is the NOT of its filter. -/
theorem negativeStep_in (b : Builder) (operands : List Node) :
    b.negativeStep (.expression .in operands) context =
      if isTernaryComparison .in operands then b.ternaryComparison .in operands context true
      else
        let node : Node := .expression .in operands
        let negate := fun pushes : Bool =>
          if !pushes then b.plainNegation node context
          else if containsMapLiteralLookup node then
            unsupported ("Cannot negate " ++ PlanOperator.name .in ++ " over an index into a map " ++
              "literal: a missing key is an error under both polarities, and a NOT over its " ++
              "filter would select it")
          else b.plainNegation node context
        if containsCollectionOperator node || containsMapLiteralLookup node then pure true >>= negate
        else reading (referencesRequiredHop node context) >>= negate := rfl

theorem plainNegation_of_negativeStep {b : Builder} (h : IsScalarContainer context container)
    (hneedle : isTernary needle = false)
    (hrun : b.negativeStep (.expression .in [needle, container]) context scopes =
      .ok (filter, scopes')) :
    ∃ middle, b.plainNegation (.expression .in [needle, container]) context middle =
      .ok (filter, scopes') := by
  rw [negativeStep_in, isTernaryComparison_in h, hneedle, if_neg Bool.false_ne_true] at hrun
  have hnegate : ∀ {x : Translation Bool}, (x >>= fun pushes =>
      if !pushes then b.plainNegation (.expression .in [needle, container]) context
      else if containsMapLiteralLookup (.expression .in [needle, container]) then
        unsupported ("Cannot negate " ++ PlanOperator.name .in ++ " over an index into a map " ++
          "literal: a missing key is an error under both polarities, and a NOT over its " ++
          "filter would select it")
      else b.plainNegation (.expression .in [needle, container]) context) scopes =
        .ok (filter, scopes') →
      ∃ middle, b.plainNegation (.expression .in [needle, container]) context middle =
        .ok (filter, scopes') := by
    intro x hx
    obtain ⟨pushes, middle, -, hpushed⟩ := Translation.bind_eq_ok_iff.mp hx
    refine ⟨middle, ?_⟩
    cases pushes with
    | false => exact hpushed
    | true =>
        rw [Bool.not_true, if_neg Bool.false_ne_true] at hpushed
        split at hpushed
        next => cases hpushed
        next => exact hpushed
  split at hrun
  next => exact hnegate hrun
  next => exact hnegate hrun

theorem negativeStep_of_plainNegation {b : Builder} (h : IsScalarContainer context container)
    {name : String} {v : Literal}
    (hname : comparedMember context needle container = some (name, v))
    (hrun : ∀ scopes, ∃ scopes', b.plainNegation (.expression .in [needle, container]) context
      scopes = .ok (filter, scopes')) (scopes : List ScopeRecord) :
    ∃ scopes', b.negativeStep (.expression .in [needle, container]) context scopes =
      .ok (filter, scopes') := by
  have hleaves : isTernary needle = false ∧
      containsCollectionOperator (.expression .in [needle, container]) = false ∧
      containsMapLiteralLookup (.expression .in [needle, container]) = false := by
    obtain ⟨rfl, rfl⟩ | ⟨rfl, rfl⟩ := leaves_of_comparedMember hname <;> exact ⟨rfl, rfl, rfl⟩
  obtain ⟨hneedle, hcollection, hlookup⟩ := hleaves
  rw [negativeStep_in, isTernaryComparison_in h, hneedle, if_neg Bool.false_ne_true]
  simp only [hcollection, hlookup, Bool.or_self, Bool.false_eq_true, if_false, ite_self]
  obtain ⟨scopes', hplain⟩ := hrun _
  exact ⟨scopes', Translation.bind_eq_ok_iff.mpr ⟨_, _, rfl, hplain⟩⟩

/-- A filter and the NOT of it that requires the hops of its only reference. -/
theorem plainNegation_eq_ok_iff {b : Builder} {node : Node} {name : String}
    (hvisited : visitedReferences node = [name]) :
    b.plainNegation node context scopes = .ok (filter, scopes') ↔
      ∃ positive middle, b.positive node context scopes = .ok (positive, middle) ∧
        positive.isEmpty = false ∧ filter =
          ((buildHopsExistFilter (requiredHops
            ((resolveFieldReference name context).result.relations.getD []))).elim (.NOT positive)
              fun hops => .AND [hops, .NOT positive]) ∧
        ∃ hops, reading (buildExpressionHopsExistFilter node context) middle = .ok (hops, scopes') := by
  rw [Builder.plainNegation, Translation.bind_eq_ok_iff]
  constructor
  · rintro ⟨positive, middle, hpositive, hrun⟩
    obtain ⟨hops, after, hhops, hrun⟩ := Translation.bind_eq_ok_iff.mp hrun
    obtain ⟨negation, _, hnegation, hreturn⟩ := Translation.bind_eq_ok_iff.mp hrun
    obtain ⟨hnot, rfl⟩ := Translation.lift_eq_ok_iff.mp hnegation
    obtain ⟨rfl, rfl⟩ := Translation.pure_eq_ok_iff.mp hreturn
    have hresult := reading_result hhops
    rw [buildExpressionHopsExistFilter_single hvisited] at hresult
    rw [negateFilter] at hnot
    split at hnot
    next => cases hnot
    next hempty =>
      obtain rfl := Except.ok.inj hnot
      exact ⟨positive, middle, hpositive, by simpa using hempty, by rw [hresult], hops, hhops⟩
  · rintro ⟨positive, middle, hpositive, hempty, rfl, hops, hhops⟩
    have hresult := reading_result hhops
    rw [buildExpressionHopsExistFilter_single hvisited] at hresult
    refine ⟨positive, middle, hpositive, Translation.bind_eq_ok_iff.mpr ⟨hops, scopes', hhops, ?_⟩⟩
    refine Translation.bind_eq_ok_iff.mpr ⟨.NOT positive, scopes', ?_, ?_⟩
    · refine Translation.lift_eq_ok_iff.mpr ⟨?_, rfl⟩
      rw [negateFilter, hempty]
      rfl
    · rw [hresult]
      rfl

theorem isMemberFilter_of_positive (h : IsScalarContainer context container)
    (hneedle : isTernary needle = false) {fuel : Nat}
    (hrun : (recursiveBuilder (withMembership evaluation handlers) fuel).positive
      (.expression .in [needle, container]) context scopes = .ok (filter, scopes')) :
    IsMemberFilter context false needle container filter := by
  cases fuel with
  | zero => cases hrun
  | succ fuel =>
      cases fuel with
      | zero => cases hrun
      | succ fuel => exact (positive_in_eq_ok_iff h hneedle fuel).mp ⟨scopes', hrun⟩

/-- Of a needle that is no ternary, only a column and a literal are translated. -/
theorem isMemberFilter_of_build (h : IsScalarContainer context container)
    (hneedle : isTernary needle = false) {fuel : Nat}
    (hrun : (recursiveBuilder (withMembership evaluation handlers) fuel).build negated
      (.expression .in [needle, container]) context scopes = .ok (filter, scopes')) :
    IsMemberFilter context negated needle container filter := by
  cases negated with
  | false => exact isMemberFilter_of_positive h hneedle hrun
  | true =>
      cases fuel with
      | zero => cases hrun
      | succ fuel =>
          obtain ⟨before, hplain⟩ := plainNegation_of_negativeStep h hneedle hrun
          obtain ⟨positive, middle, hpositive, -⟩ := Translation.bind_eq_ok_iff.mp hplain
          obtain ⟨name, v, fieldName, hname, htakes, rfl⟩ :=
            isMemberFilter_of_positive h hneedle hpositive
          obtain ⟨_, _, hpositive', -, rfl, -⟩ :=
            (plainNegation_eq_ok_iff (visitedReferences_member hname)).mp hplain
          obtain ⟨rfl, -⟩ := Prod.mk.inj (Except.ok.inj (hpositive.symm.trans hpositive'))
          exact ⟨name, v, fieldName, hname, htakes, rfl⟩

theorem build_of_isMemberFilter (h : IsScalarContainer context container)
    (hfilter : IsMemberFilter context negated needle container filter) (fuel : Nat)
    (scopes : List ScopeRecord) :
    ∃ scopes', (recursiveBuilder (withMembership evaluation handlers) (fuel + 3)).build negated
      (.expression .in [needle, container]) context scopes = .ok (filter, scopes') := by
  obtain ⟨name, v, fieldName, hname, htakes, rfl⟩ := hfilter
  have hneedle : isTernary needle = false := by
    obtain ⟨rfl, rfl⟩ | ⟨rfl, rfl⟩ := leaves_of_comparedMember hname <;> rfl
  have hpositive : ∀ fuel scopes, ∃ scopes',
      (recursiveBuilder (withMembership evaluation handlers) (fuel + 2)).positive
        (.expression .in [needle, container]) context scopes = .ok (_, scopes') :=
    fun fuel scopes => (positive_in_eq_ok_iff h hneedle fuel).mpr
      ⟨name, v, fieldName, hname, htakes, rfl⟩
  cases negated with
  | false => exact hpositive (fuel + 1) scopes
  | true =>
      refine negativeStep_of_plainNegation h hname (fun before => ?_) scopes
      obtain ⟨middle, hmember⟩ := hpositive fuel before
      exact ⟨_, (plainNegation_eq_ok_iff (visitedReferences_member hname)).mpr
        ⟨_, middle, hmember, wrapInRelations_isEmpty memberLeaf_isEmpty, rfl, _, rfl⟩⟩

end Translations

/-! ## What a plan selects -/

section Plans

variable {ρ : Type} (engine : Engine) (store : Store ρ)

/-- A membership in a scalar, or its negation, does not select a record: what the plan takes
for an equality denies it. -/
def NeedleDenied (context : TranslationContext) (negated : Bool) (needle container : Node)
    (r : ρ) : Prop :=
  ∀ name v fieldName, comparedMember context needle container = some (name, v) →
    TakesMember context (resolveFieldReference name context).result v fieldName →
      MemberDenied engine store negated (resolveFieldReference name context).result fieldName v r

/-- No branch of a needle is selected, and a ternary's condition is not both true and false. -/
def BranchesDenied (decided denied : Node → Prop) : Node → Prop
  | .expression .if [condition, thenBranch, elseBranch] =>
      decided condition ∧ BranchesDenied decided denied thenBranch ∧
        BranchesDenied decided denied elseBranch
  | needle => denied needle

/-- No run of a translation selects a record. -/
def NeverSelects (r : ρ) (x : Translation PrismaFilter) : Prop :=
  ∀ scopes filter scopes', x scopes = .ok (filter, scopes') →
    filter.matches engine store r = false

/-- The filters of a condition and of its negation do not both select a record. -/
def DecidedCondition (b : Nat → Builder) (context : TranslationContext) (r : ρ) (condition : Node) :
    Prop :=
  ∀ fuel before conditionTrue middle conditionFalse after,
    (b fuel).positive condition context before = .ok (conditionTrue, middle) →
    (b fuel).negative condition context middle = .ok (conditionFalse, after) →
      (conditionTrue.matches engine store r && conditionFalse.matches engine store r) = false

variable {engine store} {evaluation : ConstantEvaluation} {handlers : Builder → Builder}
  {context : TranslationContext} {container : Node} {negated : Bool} {r : ρ}

/-- A needle that is no ternary. -/
theorem neverSelects_plain (h : IsScalarContainer context container) {needle : Node}
    (hneedle : isTernary needle = false)
    (hdenied : NeedleDenied engine store context negated needle container r) (fuel : Nat) :
    NeverSelects engine store r
      ((recursiveBuilder (withMembership evaluation handlers) fuel).build negated
        (.expression .in [needle, container]) context) := by
  intro scopes filter scopes' hrun
  obtain ⟨name, v, fieldName, hname, htakes, hfilter⟩ := isMemberFilter_of_build h hneedle hrun
  exact (matches_member_iff negated hfilter).mpr (hdenied name v fieldName hname htakes)

theorem getTernaryOperands_eq_ok {operands : List Node} {condition thenBranch elseBranch : Node}
    (hrun : getTernaryOperands operands = .ok (condition, thenBranch, elseBranch)) :
    operands = [condition, thenBranch, elseBranch] := by
  rw [getTernaryOperands.eq_def] at hrun
  split at hrun
  next =>
    obtain ⟨rfl, rfl, rfl⟩ : _ ∧ _ ∧ _ := by simpa using hrun
    rfl
  next => cases hrun

/-- A branch's filter is that of its own membership. -/
theorem branch_in_eq_ok (h : IsScalarContainer context container) {b : Builder}
    {needle branch : Node} {scopes scopes' : List ScopeRecord} {predicate : TernaryBranchPredicate}
    (hrun : b.buildTernaryComparisonBranch evaluation .in [needle, container] 0 branch context
      negated scopes = .ok (predicate, scopes')) :
    ∃ filter, predicate = .filter filter ∧
      ((isTernary branch = true ∧
          b.ternaryComparison .in [branch, container] context negated scopes =
            .ok (filter, scopes')) ∨
        b.build negated (.expression .in [branch, container]) context scopes =
          .ok (filter, scopes')) := by
  have hreturn : ∀ {x : Translation PrismaFilter},
      (do return TernaryBranchPredicate.filter (← x) : Translation TernaryBranchPredicate) scopes =
        .ok (predicate, scopes') →
      ∃ filter, predicate = .filter filter ∧ x scopes = .ok (filter, scopes') := by
    intro x hx
    obtain ⟨filter, middle, hfilter, hpure⟩ := Translation.bind_eq_ok_iff.mp hx
    obtain ⟨rfl, rfl⟩ := Translation.pure_eq_ok_iff.mp hpure
    exact ⟨filter, rfl, hfilter⟩
  have hvalues : (∀ v w, ¬(branch = .value v ∧ container = .value w)) →
      b.buildTernaryComparisonBranch evaluation .in [needle, container] 0 branch context negated =
        if negated then
          if isTernaryComparison .in [branch, container] then do
            return .filter (← b.ternaryComparison .in [branch, container] context true)
          else do return .filter (← b.negative (.expression .in [branch, container]) context)
        else do return .filter (← b.positive (.expression .in [branch, container]) context) := by
    intro hvalues
    cases branch with
    | value v =>
        cases container with
        | value w => exact absurd ⟨rfl, rfl⟩ (hvalues v w)
        | _ => cases negated <;> rfl
    | _ => cases negated <;> rfl
  by_cases hconstants : ∃ v w, branch = .value v ∧ container = .value w
  · obtain ⟨v, w, rfl, rfl⟩ := hconstants
    -- Membership of a constant in a scalar is refused.
    cases w with
    | array | object => cases h
    | _ => cases negated <;> cases hrun
  · rw [hvalues fun v w hvw => hconstants ⟨v, w, hvw⟩, isTernaryComparison_in h] at hrun
    cases negated with
    | false =>
        obtain ⟨filter, rfl, hfilter⟩ := hreturn hrun
        exact ⟨filter, rfl, .inr hfilter⟩
    | true =>
        rw [if_pos rfl] at hrun
        split at hrun
        next hbranch =>
          obtain ⟨filter, rfl, hfilter⟩ := hreturn hrun
          exact ⟨filter, rfl, .inl ⟨hbranch, hfilter⟩⟩
        next =>
          obtain ⟨filter, rfl, hfilter⟩ := hreturn hrun
          exact ⟨filter, rfl, .inr hfilter⟩

/-- The branches of a ternary needle are memberships in the same container. -/
theorem neverSelects_ternary (h : IsScalarContainer context container) {b : Nat → Builder}
    {fuel : Nat} {denied : Node → Prop} {needle : Node} (hneedle : isTernary needle = true)
    (hbranches : BranchesDenied (DecidedCondition engine store b context r) denied needle)
    (hbuild : ∀ branch,
      BranchesDenied (DecidedCondition engine store b context r) denied branch →
        NeverSelects engine store r
          ((b fuel).build negated (.expression .in [branch, container]) context))
    (hternary : ∀ branch, isTernary branch = true →
      BranchesDenied (DecidedCondition engine store b context r) denied branch →
        NeverSelects engine store r
          ((b fuel).ternaryComparison .in [branch, container] context negated)) :
    NeverSelects engine store r
      ((b fuel).tryHandleTernaryComparison evaluation .in [needle, container] context negated) := by
  have hbranch : ∀ {branch before predicate after},
      BranchesDenied (DecidedCondition engine store b context r) denied branch →
      (b fuel).buildTernaryComparisonBranch evaluation .in [needle, container] 0 branch context
        negated before = .ok (predicate, after) →
      predicate.matches engine store r = false ∧ ∃ filter, predicate = .filter filter := by
    intro branch before predicate after hdenied hrun
    obtain ⟨filter, rfl, ⟨hbranch, hrun⟩ | hrun⟩ := branch_in_eq_ok h hrun
    · exact ⟨hternary branch hbranch hdenied _ _ _ hrun, filter, rfl⟩
    · exact ⟨hbuild branch hdenied _ _ _ hrun, filter, rfl⟩
  intro scopes filter scopes' hrun
  cases needle with
  | value => cases hneedle
  | var => cases hneedle
  | expression operator operands =>
    obtain rfl : operator = .if := by
      cases operator <;> first | rfl | cases hneedle
    obtain ⟨⟨condition, thenBranch, elseBranch⟩, _, hget, hrest⟩ :=
      Translation.bind_eq_ok_iff.mp hrun
    have hoperands : operands = [condition, thenBranch, elseBranch] :=
      getTernaryOperands_eq_ok (Translation.lift_eq_ok_iff.mp hget).1
    subst hoperands
    obtain ⟨hcondition, hthen, helse⟩ := hbranches
    obtain ⟨constant, start, -, hrest⟩ := Translation.bind_eq_ok_iff.mp hrest
    cases constant with
    | some value =>
        obtain ⟨predicate, middle, hpredicate, hrest⟩ := Translation.bind_eq_ok_iff.mp hrest
        obtain ⟨hfinal, -⟩ := Translation.lift_eq_ok_iff.mp hrest
        have hchosen : predicate.matches engine store r = false ∧
            ∃ filter, predicate = .filter filter := by
          cases value with
          | true => exact hbranch hthen hpredicate
          | false => exact hbranch helse hpredicate
        obtain ⟨hmatches, branch, rfl⟩ := hchosen
        obtain rfl := Except.ok.inj hfinal
        exact hmatches
    | none =>
        obtain ⟨thenFilter, _, hthenRun, hrest⟩ := Translation.bind_eq_ok_iff.mp hrest
        obtain ⟨elseFilter, before, helseRun, hrest⟩ := Translation.bind_eq_ok_iff.mp hrest
        obtain ⟨conditionTrue, middle, htrue, hrest⟩ := Translation.bind_eq_ok_iff.mp hrest
        obtain ⟨conditionFalse, after, hfalse, hrest⟩ := Translation.bind_eq_ok_iff.mp hrest
        obtain ⟨rfl, -⟩ := Translation.pure_eq_ok_iff.mp hrest
        rw [matches_guardedTernary, (hbranch hthen hthenRun).1, (hbranch helse helseRun).1,
          Bool.and_false, Bool.and_false, Bool.or_false, Bool.false_or]
        exact hcondition fuel before conditionTrue middle conditionFalse after htrue hfalse

theorem branchesDenied_iff_of_not_ternary {decided denied : Node → Prop} {needle : Node}
    (hneedle : isTernary needle = false) :
    BranchesDenied decided denied needle ↔ denied needle := by
  rw [BranchesDenied.eq_def]
  split
  next => cases hneedle
  next => exact Iff.rfl

/-- No fuel makes the translation select a record that every branch denies. -/
theorem neverSelects_in (h : IsScalarContainer context container) (fuel : Nat) {needle : Node}
    (hdenied : BranchesDenied
      (DecidedCondition engine store (recursiveBuilder (withMembership evaluation handlers)) context r)
      (fun leaf => NeedleDenied engine store context negated leaf container r) needle) :
    NeverSelects engine store r
        ((recursiveBuilder (withMembership evaluation handlers) fuel).build negated
          (.expression .in [needle, container]) context) ∧
      (isTernary needle = true → NeverSelects engine store r
        ((recursiveBuilder (withMembership evaluation handlers) fuel).ternaryComparison .in
          [needle, container] context negated)) := by
  induction fuel using Nat.strong_induction_on generalizing needle with
  | _ fuel ih =>
    cases fuel with
    | zero =>
        refine ⟨?_, fun _ => ?_⟩
        · intro scopes filter scopes' hrun
          cases negated <;> cases hrun
        · intro scopes filter scopes' hrun
          cases hrun
    | succ fuel =>
        refine ⟨?_, fun hneedle => ?_⟩
        · by_cases hneedle : isTernary needle = true
          · intro scopes filter scopes' hrun
            have hcomparison : isTernaryComparison .in [needle, container] = true :=
              (isTernaryComparison_in h).trans hneedle
            cases negated with
            | true =>
                have hstep : (recursiveBuilder (withMembership evaluation handlers) fuel).negativeStep
                    (.expression .in [needle, container]) context scopes = .ok (filter, scopes') :=
                  hrun
                rw [negativeStep_in, if_pos hcomparison] at hstep
                exact (ih fuel (Nat.lt_succ_self fuel) hdenied).2 hneedle scopes filter scopes' hstep
            | false =>
                cases fuel with
                | zero => cases hrun
                | succ fuel =>
                    have hhandler : handleInOperator
                        (recursiveBuilder (withMembership evaluation handlers) fuel)
                        [needle, container] context scopes = .ok (filter, scopes') := hrun
                    rw [handleInOperator.eq_def, if_pos (by rw [hcomparison]; rfl)] at hhandler
                    exact (ih fuel (by omega) hdenied).2 hneedle scopes filter scopes' hhandler
          · have hplain : isTernary needle = false := by simpa using hneedle
            have hleaf : NeedleDenied engine store context negated needle container r :=
              (branchesDenied_iff_of_not_ternary hplain).mp hdenied
            exact neverSelects_plain h hplain hleaf _
        · exact neverSelects_ternary h hneedle hdenied
            (fun branch hbranch => (ih fuel (Nat.lt_succ_self fuel) hbranch).1)
            fun branch hternary hbranch => (ih fuel (Nat.lt_succ_self fuel) hbranch).2 hternary

/-! ### The plan -/

/-- Whether folding leaves an operator be, whatever its operands are. -/
def isUnfolded (operator : PlanOperator) : Prop :=
  operator = .in ∨ operator = .hasIntersection

theorem foldOperator_unfolded {operator : PlanOperator} (h : isUnfolded operator)
    (first second : Node) :
    foldOperator evaluation operator [first, second] = .ok (.expression operator [first, second]) := by
  obtain rfl | rfl := h
  · cases first with
    | value v => cases second <;> rfl
    | _ => rfl
  · cases first with
    | value v => cases second <;> rfl
    | _ => rfl

/-- Only the operands are folded, also of the negation. -/
theorem constantFold_unfolded {operator : PlanOperator} (h : isUnfolded operator) (negated : Bool)
    {first second folded : Node} :
    constantFoldExpression evaluation
        (polarisedNode negated (.expression operator [first, second])) = .ok folded ↔
      ∃ first' second', constantFoldExpression evaluation first = .ok first' ∧
        constantFoldExpression evaluation second = .ok second' ∧
          folded = polarisedNode negated (.expression operator [first', second']) := by
  have hoperands : assertLogicalOperands operator [first, second] = .ok () := by
    obtain rfl | rfl := h <;> rfl
  have hleaf : ∀ folded, constantFoldExpression evaluation (.expression operator [first, second]) =
      .ok folded ↔ ∃ first' second', constantFoldExpression evaluation first = .ok first' ∧
        constantFoldExpression evaluation second = .ok second' ∧
          folded = .expression operator [first', second'] := by
    intro folded
    constructor
    · intro hfold
      obtain ⟨operands, heach, hfold⟩ := constantFoldExpression_eq_ok hfold
      obtain ⟨first', second', hfirst, hsecond, rfl⟩ := constantFoldEach_pair_eq_ok heach
      rw [foldOperator_unfolded h] at hfold
      exact ⟨first', second', hfirst, hsecond, (Except.ok.inj hfold).symm⟩
    · rintro ⟨first', second', hfirst, hsecond, rfl⟩
      rw [constantFoldExpression, hoperands]
      simp only [constantFoldEach, hfirst, hsecond]
      exact foldOperator_unfolded h first' second'
  cases negated with
  | false => exact hleaf folded
  | true =>
      constructor
      · intro hfold
        obtain ⟨operands, heach, hfold⟩ := constantFoldExpression_eq_ok hfold
        obtain ⟨operand, hoperand, rfl⟩ := constantFoldEach_single_eq_ok heach
        obtain ⟨first', second', hfirst, hsecond, rfl⟩ := (hleaf operand).mp hoperand
        exact ⟨first', second', hfirst, hsecond, (Except.ok.inj hfold).symm⟩
      · rintro ⟨first', second', hfirst, hsecond, rfl⟩
        have hoperand := (hleaf _).mpr ⟨first', second', hfirst, hsecond, rfl⟩
        rw [polarisedNode, if_pos rfl, constantFoldExpression, constantFoldEach, hoperand]
        rfl

/-- Of a membership in a scalar only the needle is folded. -/
theorem constantFold_membership (h : IsScalarContainer context container) (negated : Bool)
    {needle folded : Node} :
    constantFoldExpression evaluation
        (polarisedNode negated (.expression .in [needle, container])) = .ok folded ↔
      ∃ needle', constantFoldExpression evaluation needle = .ok needle' ∧
        folded = polarisedNode negated (.expression .in [needle', container]) := by
  have hcontainer : constantFoldExpression evaluation container = .ok container := by
    cases container with
    | expression => exact h.elim
    | _ => rfl
  rw [constantFold_unfolded (.inl rfl), hcontainer]
  simp

/-- Whether a plan holds no null of a struct literal that it is refused for. -/
def PassesStructuralNulls (context : TranslationContext) (condition : Node) : Prop :=
  ∀ scopes, ∃ scopes', assertStructuralNulls context none condition scopes = .ok ((), scopes')

theorem answerCondition_membership (b : Builder) (needle container : Node) :
    answerCondition b (polarisedNode negated (.expression .in [needle, container])) context =
      .conditional <$> b.positive (polarisedNode negated (.expression .in [needle, container])) context := by
  cases negated <;> rfl

/-- A membership is answered with its filter. -/
theorem of_planMembership (h : IsScalarContainer context container) {b : Builder} {needle : Node}
    {scopes scopes' : List ScopeRecord} {planned : PlannedFilter}
    (hrun : planMembership evaluation b negated needle container context scopes =
      .ok (planned, scopes')) :
    ∃ needle' filter before, constantFoldExpression evaluation needle = .ok needle' ∧
      planned = .conditional filter ∧
        b.positive (polarisedNode negated (.expression .in [needle', container])) context before =
          .ok (filter, scopes') := by
  obtain ⟨settled, _, hsettled, hrest⟩ := Translation.bind_eq_ok_iff.mp hrun
  obtain rfl := (reading_result hsettled).symm.trans (settleMembership_scalar h needle !negated)
  obtain ⟨_, _, -, hrest⟩ := Translation.bind_eq_ok_iff.mp hrest
  obtain ⟨folded, before, hfold, hanswer⟩ := Translation.bind_eq_ok_iff.mp hrest
  have hfold := (Translation.lift_eq_ok_iff.mp hfold).1
  obtain ⟨needle', hneedle, rfl⟩ := (constantFold_membership h negated).mp hfold
  rw [answerCondition_membership] at hanswer
  obtain ⟨filter, hfilter, rfl⟩ := Translation.map_eq_ok_iff.mp hanswer
  exact ⟨needle', filter, before, hneedle, rfl, hfilter⟩

theorem planMembership_of_filter (h : IsScalarContainer context container) {b : Builder}
    {needle needle' : Node} {filter : PrismaFilter}
    (hnulls : PassesStructuralNulls context (polarisedNode negated (.expression .in [needle, container])))
    (hneedle : constantFoldExpression evaluation needle = .ok needle')
    (hfilter : ∀ scopes, ∃ scopes',
      b.positive (polarisedNode negated (.expression .in [needle', container])) context scopes =
        .ok (filter, scopes')) (scopes : List ScopeRecord) :
    ∃ scopes', planMembership evaluation b negated needle container context scopes =
      .ok (.conditional filter, scopes') := by
  have hfold : constantFoldExpression evaluation (polarisedNode negated (.expression .in [needle, container])) =
      .ok (polarisedNode negated (.expression .in [needle', container])) :=
    (constantFold_membership h negated).mpr ⟨needle', hneedle, rfl⟩
  obtain ⟨settled, hsettled⟩ : ∃ settled,
      reading (settleMembership .in [needle, container] context !negated) scopes =
        .ok (_, settled) := ⟨_, rfl⟩
  obtain ⟨checked, hchecked⟩ := hnulls settled
  obtain ⟨scopes', hrun⟩ := hfilter checked
  refine ⟨scopes', Translation.bind_eq_ok_iff.mpr ⟨_, _, hsettled, ?_⟩⟩
  rw [settleMembership_scalar h]
  refine Translation.bind_eq_ok_iff.mpr ⟨(), checked, hchecked, ?_⟩
  refine Translation.bind_eq_ok_iff.mpr ⟨_, checked, Translation.lift_eq_ok_iff.mpr ⟨hfold, rfl⟩, ?_⟩
  rw [answerCondition_membership]
  exact Translation.map_eq_ok_iff.mpr ⟨filter, hrun, rfl⟩

theorem planMembership_of_isMemberFilter (h : IsScalarContainer context container)
    {needle needle' : Node} {filter : PrismaFilter}
    (hnulls : PassesStructuralNulls context
      (polarisedNode negated (.expression .in [needle, container])))
    (hneedle : constantFoldExpression evaluation needle = .ok needle')
    (hfilter : IsMemberFilter context negated needle' container filter)
    (scopes : List ScopeRecord) :
    ∃ scopes', planMembership evaluation
      (recursiveBuilder (withMembership evaluation handlers) 4) negated needle container context
        scopes = .ok (.conditional filter, scopes') := by
  refine planMembership_of_filter h hnulls hneedle (fun before => ?_) scopes
  cases negated with
  | false => exact build_of_isMemberFilter h hfilter 1 before
  | true => exact build_of_isMemberFilter h hfilter 0 before

/-- A translation of the condition is one of the membership, in its direction. -/
theorem build_of_positive {b : Nat → Builder} (hb : b = recursiveBuilder (withMembership evaluation handlers))
    {fuel : Nat} {needle : Node} {scopes scopes' : List ScopeRecord} {filter : PrismaFilter}
    (hrun : (b fuel).positive (polarisedNode negated (.expression .in [needle, container])) context scopes =
      .ok (filter, scopes')) :
    ∃ fuel', (b fuel').build negated (.expression .in [needle, container]) context scopes =
      .ok (filter, scopes') := by
  subst hb
  cases negated with
  | false => exact ⟨fuel, hrun⟩
  | true =>
      cases fuel with
      | zero => cases hrun
      | succ fuel => exact ⟨fuel, hrun⟩

theorem handleHasIntersectionOperator_column
    {mapIntersection : List Node → Node → TranslationContext → Translation PrismaFilter}
    {left right : Node} {name : String} {scopes scopes' : List ScopeRecord}
    {filter : IntersectionFilter} (hcolumn : left = .var name ∨ right = .var name)
    (hrelations : (resolveFieldReference name context).result.relations.getD [] = [])
    (hrun : handleHasIntersectionOperator mapIntersection [left, right] context scopes =
      .ok (filter, scopes')) :
    ∃ field values, filter = .scalarSome field values := by
  have hvalue : ∀ {v : Literal},
      handleHasIntersectionOperator mapIntersection [.var name, .value v] context scopes =
        .ok (filter, scopes') →
      ∃ field values, filter = .scalarSome field values := by
    intro v hrun
    obtain ⟨fieldRef, _, hread, hrest⟩ := Translation.bind_eq_ok_iff.mp hrun
    obtain rfl := reading_result hread
    cases v with
    | array values =>
        rw [hrelations] at hrest
        obtain ⟨field, _, -, hpure⟩ := Translation.bind_eq_ok_iff.mp hrest
        obtain ⟨rfl, -⟩ := Translation.pure_eq_ok_iff.mp hpure
        exact ⟨field, values, rfl⟩
    | _ => cases hrest
  obtain rfl | rfl := hcolumn
  · cases right with
    | value v => exact hvalue hrun
    | _ => cases hrun
  · cases left with
    | value v => exact hvalue hrun
    | var other => cases hrun
    | expression operator operands => cases operator <;> cases hrun

/-- An intersection with a column that no relation leads to is refused, or Prisma fails on it. -/
theorem of_planIntersection {b : Builder}
    {mapIntersection : List Node → Node → TranslationContext → Translation PrismaFilter}
    {left right : Node} {name : String} {scopes scopes' : List ScopeRecord}
    {planned : PlannedFilter} (hcolumn : left = .var name ∨ right = .var name)
    (hrelations : (resolveFieldReference name context).result.relations.getD [] = [])
    (hrun : planIntersection evaluation b mapIntersection negated left right context scopes =
      .ok (planned, scopes')) :
    ∃ field values, planned = .scalarSome field values := by
  have hscalar : IsScalarContainer context left ∨ IsScalarContainer context right := by
    obtain rfl | rfl := hcolumn
    · exact .inl hrelations
    · exact .inr hrelations
  obtain ⟨settled, _, hsettled, hrest⟩ := Translation.bind_eq_ok_iff.mp hrun
  obtain rfl := (reading_result hsettled).symm.trans
    (settleMembership_intersection hscalar !negated)
  obtain ⟨_, _, -, hrest⟩ := Translation.bind_eq_ok_iff.mp hrest
  obtain ⟨folded, before, hfold, hanswer⟩ := Translation.bind_eq_ok_iff.mp hrest
  obtain ⟨left', right', hleft, hright, rfl⟩ :=
    (constantFold_unfolded (.inr rfl) negated).mp (Translation.lift_eq_ok_iff.mp hfold).1
  have hcolumn' : left' = .var name ∨ right' = .var name := by
    obtain rfl | rfl := hcolumn
    · exact .inl (Except.ok.inj hleft).symm
    · exact .inr (Except.ok.inj hright).symm
  have hanswered : ∀ {isNegated : Bool}, answerIntersection mapIntersection isNegated
      [left', right'] context before = .ok (planned, scopes') →
      ∃ field values, planned = .scalarSome field values := by
    intro isNegated hanswer
    rw [answerIntersection] at hanswer
    split at hanswer
    next => cases hanswer
    next =>
      obtain ⟨filter, _, hfilter, hreturn⟩ := Translation.bind_eq_ok_iff.mp hanswer
      obtain ⟨field, values, rfl⟩ :=
        handleHasIntersectionOperator_column hcolumn' hrelations hfilter
      obtain ⟨rfl, -⟩ := Translation.pure_eq_ok_iff.mp hreturn
      exact ⟨field, values, rfl⟩
  cases negated with
  | false => exact hanswered hanswer
  | true => exact hanswered hanswer

end Plans

/-- Nothing is evaluated of a plan without constants. -/
def noConstants : ConstantEvaluation where
  comparison _ _ _ := unsupported ""
  arithmetic _ _ _ := unsupported ""
  text _ _ _ := false

/-- `"a" in R.attr.name`, or its negation, of a column. -/
def planLetterInName (negated : Bool) (fuel : Nat) : Translation PlannedFilter :=
  planMembership noConstants (recursiveBuilder (withMembership noConstants fun _ => refusing) fuel)
    negated (.value (.string "a")) (.var "R.attr.name") nameContext

end QueryPlanAdapters.Prisma
