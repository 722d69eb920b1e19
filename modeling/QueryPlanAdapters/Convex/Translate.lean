import QueryPlanAdapters.Convex.Evaluate
import QueryPlanAdapters.Convex.Validate
import QueryPlanAdapters.Convex.Pushdown

/-!
# Convex: from a query plan to a filter

A validated condition is routed to the half of the output that answers it:
Convex's filter engine, the adapter's own evaluator, or both for a root `and`
that mixes the two.
-/

namespace QueryPlanAdapters.Convex

/-- How the caller represents a null field in the attributes it sends. -/
inductive NullAttributeRepresentation where
  | explicit | omitted
  deriving DecidableEq, Repr

/-- A query plan, by kind. -/
inductive QueryPlan where
  | alwaysAllowed
  | alwaysDenied
  | conditional (condition : Operand)
  | unknownKind

/-- A filter, built with the caller's builder. -/
abbrev ConvexFilter (ε : Type) := FilterQ ε → Except Thrown ε

/-- A predicate run on each candidate document at the time of the query. -/
abbrev PostFilter := (now : Int) → (doc : Value) → Except Thrown Bool

/-- The half, or halves, of the output that answer a condition. -/
inductive ConditionalResult (ε : Type) where
  | db (filter : ConvexFilter ε)
  | post (postFilter : PostFilter)
  | split (filter : ConvexFilter ε) (postFilter : PostFilter)

namespace ConditionalResult

variable {ε : Type}

def filter : ConditionalResult ε → Option (ConvexFilter ε)
  | db filter | split filter _ => some filter
  | post _ => none

def postFilter : ConditionalResult ε → Option PostFilter
  | post postFilter | split _ postFilter => some postFilter
  | db _ => none

end ConditionalResult

inductive QueryPlanToConvexResult (ε : Type) where
  | alwaysAllowed
  | alwaysDenied
  | conditional (result : ConditionalResult ε)

def conjunction : List Operand → Operand
  | [operand] => operand
  | operands => .expression .and operands

/-- The scope a post-filter evaluates a document in. -/
def postFilterScope (mapper : Mapper) (nullIsMissing : Bool) (now : Int) (doc : Value) : Scope :=
  { doc, mapper, bindings := .empty, nullIsMissing, now }

section Translation

variable [Double.Rounding] {ε : Type}

/-- `result === true`. -/
def isTrue : Outcome → Bool
  | .value (.bool b) => b
  | _ => false

def postFilterFor (expression : Operand) (mapper : Mapper) (nullIsMissing : Bool) : PostFilter :=
  fun now doc => isTrue <$> evaluate expression (postFilterScope mapper nullIsMissing now doc)

def convexFilter (expression : Operand) (mapper : Mapper) : ConvexFilter ε :=
  fun q => translateExpression q mapper expression

def buildFilters (expression : Operand) (mapper : Mapper) (nullIsMissing : Bool) :
    ConditionalResult ε :=
  if canPushToDb mapper expression then .db (convexFilter expression mapper)
  else
    let post := .post (postFilterFor expression mapper nullIsMissing)
    match expression with
    | .expression .and operands =>
        if 1 < operands.length then
          let pushable := operands.filter (canPushToDb mapper)
          let nonPushable := operands.filter (!canPushToDb mapper ·)
          if 0 < pushable.length ∧ 0 < nonPushable.length then
            .split (convexFilter (conjunction pushable) mapper)
              (postFilterFor (conjunction nonPushable) mapper nullIsMissing)
          else post
        else post
    | _ => post

/-- The mapper an omitted-null caller's plan is translated with. -/
def effectiveMapper (mapper : Mapper) : NullAttributeRepresentation → Mapper
  | .explicit => mapper
  | .omitted => withOmittedNullDefault mapper

def queryPlanToConvex (queryPlan : QueryPlan) (mapper : Mapper) (allowPostFilter : Bool)
    (nullAttributeRepresentation : NullAttributeRepresentation) :
    Except Thrown (QueryPlanToConvexResult ε) :=
  match queryPlan with
  | .alwaysAllowed => .ok .alwaysAllowed
  | .alwaysDenied => .ok .alwaysDenied
  | .conditional condition => do
      let omitted := nullAttributeRepresentation = .omitted
      assertNoListValuedCondition condition
      (if omitted then assertNoNullComparisonOperands condition else .ok ())
      validateStructure condition none
      assertEveryReferenceMapped mapper condition []
      let result :=
        buildFilters condition (effectiveMapper mapper nullAttributeRepresentation) omitted
      .throwWhen (result.postFilter.isSome && !allowPostFilter)
        (.error ("The query plan contains conditions that cannot be evaluated by Convex's " ++
          "query engine and require trusted-backend filtering (postFilter). Apply " ++
          "postFilter to every candidate before it is serialized or returned. Set " ++
          "\x7b allowPostFilter: true \x7d to opt in to this behavior."))
      return .conditional result
  | .unknownKind => .error (.unsupported "Invalid query plan.")

/-- Everything an accepted conditional plan passed, and what it returned. -/
theorem queryPlanToConvex_conditional {condition : Operand} {mapper : Mapper}
    {allowPostFilter : Bool} {representation : NullAttributeRepresentation}
    {result : ConditionalResult ε}
    (h : queryPlanToConvex (.conditional condition) mapper allowPostFilter representation =
      .ok (.conditional result)) :
    validateStructure condition none = .ok () ∧
      assertNoListValuedCondition condition = .ok () ∧
      (representation = .omitted → assertNoNullComparisonOperands condition = .ok ()) ∧
      assertEveryReferenceMapped mapper condition [] = .ok () ∧
      result = buildFilters condition (effectiveMapper mapper representation)
        (representation = .omitted) := by
  obtain ⟨hlist, h⟩ := Except.bind_unit_eq_ok_iff.mp h
  obtain ⟨hnull, h⟩ := Except.bind_unit_eq_ok_iff.mp h
  obtain ⟨hstructure, h⟩ := Except.bind_unit_eq_ok_iff.mp h
  obtain ⟨hmapped, h⟩ := Except.bind_unit_eq_ok_iff.mp h
  obtain ⟨-, h⟩ := Except.bind_unit_eq_ok_iff.mp h
  refine ⟨hstructure, hlist, ?_, hmapped, ?_⟩
  · intro homitted
    simpa [homitted] using hnull
  · exact (QueryPlanToConvexResult.conditional.inj (Except.ok.inj h)).symm

end Translation

end QueryPlanAdapters.Convex
