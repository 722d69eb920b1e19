import QueryPlanAdapters.SpringData.Criteria

/-!
# Spring Data: translation

The walk over a plan condition, with the translators of bare variables, ternaries,
comparisons of an attribute or of a size with a literal, and collection macros over
relations. Operator overrides are not modelled. Every shape of operands that these do
not translate is left to one parameter of the walk.
-/

namespace QueryPlanAdapters.SpringData

open Sql

abbrev Node := Operand Double

variable {schema : Schema}

/-! ## Three-valued helpers -/

namespace TriPredicate

/-- `1 = NULL` -/
def unknown : Predicate :=
  .compareCount .eq (.literal (some 1)) (.literal none)

def not (p : Predicate) : Predicate :=
  .not (.and [p])

def determined (body : Predicate) : Predicate :=
  .or [body, not body]

def unknownWhenUnknown (condition : Predicate) : Predicate :=
  not (determined condition)

/-- The CEL ternary, UNKNOWN when its condition is. -/
def ternary (condition thenBranch elseBranch : Predicate) : Predicate :=
  .or [.and [condition, thenBranch], .and [not condition, elseBranch],
    unknownWhenUnknown condition]

/-- `base` when the witness is FALSE, UNKNOWN when it is TRUE. -/
def baseUnlessUnknown (base unknownWitness : Predicate) : Predicate :=
  .or [.and [base, not unknownWitness], .and [unknownWitness, unknown]]

end TriPredicate

def constant (result : Bool) : Predicate :=
  if result then .conjunction else .disjunction

/-! ## Literals -/

/-- A literal as a Java value; of a list or a map only the size is read. -/
inductive JavaValue where
  | null
  | string (s : String)
  | bool (b : Bool)
  | long (n : Int)
  | double (d : Double)
  | list (size : Nat)
  | map (size : Nat)

/-- Only a whole number inside the long range becomes a long. -/
def protoValueToJava : PlanValue Double → JavaValue
  | .null => .null
  | .bool b => .bool b
  | .string s => .string s
  | .number d =>
      if d.isInteger && -2 ^ 63 ≤ d.toRat && d.toRat < 2 ^ 63 then .long d.trunc else .double d
  | .array items => .list items.length
  | .object fields => .map fields.length

namespace JavaValue

/-- The class of a scalar. -/
def javaType : JavaValue → JavaType
  | string _ => .string
  | bool _ => .boolean
  | long _ => .long
  | double _ => .double
  | null => .other "null"
  | list _ => .other "List"
  | map _ => .other "Map"

/-- A scalar as a bound parameter. -/
def bound : JavaValue → SqlValue
  | string s => .text s
  | bool b => .bool b
  | long n => .number (.finite n)
  | double d => .number d
  | null | list _ | map _ => .null

end JavaValue

def plural (size : Nat) (one many : String) : String :=
  toString size ++ " " ++ if size = 1 then one else many

/-- Size and kind of an aggregate: element values never go into an error message. -/
def constantShape : JavaValue → String
  | .list size => "list of " ++ plural size "element" "elements"
  | .map size => "map of " ++ plural size "entry" "entries"
  | _ => ""

def kindWord : JavaValue → String
  | .list _ => "list"
  | _ => "map"

/-! ## Leaves -/

def Resolution.mapping : Resolution schema → Option AttributeMapping
  | .scalar _ mapping => some mapping
  | .scalarBehind _ field => some (.field field)
  | .relation _ => none

/-- The mapping of a variable that resolves to a scalar. -/
def scalarMapping (cerbosVar : String) (scope : Scope schema) : Option AttributeMapping :=
  match scope.resolve cerbosVar with
  | .ok resolution => resolution.mapping
  | .error _ => none

/-- Whether a variable is sent as an explicit null: a Field declared so, or a bare lambda
element. -/
def isExplicitNull (cerbosVar : String) (scope : Scope schema) : Bool :=
  match scalarMapping cerbosVar scope with
  | some (.relation _) => true
  | some (.field field) => field.nullAttributeRepresentation = some .explicit
  | none => false

def isDeclaredOmitted (cerbosVar : String) (scope : Scope schema) : Bool :=
  match scalarMapping cerbosVar scope with
  | some (.field field) => field.nullAttributeRepresentation = some .omitted
  | _ => false

/-- Whether a variable holds a scalar: a Field, or the element of a relation whose elements
are values. -/
def holdsScalars (cerbosVar : String) (scope : Scope schema) : Bool :=
  match scalarMapping cerbosVar scope with
  | some (.field _) => true
  | some (.relation relation) => relation.defaultMemberField.isSome || relation.fields.isEmpty
  | none => false

/-- Equality for operands sent as explicit nulls. -/
def definiteEquality (op : ComparisonOperator) (left right : Expression)
    (leftType rightType : JavaType) (leftExplicit rightExplicit : Bool) : Predicate :=
  let bothNull := Predicate.and [.isNull left, .isNull right]
  let equality :=
    if !compatibleTypes leftType rightType then
      let equality := if leftExplicit && rightExplicit then bothNull else .disjunction
      let missing := (if leftExplicit then [] else [Predicate.isNull left]) ++
        if rightExplicit then [] else [Predicate.isNull right]
      if missing.isEmpty then equality
      else TriPredicate.baseUnlessUnknown equality (.or missing)
    else
      let equality := Predicate.and ((if leftExplicit then [Predicate.isNotNull left] else []) ++
        (if rightExplicit then [Predicate.isNotNull right] else []) ++ [.compare .eq left right])
      if leftExplicit && rightExplicit then .or [bothNull, equality] else equality
  if op = .ne then TriPredicate.not equality else equality

/-- eq FALSE and ne TRUE, UNKNOWN for a NULL column. -/
def matchesNothing (op : ComparisonOperator) (path : Path) : Predicate :=
  TriPredicate.baseUnlessUnknown (constant (op = .ne)) (.isNull (.path path))

/-- A leaf against a constant that is not null. -/
def defaultLeaf (op : ComparisonOperator) (path : Path) (value : JavaValue) : Predicate :=
  if !compatibleTypes path.javaType value.javaType then
    if op.isOrdering then TriPredicate.unknown else matchesNothing op path
  else .compare op (.path path) (.literal value.bound)

/-- `defaultLeaf`, no operator having an override. -/
def applyLeaf (op : ComparisonOperator) (path : Path) (value : JavaValue) : Predicate :=
  defaultLeaf op path value

/-! ## Comparisons with a literal -/

/-- Whether a text holds a UTF-16 code unit at or above 0xD800. -/
def hasCodeUnitFromSurrogates (text : String) : Bool :=
  text.toList.any fun c => 0xD800 ≤ c.val

/-- A scalar against a list or map literal. -/
def scalarAgainstAggregate (op : ComparisonOperator) (cerbosVar : String)
    (scope : Scope schema) : Except Refusal Predicate :=
  if op.isOrdering then .ok TriPredicate.unknown
  else if isExplicitNull cerbosVar scope then .ok (constant (op = .ne))
  else do return matchesNothing op (← scope.path cerbosVar)

def leafFieldValue (op : ComparisonOperator) (cerbosVar : String) (value : JavaValue)
    (scope : Scope schema) : Except Refusal Predicate :=
  match value with
  | .list _ | .map _ =>
      if holdsScalars cerbosVar scope then scalarAgainstAggregate op cerbosVar scope
      else
        .error (.unsupported (op.name ++ " comparison against a " ++ constantShape value ++
          " constant is not supported for attribute " ++ cerbosVar ++ ". Whole-" ++
          kindWord value ++ " equality is not translatable to a scalar column comparison; map " ++
          "the attribute as a Relation and use in/hasIntersection, or compare elements " ++
          "individually."))
  | .null => do
      let path ← scope.path cerbosVar
      if op.isOrdering then
        .error (.unsupported ("Null values are only supported with eq and ne operators (got " ++
          op.name ++ ")"))
      else if isDeclaredOmitted cerbosVar scope then return matchesNothing op path
      else return if op = .eq then .isNull (.path path) else .isNotNull (.path path)
  | value => do
      let path ← scope.path cerbosVar
      if !op.isOrdering && isExplicitNull cerbosVar scope then
        return definiteEquality op (.path path) (.literal value.bound) path.javaType
          value.javaType true false
      else match op.isOrdering, value with
        | true, .string text =>
            if hasCodeUnitFromSurrogates text then
              .error (.unsupported (op.name ++ " orders a string attribute against a literal " ++
                "holding a character at or above U+D800 (an astral character or " ++
                "U+E000–U+FFFF): CEL orders strings by code point, and a store that compares " ++
                "UTF-16 code units (H2, Java's String.compareTo) puts a surrogate pair before " ++
                "U+E000–U+FFFF"))
            else return applyLeaf op path value
        | _, value => return applyLeaf op path value

/-! ## Subqueries over a relation chain -/

/-- Whether a lambda between `scope` and the chain's owner iterates an element joined
through one of the chain's own attributes. -/
def rejoinsAnEnclosingElement (ref : ResolvedRelation schema) : Scope schema → Bool
  | .root _ _ => false
  | .lambda _ relation _ outer =>
      if outer.level + 1 = ref.owner.level then false
      else ref.joins.contains relation.joinAttribute || rejoinsAnEnclosingElement ref outer

/-- A correlated subquery over a chain, and the entity of its elements. A fresh range
variable pinned to the owner's row is that row. -/
structure ChainSubquery (schema : Schema) where
  source : Source
  element : schema.Entity

def chainSubquery (selectInvocation : Bool) (scope : Scope schema)
    (ref : ResolvedRelation schema) : Except Refusal (ChainSubquery schema) := do
  Except.throwWhen (!selectInvocation) (.selectOnly (".".intercalate ref.joins))
  Except.throwWhen (rejoinsAnEnclosingElement ref scope && !ref.owner.isRoot)
    (.unsupported ("Cannot nest a collection macro over '" ++ ".".intercalate ref.joins ++
      "' inside a lambda over the same relation when the relation is owned by a collection " ++
      "element: the inner subquery can only be given its own range variable over an entity root"))
  let element ← schema.joinedThrough ref.owner.entity ref.joins
  return ⟨⟨ref.owner.level, ref.joins⟩, element⟩

/-- Score each element, 1 when its body is UNKNOWN. -/
def macroScoreSubquery (source : Source) (body : Predicate) (trueScore falseScore : Int) : Count :=
  let score := Count.case
    [(body, .literal (some trueScore)), (TriPredicate.not body, .literal (some falseScore))]
    (.literal (some 1))
  .subquery source (.nullif (.coalesce (.max score) 0) 1)

/-- 0 when every body is determined, NULL when any is UNKNOWN. -/
def undeterminedPoisonTerm (body : Predicate) : Selection :=
  let determined := Count.case
    [(body, .literal (some 0)), (TriPredicate.not body, .literal (some 0))] (.literal (some 1))
  .nullif (.coalesce (.max determined) 0) 1

/-- Count the elements whose body is true, NULL when any body is UNKNOWN. -/
def strictMatchCountSubquery (source : Source) (body : Predicate) : Count :=
  let matched := Count.case [(body, .literal (some 1))] (.literal (some 0))
  .subquery source (.plus (.coalesce (.sum matched) 0) (undeterminedPoisonTerm body))

def undeterminedPoisonSubquery (source : Source) (body : Predicate) : Count :=
  .subquery source (undeterminedPoisonTerm body)

/-- Whether some row is joined. -/
def anyElement (source : Source) : Predicate :=
  .exists source .conjunction

/-- Whether every intermediate hop exists; nothing for a direct relation. -/
def leadingHopsExist (selectInvocation : Bool) (scope : Scope schema)
    (ref : ResolvedRelation schema) : Except Refusal (Option Predicate) :=
  if !ref.isChained then .ok none
  else do
    let hops ← chainSubquery selectInvocation scope ⟨ref.owner, ref.head, ref.rest.dropLast⟩
    return some (anyElement hops.source)

/-- A value, or NULL when an intermediate hop is absent. -/
def requireLeadingHops (selectInvocation : Bool) (scope : Scope schema)
    (ref : ResolvedRelation schema) (value : Count) : Except Refusal Count := do
  match ← leadingHopsExist selectInvocation scope ref with
  | none => return value
  | some guard => return .case [(guard, value)] (.literal none)

/-! ## Sizes -/

/-- Java's `(long)` of a double. -/
def toLong : Double → Int
  | .nan => 0
  | .posInf => 2 ^ 63 - 1
  | .negInf => -2 ^ 63
  | d => max (-2 ^ 63) (min (2 ^ 63 - 1) d.trunc)

/-- The constant, adjusted for an integral count. -/
structure Threshold where
  op : ComparisonOperator
  value : Int
  decided : Option Bool

def Threshold.of (op : ComparisonOperator) (raw : Double) : Threshold :=
  -- `raw == Math.rint(raw)` holds of an infinity
  if raw.isInteger || raw.isInfinite then ⟨op, toLong raw, none⟩
  else match op with
    | .eq => ⟨op, toLong raw.floor, some false⟩
    | .ne => ⟨op, toLong raw.floor, some true⟩
    | .gt | .ge => ⟨.ge, toLong raw.ceil, none⟩
    | .lt | .le => ⟨.le, toLong raw.floor, none⟩

def compareCount (count : Count) (op : ComparisonOperator) (n : Int) : Predicate :=
  .compareCount op count (.literal (some n))

/-- `size(collection)`, of a direct relation by EXISTS where that decides it. -/
def elementCount (selectInvocation : Bool) (ref : ResolvedRelation schema)
    (threshold : Threshold) (scope : Scope schema) : Except Refusal Predicate :=
  let ⟨op, n, decided⟩ := threshold
  match decided with
  | some answer =>
      if !ref.isChained then .ok (constant answer)
      else do
        let one ← requireLeadingHops selectInvocation scope ref (.literal (some 1))
        return compareCount one .eq (if answer then 1 else 0)
  | none => do
      let cs ← chainSubquery selectInvocation scope ref
      if !ref.isChained && ((op = .gt && n = 0) || (op = .ge && n = 1)) then
        return anyElement cs.source
      else if !ref.isChained && ((op = .eq && n = 0) || (op = .le && n = 0) ||
          (op = .lt && n = 1)) then
        return TriPredicate.not (anyElement cs.source)
      else
        let count ← requireLeadingHops selectInvocation scope ref (.subquery cs.source .count)
        return compareCount count op n

/-- `size(filter(...))`, of the body's predicate. -/
def matchingElementCount (selectInvocation : Bool) (ref : ResolvedRelation schema)
    (threshold : Threshold) (scope : Scope schema) (source : Source) (body : Predicate) :
    Except Refusal Predicate :=
  match threshold.decided with
  | some answer => do
      let poison ← requireLeadingHops selectInvocation scope ref
        (undeterminedPoisonSubquery source body)
      return compareCount poison (if answer then .eq else .ne) 0
  | none =>
      return compareCount (strictMatchCountSubquery source body) threshold.op threshold.value

/-! ## Collection macros -/

/-- The comparison of the score, or of the strict count, that a macro is. -/
def handleCollectionOperator (selectInvocation : Bool) (operator : PlanOperator)
    (ref : ResolvedRelation schema) (scope : Scope schema) (source : Source) (body : Predicate) :
    Except Refusal Predicate :=
  match operator with
  | .exists => do
      let score ← requireLeadingHops selectInvocation scope ref
        (macroScoreSubquery source body 2 0)
      return compareCount score .eq 2
  | .all => do
      let score ← requireLeadingHops selectInvocation scope ref
        (macroScoreSubquery source body 0 2)
      return compareCount score .eq 0
  | .existsOne => do
      let count ← requireLeadingHops selectInvocation scope ref
        (strictMatchCountSubquery source body)
      return compareCount count .eq 1
  | operator =>
      .error (.internal ("Unsupported collection operator: " ++ operator.name))

/-! ## The walk -/

def enterMacro {α : Type} (maxMacroDepth : Nat) (op : String) (macroDepth : Nat)
    (body : Nat → Except Refusal α) : Except Refusal α :=
  if maxMacroDepth < macroDepth + 1 then
    .error (.unsupported ("Collection-macro nesting depth " ++ toString (macroDepth + 1) ++
      " exceeds the maximum of " ++ toString maxMacroDepth ++ " (reached via operator '" ++ op ++
      "'). Nested relation macros and literal folds multiply translation work and correlated " ++
      "subqueries, so deeply nested macros degrade query latency sharply. If the policy shape " ++
      "is intentional, raise the limit via the " ++
      "'dev.cerbos.queryplan.springdata.maxMacroDepth' system property."))
  else body (macroDepth + 1)

/-- The relation that a variable resolves to. -/
def resolveRelation (cerbosVar : String) (scope : Scope schema) :
    Except Refusal (Option (ResolvedRelation schema)) := do
  match ← scope.resolve cerbosVar with
  | .relation ref => return some ref
  | _ => return none

def isRelation (cerbosVar : String) (scope : Scope schema) : Bool :=
  match scope.resolve cerbosVar with
  | .ok (.relation _) => true
  | _ => false

def isList : PlanValue Double → Bool
  | .array _ => true
  | _ => false

/-- A boolean constant branch becomes always-true or always-false. -/
def booleanBranchPredicate (branch : Node) (walk : Except Refusal Predicate) :
    Except Refusal Predicate :=
  match branch with
  | .value (.bool b) => .ok (constant b)
  | .value _ => .error (.malformed "if (ternary) branch in boolean position must be a boolean")
  | _ => walk

/-- `PlanWalker`. The shapes of operands that other translators handle, and those refused
for their shape, are the parameter `other`. -/
structure PlanWalker (schema : Schema) where
  selectInvocation : Bool
  maxMacroDepth : Nat
  other : PlanOperator → List Node → (macroDepth : Nat) → Scope schema → Except Refusal Predicate

namespace PlanWalker

variable (walker : PlanWalker schema)

/-- A comparison of an attribute with a literal. Whole-list equality of a relation is
rewritten elsewhere. -/
def attributeComparison (operator : PlanOperator) (operands : List Node) (op : ComparisonOperator)
    (cerbosVar : String) (literal : PlanValue Double) (macroDepth : Nat) (scope : Scope schema) :
    Except Refusal Predicate :=
  if !op.isOrdering && isList literal && isRelation cerbosVar scope then
    walker.other operator operands macroDepth scope
  else leafFieldValue op cerbosVar (protoValueToJava literal) scope

/-- `size(collection) op raw`; the size of a scalar is handled elsewhere. -/
def sizeComparison (operator : PlanOperator) (operands : List Node) (op : ComparisonOperator)
    (collection : String) (raw : Double) (macroDepth : Nat) (scope : Scope schema) :
    Except Refusal Predicate := do
  match ← resolveRelation collection scope with
  | some ref => elementCount walker.selectInvocation ref (.of op raw) scope
  | none => walker.other operator operands macroDepth scope

/-- `size(filter(collection, lambda)) op raw`, of the walk over the lambda's body. -/
def filterSizeComparison (op : ComparisonOperator) (collection lambdaVar : String) (raw : Double)
    (macroDepth : Nat) (scope : Scope schema)
    (walk : (macroDepth : Nat) → Scope schema → Except Refusal Predicate) :
    Except Refusal Predicate := do
  match ← resolveRelation collection scope with
  | none =>
      let operand := match scalarMapping collection scope with
        | some (.field _) => "size(filter(...))"
        | _ => "size()"
      .error (.unmapped (operand ++ " requires a collection (Relation) mapping for " ++
        collection))
  | some ref =>
      enterMacro walker.maxMacroDepth "size(filter(...))" macroDepth fun macroDepth => do
        let cs ← chainSubquery walker.selectInvocation scope ref
        let body ← walk macroDepth (.lambda cs.element ref.tail lambdaVar scope)
        matchingElementCount walker.selectInvocation ref (.of op raw) scope cs.source body

/-- A macro over a relation, of the walk over the lambda's body. -/
def relationMacro (operator : PlanOperator) (collection lambdaVar : String) (macroDepth : Nat)
    (scope : Scope schema)
    (walk : (macroDepth : Nat) → Scope schema → Except Refusal Predicate) :
    Except Refusal Predicate := do
  match ← resolveRelation collection scope with
  | none =>
      .error (.unmapped (operator.name ++ " requires a Relation mapping for " ++ collection))
  | some ref =>
      enterMacro walker.maxMacroDepth operator.name macroDepth fun macroDepth => do
        let cs ← chainSubquery walker.selectInvocation scope ref
        let body ← walk macroDepth (.lambda cs.element ref.tail lambdaVar scope)
        handleCollectionOperator walker.selectInvocation operator ref scope cs.source body

mutual

def traverse : Node → (macroDepth : Nat) → Scope schema → Except Refusal Predicate
  | .value _, _, _ => .error (.malformed "Unexpected operand type: VALUE")
  | .var cerbosVar, _, scope => do
      return applyLeaf .eq (← scope.path cerbosVar) (.bool true)
  | .expression operator operands, macroDepth, scope =>
      match operator with
      | .and => do return .and (← traverseEach operands macroDepth scope)
      | .or => do return .or (← traverseEach operands macroDepth scope)
      | .not =>
          match operands with
          | [operand] => do return TriPredicate.not (← traverse operand macroDepth scope)
          | _ => .error (.malformed "not requires exactly 1 operand")
      | .exists | .existsOne | .all =>
          match operands with
          | [.var collection, .expression .lambda [body, .var lambdaVar]] =>
              walker.relationMacro operator collection lambdaVar macroDepth scope (traverse body)
          | operands => walker.other operator operands macroDepth scope
      | .filter =>
          .error (.unsupported ("filter() returns a list, not a boolean, so it cannot be a " ++
            "condition on its own; only size(filter(...)) has a boolean meaning"))
      | .if =>
          match operands with
          | [.value (.bool known), thenBranch, elseBranch] =>
              if known then
                booleanBranchPredicate thenBranch (traverse thenBranch macroDepth scope)
              else booleanBranchPredicate elseBranch (traverse elseBranch macroDepth scope)
          | [.value _, _, _] =>
              .error (.malformed "if (ternary) condition must be a boolean expression")
          | [condition, thenBranch, elseBranch] => do
              let condition ← traverse condition macroDepth scope
              let thenBranch ←
                booleanBranchPredicate thenBranch (traverse thenBranch macroDepth scope)
              let elseBranch ←
                booleanBranchPredicate elseBranch (traverse elseBranch macroDepth scope)
              return TriPredicate.ternary condition thenBranch elseBranch
          | operands =>
              .error (.malformed ("if (ternary) requires exactly 3 operands (condition, then, " ++
                "else), got " ++ toString operands.length))
      | operator =>
          match comparisonOperator operator, operands with
          | some op, [.var cerbosVar, .value literal] =>
              walker.attributeComparison operator operands op cerbosVar literal macroDepth scope
          | some op, [.value literal, .var cerbosVar] =>
              walker.attributeComparison operator operands op.mirrored cerbosVar literal macroDepth
                scope
          | some op, [.expression .size [.var collection], .value (.number raw)] =>
              walker.sizeComparison operator operands op collection raw macroDepth scope
          | some op, [.value (.number raw), .expression .size [.var collection]] =>
              walker.sizeComparison operator operands op.mirrored collection raw macroDepth scope
          | some op, [.expression .size [.expression .filter
                [.var collection, .expression .lambda [body, .var lambdaVar]]],
              .value (.number raw)] =>
              walker.filterSizeComparison op collection lambdaVar raw macroDepth scope
                (traverse body)
          | some op, [.value (.number raw), .expression .size [.expression .filter
                [.var collection, .expression .lambda [body, .var lambdaVar]]]] =>
              walker.filterSizeComparison op.mirrored collection lambdaVar raw macroDepth scope
                (traverse body)
          | _, operands => walker.other operator operands macroDepth scope

def traverseEach : List Node → (macroDepth : Nat) → Scope schema → Except Refusal (List Predicate)
  | [], _, _ => .ok []
  | operand :: operands, macroDepth, scope => do
      let predicate ← traverse operand macroDepth scope
      let predicates ← traverseEach operands macroDepth scope
      return predicate :: predicates

end

end PlanWalker

/-! ## The adapter -/

/-- `Options`, without operator overrides. -/
structure Options where
  mapping : Mapper
  nullAttributeRepresentation : NullAttributeRepresentation
  maxMacroDepth : Nat := 5

def carriesNull : Node → Bool
  | .value .null => true
  | .value (.array items) => items.any fun
      | .null => true
      | _ => false
  | _ => false

def isNullLiteral : Node → Bool
  | .value .null => true
  | _ => false

/-- The declared convention of the attribute in an attribute-vs-literal comparison. -/
def declaredForComparedAttribute (operator : PlanOperator) (operands : List Node)
    (mapper : Mapper) : Option NullAttributeRepresentation :=
  let declared (name : String) :=
    match mapper.lookup name with
    | some (.field field) => field.nullAttributeRepresentation
    | _ => none
  match operator, operands with
  | .eq, [.var name, .value _] | .ne, [.var name, .value _] | .in, [.var name, .value _]
  | .eq, [.value _, .var name] | .ne, [.value _, .var name] | .in, [.value _, .var name] =>
      declared name
  | _, _ => none

mutual

/-- Reject every null literal operand governed by the omitted convention. -/
def assertNoNullComparisonOperands (mapper : Mapper) (fallback : NullAttributeRepresentation) :
    Node → Except Refusal Unit
  | .value _ | .var _ => .ok ()
  | .expression operator operands =>
      let declared := declaredForComparedAttribute operator operands mapper
      if declared = some .omitted && (operator = .eq || operator = .ne) &&
          operands.any isNullLiteral then .ok ()
      else if declared.getD fallback = .omitted && operands.any carriesNull then
        .error (.unsupported ("Cannot translate " ++ "\u0060" ++ operator.name ++ "\u0060" ++
          " against a null operand under NullAttributeRepresentation.OMITTED: a NULL column " ++
          "sends no attribute, so Cerbos evaluates the comparison as a missing-attribute error " ++
          "(deny) while a NULL-selecting filter would return those rows. Send NULL columns as " ++
          "explicit nulls and use EXPLICIT, or keep this shape out of the policy."))
      else if declared = none then assertEachNoNullComparison mapper fallback operands
      else .ok ()

def assertEachNoNullComparison (mapper : Mapper) (fallback : NullAttributeRepresentation) :
    List Node → Except Refusal Unit
  | [] => .ok ()
  | operand :: operands => do
      assertNoNullComparisonOperands mapper fallback operand
      assertEachNoNullComparison mapper fallback operands

end

/-- The predicate of a condition over an entity, for a SELECT or for another statement. -/
def conditional (options : Options) (selectInvocation : Bool)
    (other : PlanOperator → List Node → Nat → Scope schema → Except Refusal Predicate)
    (entity : schema.Entity) (condition : Node) : Except Refusal Predicate := do
  assertNoNullComparisonOperands options.mapping options.nullAttributeRepresentation condition
  PlanWalker.traverse ⟨selectInvocation, options.maxMacroDepth, other⟩ condition 0
    (.root entity options.mapping)

end QueryPlanAdapters.SpringData
