import QueryPlanAdapters.SpringData.Translate

/-!
# Spring Data: what a condition evaluates to

CEL's evaluation of a condition over the resource that the application sends for a row,
an error being UNKNOWN. Beside it, under `credit`, the evaluation that the adapter's
predicates compute. The two differ where the adapter

* takes a bare attribute of a column that is not boolean for `false`, where CEL has a type
  error;
* takes the parent of a filtered collection for present when the count is compared;
* takes a NULL without a declared convention for a null value beside a null literal, and
  for a missing attribute beside any other;
* takes a column whose Java type is neither a string, a boolean nor a number for a value
  that equals no literal and has no order;
* orders a size against NaN as it does against 0;
* takes an attribute behind a relation, declared to be an explicit null, for a value when it
  is compared with a list or a map.
-/

namespace QueryPlanAdapters.SpringData

open Sql

/-- How an application makes a resource of a row. -/
structure Application where
  /-- The convention of the attributes that declare none. -/
  nullAttributeRepresentation : NullAttributeRepresentation
  /-- The attribute sent for a value of a Java type that JSON does not have. -/
  render : String → SqlValue → Value

/-- `if`, which does not absorb an error of its condition. -/
def chosen (condition thenBranch elseBranch : Truth) : Truth :=
  match condition with
  | .yes => thenBranch
  | .no => elseBranch
  | .unknown => .unknown

/-- The number of elements that a strict macro finds, when none is an error. -/
def strictCount (bodies : List Truth) : Option Nat :=
  if .unknown ∈ bodies then none else some (bodies.count .yes)

/-- The convention that a mapping declares; the element of a relation is sent as it is. -/
def MappingOver.convention : AttributeMapping → Option NullAttributeRepresentation
  | .relation _ => some .explicit
  | .field f => f.nullAttributeRepresentation

/-- Whether a size comparison depends on the size. An equality with a fraction does not. -/
def dependsOnSize (op : ComparisonOperator) (raw : Double) : Bool :=
  op.isOrdering || raw.isInteger || raw.isInfinite

section Semantics

variable {schema : Schema} (store : Store schema) (app : Application) (credit : Bool)

/-! ## Attributes -/

/-- The convention a NULL is sent by. -/
def conventionOf (declared : Option NullAttributeRepresentation) (besideNull : Bool) :
    NullAttributeRepresentation :=
  declared.getD
    (if credit then if besideNull then .explicit else .omitted
    else app.nullAttributeRepresentation)

/-- The attribute sent for a column's value, nothing when it is missing. -/
def sentAttribute (javaType : JavaType) (v : SqlValue)
    (declared : Option NullAttributeRepresentation) (besideNull : Bool) : Option Value :=
  if v.isNull then
    match conventionOf app credit declared besideNull with
    | .explicit => some .null
    | .omitted => none
  else match javaType with
    | .other name => some (if credit then .inherited name else app.render name v)
    | _ => some v.toCel

/-- The attribute that a resolved variable denotes. One behind a relation is missing unless
the relation leads to a single row. -/
def attributeOf (resolution : Resolution schema) (env : store.Env) (besideNull : Bool) :
    Option Value :=
  match resolution with
  | .scalar path mapping =>
      sentAttribute app credit path.javaType (store.value path env) mapping.convention besideNull
  | .scalarBehind ref field =>
      if credit then some (.inherited field.jpaPath)
      else match (env[ref.owner.level]?).map fun row => store.reach row ref.joins with
        | some [last] =>
            sentAttribute app credit
              ((schema.column (store.entity last) field.jpaPath).getD (.other field.jpaPath))
              (store.column last field.jpaPath) field.nullAttributeRepresentation besideNull
        | _ => none
  | .relation _ => none

def readAttribute (scope : Scope schema) (env : store.Env) (name : String) (besideNull : Bool) :
    Option Value :=
  match scope.resolve name with
  | .ok resolution => attributeOf store app credit resolution env besideNull
  | .error _ => none

/-- An attribute in boolean position. -/
def bareTruth : Option Value → Truth
  | some (.bool b) => .ofBool b
  | none | some .null => .unknown
  | some _ => if credit then .no else .unknown

/-- A comparison of an attribute with a literal. -/
def comparisonTruth (op : ComparisonOperator) (x : Option Value) (literal : PlanValue Double) :
    Truth :=
  match x with
  | some v => Value.compare op v (.ofPlan literal)
  | none => .unknown

/-! ## Collections -/

/-- The elements of a collection, nothing when a hop before it is absent. -/
def elementsOf (ref : ResolvedRelation schema) (env : store.Env) : Option (List store.Row) :=
  (env[ref.owner.level]?).bind fun row =>
    if (store.reach row ref.leadingHops).isEmpty then none else some (store.reach row ref.joins)

/-- The comparison of a size with a number. -/
def sizeTruth (op : ComparisonOperator) (size : Nat) (raw : Double) : Truth :=
  if credit && op.isOrdering && raw.isNaN then
    .ofBool ((if op = .gt || op = .ge then ComparisonOperator.ge else .le).test
      (.finite size) (.finite 0))
  else .ofBool (op.test (.finite size) raw)

/-- The comparison of a filtered collection's size with a number, of the bodies' values. -/
def filterSizeTruth (op : ComparisonOperator) (bodies : Option (List Truth)) (raw : Double) :
    Truth :=
  match bodies with
  | some bodies =>
      match strictCount bodies with
      | some size => sizeTruth credit op size raw
      | none => .unknown
  | none => if credit && dependsOnSize op raw then sizeTruth credit op 0 raw else .unknown

/-- A macro, of the values of its body. -/
def macroTruth (operator : PlanOperator) (bodies : List Truth) : Truth :=
  match operator with
  | .exists => Truth.any bodies
  | .all => Truth.all bodies
  | _ => Truth.exactlyOne bodies

/-- The values of a lambda's body over a collection. -/
def bodiesOf (collection lambdaVar : String) (scope : Scope schema) (env : store.Env)
    (body : Scope schema → store.Env → Truth) : Option (List Truth) :=
  match scope.resolve collection with
  | .ok (.relation ref) =>
      (elementsOf store ref env).map fun elements => elements.map fun e =>
        body (.lambda (store.entity e) ref.tail lambdaVar scope) (env ++ [e])
  | _ => none

/-- The comparison of a collection's size with a number. -/
def collectionSizeTruth (op : ComparisonOperator) (collection : String) (raw : Double)
    (scope : Scope schema) (env : store.Env) : Truth :=
  match scope.resolve collection with
  | .ok (.relation ref) =>
      match elementsOf store ref env with
      | some elements => sizeTruth credit op elements.length raw
      | none => .unknown
  | _ => .unknown

/-! ## Conditions -/

mutual

/-- The value of a condition in a scope. -/
def verdict : Node → Scope schema → store.Env → Truth
  | .value (.bool b), _, _ => .ofBool b
  | .value _, _, _ => .unknown
  | .var name, scope, env => bareTruth credit (readAttribute store app credit scope env name false)
  | .expression operator operands, scope, env =>
      match operator with
      | .and => Truth.all (verdicts operands scope env)
      | .or => Truth.any (verdicts operands scope env)
      | .not =>
          match operands with
          | [operand] => (verdict operand scope env).not
          | _ => .unknown
      | .if =>
          match operands with
          | [condition, thenBranch, elseBranch] =>
              chosen (verdict condition scope env) (verdict thenBranch scope env)
                (verdict elseBranch scope env)
          | _ => .unknown
      | .exists | .existsOne | .all =>
          match operands with
          | [.var collection, .expression .lambda [body, .var lambdaVar]] =>
              match bodiesOf store collection lambdaVar scope env (verdict body) with
              | some bodies => macroTruth operator bodies
              | none => .unknown
          | _ => .unknown
      | operator =>
          match comparisonOperator operator, operands with
          | some op, [.var name, .value literal] =>
              comparisonTruth op
                (readAttribute store app credit scope env name (isNullLiteral (.value literal)))
                literal
          | some op, [.value literal, .var name] =>
              comparisonTruth op.mirrored
                (readAttribute store app credit scope env name (isNullLiteral (.value literal)))
                literal
          | some op, [.expression .size [.var collection], .value (.number raw)] =>
              collectionSizeTruth store credit op collection raw scope env
          | some op, [.value (.number raw), .expression .size [.var collection]] =>
              collectionSizeTruth store credit op.mirrored collection raw scope env
          | some op, [.expression .size [.expression .filter
                [.var collection, .expression .lambda [body, .var lambdaVar]]],
              .value (.number raw)] =>
              filterSizeTruth credit op
                (bodiesOf store collection lambdaVar scope env (verdict body)) raw
          | some op, [.value (.number raw), .expression .size [.expression .filter
                [.var collection, .expression .lambda [body, .var lambdaVar]]]] =>
              filterSizeTruth credit op.mirrored
                (bodiesOf store collection lambdaVar scope env (verdict body)) raw
          | _, _ => .unknown

def verdicts : List Node → Scope schema → store.Env → List Truth
  | [], _, _ => []
  | operand :: operands, scope, env => verdict operand scope env :: verdicts operands scope env

end

end Semantics

/-! ## The conditions covered -/

/-- Two operands, in the plan's order. -/
def inOrder (swapped : Bool) (first second : Node) : List Node :=
  if swapped then [second, first] else [first, second]

def mirroredWhen (swapped : Bool) (op : ComparisonOperator) : ComparisonOperator :=
  if swapped then op.mirrored else op

/-- The macros over a relation. -/
def isQuantifier : PlanOperator → Bool
  | .exists | .existsOne | .all => true
  | _ => false

variable {schema : Schema}

/-- A condition of junctions, negations, ternaries, bare attributes, comparisons of an
attribute or of a relation's size with a literal, and macros over relations. -/
inductive Covered : Scope schema → Node → Prop where
  | constant {scope : Scope schema} (literal : PlanValue Double) : Covered scope (.value literal)
  | bare {scope : Scope schema} (name : String) : Covered scope (.var name)
  | junction {scope : Scope schema} {operator : PlanOperator} {operands : List Node}
      (hoperator : operator = .and ∨ operator = .or)
      (hoperands : ∀ operand ∈ operands, Covered scope operand) :
      Covered scope (.expression operator operands)
  | negation {scope : Scope schema} {operand : Node} (hoperand : Covered scope operand) :
      Covered scope (.expression .not [operand])
  | ternary {scope : Scope schema} {condition thenBranch elseBranch : Node}
      (hcondition : Covered scope condition) (hthen : Covered scope thenBranch)
      (helse : Covered scope elseBranch) :
      Covered scope (.expression .if [condition, thenBranch, elseBranch])
  | comparison {scope : Scope schema} {operator : PlanOperator} {op : ComparisonOperator}
      {name : String} (swapped : Bool) (literal : PlanValue Double)
      (hop : comparisonOperator operator = some op) (hattribute : isRelation name scope = false) :
      Covered scope (.expression operator (inOrder swapped (.var name) (.value literal)))
  | size {scope : Scope schema} {operator : PlanOperator} {op : ComparisonOperator}
      {collection : String} (swapped : Bool) (raw : Double)
      (hop : comparisonOperator operator = some op)
      (hrelation : isRelation collection scope = true) :
      Covered scope (.expression operator
        (inOrder swapped (.expression .size [.var collection]) (.value (.number raw))))
  | filterSize {scope : Scope schema} {operator : PlanOperator} {op : ComparisonOperator}
      {collection lambdaVar : String} {body : Node} (swapped : Bool) (raw : Double)
      (hop : comparisonOperator operator = some op)
      (hbody : ∀ ref element, scope.resolve collection = .ok (.relation ref) →
        Covered (.lambda element ref.tail lambdaVar scope) body) :
      Covered scope (.expression operator (inOrder swapped
        (.expression .size [.expression .filter
          [.var collection, .expression .lambda [body, .var lambdaVar]]])
        (.value (.number raw))))
  | quantifier {scope : Scope schema} {operator : PlanOperator} {collection lambdaVar : String}
      {body : Node} (hoperator : isQuantifier operator = true)
      (hbody : ∀ ref element, scope.resolve collection = .ok (.relation ref) →
        Covered (.lambda element ref.tail lambdaVar scope) body) :
      Covered scope (.expression operator
        [.var collection, .expression .lambda [body, .var lambdaVar]])

end QueryPlanAdapters.SpringData
