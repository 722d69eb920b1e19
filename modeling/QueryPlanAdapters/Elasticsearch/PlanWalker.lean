import QueryPlanAdapters.Elasticsearch.Hierarchies

/-!
# Elasticsearch: the walk of a plan

`and`, `or` and `not` become clauses, with the negations pushed down to the leaves as a
polarity. Every other operator has its own translator. A macro over a nested collection walks
its body in the scope of an element, where every other operator is a leaf.
-/

namespace QueryPlanAdapters.Elasticsearch

/-! ## Emptiness -/

inductive SizeThreshold where
  | nonEmpty | empty | unsupported

structure SizeComparison where
  name : String
  field : String
  operator : PlanOperator
  value : Double
  threshold : SizeThreshold

/-- The operands of the last `size(...)`, and whether it stands first. -/
def sizeExpression (operands : List Operand) : Option (List Operand × Bool) :=
  operands.zipIdx.reverse.findSome? fun entry => match entry with
    | (.expression .size sizeOperands, i) => some (sizeOperands, i = 0)
    | _ => none

/-- The last number. -/
def sizeValue (operands : List Operand) : Option Double :=
  operands.reverse.findSome? fun operand => match operand with
    | .value literal => match protoValueToJava literal with
        | .number d => some d
        | _ => none
    | _ => none

def sizeThreshold (operator : PlanOperator) (value : Double) : SizeThreshold :=
  if (operator = .gt && value.eq 0) || (operator = .ge && value.eq 1) ||
    (operator = .ne && value.eq 0) then .nonEmpty
  else if (operator = .eq && value.eq 0) || (operator = .le && value.eq 0) ||
    (operator = .lt && value.eq 1) then .empty
  else .unsupported

def unsafeEmptyCollectionSize {α : Type} (name : String) : Translation α :=
  unsupported ("size(" ++ name ++ ") emptiness cannot distinguish a missing collection from an " ++
    "empty collection in Elasticsearch")

namespace Options

variable (options : Options)

def resolveSizeComparison (operator : PlanOperator) (operands : List Operand) :
    Translation (Option SizeComparison) :=
  match sizeExpression operands with
  | none => .ok none
  | some (sizeOperands, sizeFirst) => do
      let normalized ← normalizeLeafOperator operator sizeFirst
      match sizeOperands, (sizeValue operands).filter Double.isFinite with
      | [.expression .except _], _ => exceptUnsupported
      | [.var name], some value => do
          let field ← (Scope.root options.fieldMap).field name
          return some { name, field, operator := normalized, value,
                        threshold := sizeThreshold normalized value }
      | [.var _], none => unsupported "size comparison requires a finite numeric value"
      | _, _ => unsupported "Unsupported size() expression"

/-- The query for a collection with an element. The plan cannot tell a string's length from
an array's count, so the field has to be declared. -/
def collectionPresentQuery (comparison : SizeComparison) : Translation Query :=
  if options.nestedPaths.contains comparison.field then
    .ok (.nestedQuery comparison.field .matchAll)
  else if options.collectionFields.contains comparison.field then .ok (.exists comparison.field)
  else unsupported ("size() over a field not declared as a collection: Elasticsearch cannot tell a " ++
    "string's length or a number from an array count, so size(" ++ comparison.name ++
    ") is refused unless '" ++ comparison.field ++ "' is declared in nestedPaths or collectionFields")

/-- The query of a `size()` comparison, none if neither operand is a `size()`. -/
def tryTranslate (doubleText : Double → String) (operator : PlanOperator) (operands : List Operand)
    (polarity : Polarity) : Translation (Option Query) := do
  match ← options.resolveSizeComparison operator operands with
  | none => return none
  | some comparison =>
      let present ← options.collectionPresentQuery comparison
      match comparison.threshold with
      | .nonEmpty =>
          if polarity.holds then return some present else unsafeEmptyCollectionSize comparison.name
      | .empty =>
          if polarity.holds then unsafeEmptyCollectionSize comparison.name else return some present
      | .unsupported =>
          unsupported ("Unsupported size comparison: size(" ++ comparison.name ++ ") " ++
            comparison.operator.name ++ " " ++ doubleText comparison.value ++
            ". Only emptiness checks (size > 0, size == 0) are supported.")

end Options

/-! ## Collections -/

/-- What an operand becomes in a scope, under a polarity. -/
abbrev Walk := Scope → Polarity → Translation Query

def lambdaBindingOperator : PlanOperator → Bool
  | .exists | .existsOne | .all | .filter | .map => true
  | _ => false

def rejectUnfoldableValueListMacro (operator : PlanOperator) (operands : List Operand) :
    Translation Unit :=
  match lambdaBindingOperator operator, operands with
  | true, [.value _, _] =>
      unsupported (operator.name ++ " over a literal collection value is not supported. Only exists() " ++
        "and all() can be folded into a flat query.")
  | _, _ => .ok ()

/-- `"x" in c.map(t, t.f)` -/
def isMembershipInMapProjection : List Operand → Bool
  | [.value _, .expression .map [.var _, _]] => true
  | _ => false

/-- `x == v`, of the lambda's variable and a literal. -/
def isVariableAndValue (name : String) : (first second : Operand) → Bool
  | .var reference, .value _ => reference = name
  | _, _ => false

/-- The folds of the macros over lists that the plan holds, and the intersections with a
collection. -/
structure CollectionTranslator where
  handleKnownValueCollection : PlanOperator → Literal → Operand → Polarity → Translation Query
  handleListExpression : PlanOperator → List Operand → Operand → Polarity → Translation Query
  translateHasIntersection : List Operand → Polarity → Translation Query
  translateMapProjectionMembership : List Operand → Polarity → Translation Query

/-- A macro over a nested collection, by the walk of the lambda's body. -/
def nestedMacro (operator : PlanOperator) (field : String) (lambda : Operand) (walks : List Walk)
    (polarity : Polarity) : Translation Query :=
  match lambda, walks with
  | .expression .lambda [_, .var name], [body, _] =>
      if polarity.holds && operator = .all then
        unsupported ("all cannot distinguish a missing collection from an empty collection in " ++
          "Elasticsearch")
      else if !polarity.holds && operator = .exists then
        unsupported ("Negated exists cannot distinguish a missing collection from an empty " ++
          "collection in Elasticsearch")
      else do return .nestedQuery field (← body (.lambda field name) polarity)
  | .expression .lambda [_, _], _ => malformed "lambda second operand must be a variable"
  | .expression .lambda _, _ => malformed "lambda requires exactly 2 operands"
  | .expression other _, _ =>
      malformed (operator.name ++ " second operand must be a lambda, got " ++ other.name)
  | _, _ => malformed (operator.name ++ " second operand must be a lambda expression")

section Walks

variable [JavaCharacter]

/-- `exists(x, x == v)` over a flat array is a single term match. -/
def Options.flatScalarExistsEquality (options : Options) (operator : PlanOperator)
    (lambda : Operand) (field : String) (polarity : Polarity) : Option (Translation Query) :=
  match operator, polarity, lambda with
  | .exists, .true, .expression .lambda [.expression .eq [left, right], .var name] =>
      if isVariableAndValue name left right || isVariableAndValue name right left then
        some (options.applyResolvedLeaf .eq [left, right] (.root [(name, field)]) .true)
      else none
  | _, _, _ => none

/-- `exists` and `all`, by the walks of the operands' own operands. -/
def Options.translateMacro (options : Options) (collections : CollectionTranslator)
    (operator : PlanOperator) (operands : List Operand) (inner : List (List Walk))
    (polarity : Polarity) : Translation Query :=
  match operands, inner with
  | [_, .expression .lambda [_, _, _]], _ =>
      unsupported (operator.name ++ " with two variables binds each element's index, or each map key, " ++
        "beside its value: Elasticsearch indexes an array as an unordered set of terms and holds no " ++
        "term for an object's keys, so no Query DSL query reads either")
  | [.expression .list elements, lambda], _ =>
      collections.handleListExpression operator elements lambda polarity
  | [.value collection, lambda], _ =>
      collections.handleKnownValueCollection operator collection lambda polarity
  | [.var name, lambda], [_, walks] => do
      let field ← (Scope.root options.fieldMap).field name
      if options.nestedPaths.contains field then nestedMacro operator field lambda walks polarity
      else if options.collectionFields.contains field then
        match options.flatScalarExistsEquality operator lambda field polarity with
        | some query => query
        | none =>
            unsupported ("Collection macros over flat scalar arrays cannot preserve per-element " ++
              "predicates without a nested mapping")
      else if options.isObjectPath field then
        unsupported (operator.name ++ " over the object field '" ++ field ++ "' ranges over its keys, " ++
          "as CEL iterates a map, and a Query DSL query cannot enumerate the keys an object holds")
      else
        unmapped ("Field '" ++ field ++ "' is not declared in nestedPaths. Collection operators " ++
          "require nested mappings.")
  | [_, _], _ =>
      unsupported (operator.name ++ " over a computed collection cannot be lowered to a nested query")
  | operands, _ =>
      malformed (operator.name ++ " requires exactly 2 operands, got " ++ toString operands.length)

/-! ## The walk -/

/-- One translation. -/
structure PlanWalker where
  options : Options
  collections : CollectionTranslator
  /-- `String.valueOf`, of a literal that is no string. -/
  valueOf : Literal → String
  /-- `Double.toString` -/
  doubleText : Double → String

namespace PlanWalker

variable (walker : PlanWalker)

def root : Scope :=
  .root walker.options.fieldMap

/-- The operators only the top-level scope dispatches. -/
def rootExpression (operator : PlanOperator) (operands : List Operand) (inner : List (List Walk))
    (polarity : Polarity) : Translation Query :=
  match operator with
  | .exists | .all =>
      walker.options.translateMacro walker.collections operator operands inner polarity
  | .existsOne => do
      rejectUnfoldableValueListMacro operator operands
      unsupported "exists_one cannot be expressed by Elasticsearch nested queries without scripts"
  | .hasIntersection => walker.collections.translateHasIntersection operands polarity
  | .ancestorOf | .descendentOf | .overlaps =>
      HierarchyTranslator.translate walker.valueOf ⟨walker.root, walker.options.scalarTypes⟩ operator
        operands polarity
  | operator =>
      if operator = .in && isMembershipInMapProjection operands then
        walker.collections.translateMapProjectionMembership operands polarity
      else do
        rejectUnfoldableValueListMacro operator operands
        match ← walker.options.tryTranslate walker.doubleText operator operands polarity with
        | some query => return query
        | none => walker.options.applyResolvedLeaf operator operands walker.root polarity

/-- De Morgan: under the negative polarity `and` becomes `should` and `or` becomes `must`. -/
def junction (conjunction : Bool) (clauses : List Query) : Query :=
  if conjunction then .boolMust clauses else .boolShould clauses

def expression (operator : PlanOperator) (operands : List Operand) (each : List Walk)
    (inner : List (List Walk)) : Walk := fun scope polarity =>
  match operator, each with
  | .and, each => do
      return junction polarity.holds (← each.mapM fun walk => walk scope polarity)
  | .or, each => do
      return junction (!polarity.holds) (← each.mapM fun walk => walk scope polarity)
  | .not, [walk] => walk scope polarity.negate
  | .not, each => malformed ("not requires exactly 1 operand, got " ++ toString each.length)
  | .except, _ => exceptUnsupported
  | .if, _ => ternaryUnsupported
  | operator, _ =>
      match scope with
      | .root _ => walker.rootExpression operator operands inner polarity
      | .lambda _ _ => walker.options.applyResolvedLeaf operator operands scope polarity

def operand : Operand → Walk :=
  Operand.fold (fun _ _ _ => malformed "Unexpected operand type: VALUE")
    (fun name scope polarity => do
      walker.options.applyOperator .eq (← scope.field name) (.bool polarity.holds))
    walker.expression

/-- The Query DSL clause of a condition. -/
def translate (condition : Operand) : Translation Query :=
  walker.operand condition walker.root .true

theorem operand_expression (operator : PlanOperator) (operands : List Operand) :
    walker.operand (.expression operator operands) =
      walker.expression operator operands (operands.map walker.operand)
        (operands.map fun operand => operand.operands.map walker.operand) :=
  Operand.fold_expression _ _ _ operator operands

end PlanWalker

end Walks

end QueryPlanAdapters.Elasticsearch
