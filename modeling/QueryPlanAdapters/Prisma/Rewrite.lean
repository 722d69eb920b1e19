import QueryPlanAdapters.Prisma.Translate

/-!
# Prisma: rewriting a plan before it is translated

References in a lambda body to columns of the root are moved out of it where that can be
done, and the constants this leaves behind are folded.
-/

namespace QueryPlanAdapters.Prisma

/-! ## Shapes -/

/-- `macro(collection, lambda(body, variable))` -/
structure LambdaMacro where
  collection : Node
  body : Node
  variableName : String

def parseLambdaMacro (operator : PlanOperator) (operands : List Node) : Option LambdaMacro :=
  match operands with
  | [collection, .expression .lambda [body, .var name]] =>
      if isCollectionOperator operator then some ⟨collection, body, name⟩ else none
  | _ => none

/-- Whether a name is that of a variable, or of something reached through it. -/
def isReachedFrom (variableName name : String) : Bool :=
  name = variableName || startsWithText name (variableName ++ ".")

mutual

def mentionsVariable (variableName : String) : Node → Bool
  | .var name => isReachedFrom variableName name
  | .value _ => false
  | .expression _ operands => mentionsVariableEach variableName operands

def mentionsVariableEach (variableName : String) : List Node → Bool
  | [] => false
  | operand :: operands =>
      mentionsVariable variableName operand || mentionsVariableEach variableName operands

end

def isOuterScopeName (name : String) (enclosingVariables : List String) : Bool :=
  !enclosingVariables.any fun variableName => isReachedFrom variableName name

mutual

/-- Replace a bare reference with a boolean constant. -/
def substituteNamedOperand (name : String) (b : Bool) : Node → Node
  | .var other => if other = name then .value (.bool b) else .var other
  | .value v => .value v
  | .expression operator operands =>
      .expression operator (substituteNamedOperandEach name b operands)

def substituteNamedOperandEach (name : String) (b : Bool) : List Node → List Node
  | [] => []
  | operand :: operands =>
      substituteNamedOperand name b operand :: substituteNamedOperandEach name b operands

end

/-- The operators all of whose operands are in a boolean position. -/
def isBooleanPositionOperator : PlanOperator → Bool
  | .and | .or | .not | .if => true
  | _ => false

/-- A ternary, or a connective. -/
def isBooleanPositionOperand : Node → Bool
  | .expression operator _ => isBooleanPositionOperator operator
  | _ => false

mutual

/-- A bare reference in a boolean position to a column outside of every enclosing lambda. -/
def findOuterBooleanReference (enclosingVariables : List String) : Node → Option String
  | .var name => if isOuterScopeName name enclosingVariables then some name else none
  | .value _ => none
  | .expression operator operands =>
      findOuterBooleanReferenceAmong enclosingVariables (isBooleanPositionOperator operator) operands

/-- The first in the operands; in those of another operator only a ternary's counts. -/
def findOuterBooleanReferenceAmong (enclosingVariables : List String) (isBoolean : Bool) :
    List Node → Option String
  | [] => none
  | operand :: operands =>
      let found :=
        if isBoolean || isBooleanPositionOperand operand then
          findOuterBooleanReference enclosingVariables operand
        else none
      found.orElse fun _ =>
        findOuterBooleanReferenceAmong enclosingVariables isBoolean operands

end

/-! ## Outer references -/

/-- `macro(collection, lambda(body, variable))`, rebuilt around a new body. -/
def rebuildMacro (operator : PlanOperator) (collection : Node) (variableName : String)
    (body : Node) : Node :=
  .expression operator [collection, .expression .lambda [body, .var variableName]]

/-- The conjuncts of an `exists` body that are about its element, and those that are not. -/
def splitConjuncts (operator : PlanOperator) (variableName : String) (body : Node) :
    Option (List Node × List Node) :=
  match operator, body with
  | .exists, .expression .and operands =>
      let elementConjuncts := operands.filter (mentionsVariable variableName)
      let outerConjuncts := operands.filter (!mentionsVariable variableName ·)
      if outerConjuncts.isEmpty || elementConjuncts.isEmpty then none
      else some (elementConjuncts, outerConjuncts)
  | _, _ => none

/-- Split the cases of an outer reference. The contradiction keeps the whole UNKNOWN where
the reference is. -/
def splitCases (operator : PlanOperator) (collection : Node) (variableName : String) (body : Node)
    (outerRef : String) : Node :=
  let q : Node := .var outerRef
  let notQ : Node := .expression .not [q]
  let arms : List Node := [
    .expression .and
      [q, rebuildMacro operator collection variableName (substituteNamedOperand outerRef true body)],
    .expression .and
      [notQ,
        rebuildMacro operator collection variableName (substituteNamedOperand outerRef false body)],
    .expression .and [q, notQ]]
  -- `all(c, false)` is TRUE exactly when the collection is empty.
  .expression .or (if operator = .all then
    arms ++ [rebuildMacro operator collection variableName (.value (.bool false))] else arms)

/-- A macro over a rewritten body. -/
def hoistFromMacro (operator : PlanOperator) (collection : Node) (variableName : String)
    (body : Node) (scopeVariables : List String) : Node :=
  match splitConjuncts operator variableName body with
  | some (elementConjuncts, outerConjuncts) =>
      let innerBody :=
        match elementConjuncts with
        | [conjunct] => conjunct
        | conjuncts => .expression .and conjuncts
      .expression .and (rebuildMacro operator collection variableName innerBody :: outerConjuncts)
  | none =>
      match findOuterBooleanReference scopeVariables body with
      | some outerRef => splitCases operator collection variableName body outerRef
      | none => rebuildMacro operator collection variableName body

/-- Move the references of lambda bodies to columns of an enclosing scope out of them. -/
def hoistOuterScopeReferences : Node → (enclosingVariables : List String) → Node :=
  Operand.fold (fun v _ => .value v) (fun name _ => .var name)
    fun operator operands results inner enclosingVariables =>
      match parseLambdaMacro operator operands, inner with
      | some parsed, [_, body :: _] =>
          let scopeVariables := enclosingVariables ++ [parsed.variableName]
          hoistFromMacro operator parsed.collection parsed.variableName (body scopeVariables)
            scopeVariables
      | _, _ => .expression operator (results.map (· enclosingVariables))

/-! ## Constants -/

/-- The operators on constants, which are evaluated elsewhere. -/
structure ConstantEvaluation where
  comparison : ComparisonOperator → Literal → Literal → Except Refusal Bool
  arithmetic : PlanOperator → Literal → Literal → Except Refusal Literal
  text : PlanOperator → String → String → Bool

def isBoolean (b : Bool) : Node → Bool
  | .value (.bool b') => b = b'
  | _ => false

/-- `and`/`or` over folded operands: a dominating constant decides, and the others drop
out. -/
def foldLogical (isOr : Bool) (operands : List Node) : Node :=
  if operands.any (isBoolean isOr) then .value (.bool isOr)
  else
    match operands.filter (!·.isValue) with
    | [] => .value (.bool !isOr)
    | [operand] => operand
    | remaining => .expression (if isOr then .or else .and) remaining

def assertLogicalOperands (operator : PlanOperator) (operands : List Node) : Except Refusal Unit :=
  if (operator = .and || operator = .or) && operands.isEmpty then
    unsupported (operator.name ++ " requires at least one operand: an empty " ++ operator.name ++
      " is not something the planner emits, and translating it would produce an unconditional " ++
      "filter (\x7b AND: [] \x7d matches every row)")
  else .ok ()

/-- A macro over a constant body. -/
def foldQuantifier (isExists : Bool) (collection : Node) (body : Literal) : Node :=
  let holds := isBoolean true (.value body)
  let size : Node := .expression .size [collection]
  if isExists then
    if holds then .expression .gt [size, .value (.number 0)] else .value (.bool false)
  else if holds then .value (.bool true) else .expression .eq [size, .value (.number 0)]

/-- An operator over folded operands. -/
def foldOperator (evaluation : ConstantEvaluation) (operator : PlanOperator)
    (operands : List Node) : Except Refusal Node :=
  match operator, operands with
  | .if, .value (.bool b) :: branches =>
      match if b then branches[0]? else branches[1]? with
      | some branch => .ok branch
      | none => unsupported "if (ternary) requires branch operands"
  | .if, .value _ :: _ => unsupported "if (ternary) condition must be a boolean expression"
  | .and, operands => .ok (foldLogical false operands)
  | .or, operands => .ok (foldLogical true operands)
  | .not, .value v :: _ => .ok (.value (.bool !isBoolean true (.value v)))
  | .add, .value a :: .value b :: _ | .sub, .value a :: .value b :: _
  | .mult, .value a :: .value b :: _ | .div, .value a :: .value b :: _ =>
      .value <$> evaluation.arithmetic operator a b
  | .contains, .value (.string a) :: .value (.string b) :: _
  | .startsWith, .value (.string a) :: .value (.string b) :: _
  | .endsWith, .value (.string a) :: .value (.string b) :: _ =>
      .ok (.value (.bool (evaluation.text operator a b)))
  | .exists, collection :: .expression .lambda (.value v :: _) :: _ =>
      .ok (foldQuantifier true collection v)
  | .all, collection :: .expression .lambda (.value v :: _) :: _ =>
      .ok (foldQuantifier false collection v)
  | operator, .value a :: .value b :: rest =>
      match comparisonOperator operator with
      | some comparison => do return .value (.bool (← evaluation.comparison comparison a b))
      | none => .ok (.expression operator (.value a :: .value b :: rest))
  | operator, operands => .ok (.expression operator operands)

section Folding

variable (evaluation : ConstantEvaluation)

mutual

/-- Fold constants, from the leaves up. -/
def constantFoldExpression : Node → Except Refusal Node
  | .value v => .ok (.value v)
  | .var name => .ok (.var name)
  | .expression operator operands => do
      assertLogicalOperands operator operands
      foldOperator evaluation operator (← constantFoldEach operands)

def constantFoldEach : List Node → Except Refusal (List Node)
  | [] => .ok []
  | operand :: operands => do
      let folded ← constantFoldExpression operand
      return folded :: (← constantFoldEach operands)

end

end Folding

end QueryPlanAdapters.Prisma
