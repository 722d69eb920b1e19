import QueryPlanAdapters.Prisma.Rewrite

/-!
# Prisma: ternaries

`cond ? a : b`, in boolean position and as an operand of a comparison or a membership.
Both are a disjunction of the branches, each guarded by a filter of the condition. The
condition and its negation have a filter each, and both of them together stand for the
condition that is an error.
-/

namespace QueryPlanAdapters.Prisma

/-! ## Constants -/

mutual

def areValuesEqual : Literal → Literal → Bool
  | .array left, .array right => areElementsEqual left right
  | .object left, .object right => left.length = right.length && areFieldsEqual left right
  | .number a, .number b => a.eq b
  | .string a, .string b => a = b
  | .bool a, .bool b => a = b
  | .null, .null => true
  | _, _ => false

def areElementsEqual : List Literal → List Literal → Bool
  | [], [] => true
  | a :: left, b :: right => areValuesEqual a b && areElementsEqual left right
  | _, _ => false

def areFieldsEqual : List (String × Literal) → List (String × Literal) → Bool
  | [], _ => true
  | (key, a) :: left, right =>
      (match right.lookup key with
        | some b => areValuesEqual a b
        | none => false) && areFieldsEqual left right

end

/-- `evaluateConstantComparison` of an `in`. -/
def evaluateConstantMembership (left : Literal) : Literal → Except Refusal Bool
  | .array items => .ok (items.any (areValuesEqual left))
  | _ => unsupported "in constant comparison requires a list"

/-- Fail with a predicate that Prisma has no filter for: one that matches nothing. -/
def rejectConstantFalse : Except Refusal PrismaFilter :=
  unsupported "A constant-false conditional predicate must be folded by the Cerbos planner"

/-! ## Branches -/

/-- What one ternary branch contributes. -/
inductive TernaryBranchPredicate where
  | constant (value : Bool)
  | filter (filter : PrismaFilter)

def getTernaryOperands : List Node → Except Refusal (Node × Node × Node)
  | [condition, thenBranch, elseBranch] => .ok (condition, thenBranch, elseBranch)
  | operands =>
      unsupported ("if (ternary) requires exactly 3 operands (condition, then, else), got " ++
        toString operands.length)

def getConstantBooleanCondition : Node → Except Refusal (Option Bool)
  | .value (.bool b) => .ok (some b)
  | .value _ => unsupported "if (ternary) condition must be a boolean expression"
  | _ => .ok none

def finalizeTernaryBranchPredicate : TernaryBranchPredicate → Except Refusal PrismaFilter
  | .filter filter => .ok filter
  | .constant true => .ok .empty
  | .constant false => rejectConstantFalse

/-- The arm of a branch under its guard, if there is one. -/
def guardedBranch (guard : PrismaFilter) : TernaryBranchPredicate → List PrismaFilter
  | .filter filter => [.AND [guard, filter]]
  | .constant true => [guard]
  | .constant false => []

/-- A comparison with a constant moved to the right, or a membership as it is. -/
def normalizeTernaryOperands (operator : PlanOperator) (operands : List Node) :
    PlanOperator × List Node :=
  match comparisonOperator operator with
  | some comparison =>
      let (comparison, operands) := normalizeBinaryOperands comparison operands
      (comparisonNode comparison, operands)
  | none => (operator, operands)

/-- The comparison that holds exactly when another does not, over two definite operands. -/
def complementOperator : ComparisonOperator → ComparisonOperator
  | .eq => .ne
  | .ne => .eq
  | .lt => .ge
  | .le => .gt
  | .gt => .le
  | .ge => .lt

namespace Builder

variable (b : Builder) (evaluation : ConstantEvaluation)

/-- `(cond AND then) OR (NOT cond AND else) OR (cond AND NOT cond)`. -/
def buildGuardedTernaryFilter (condition : Node) (thenFilter elseFilter : TernaryBranchPredicate)
    (context : TranslationContext) : Translation PrismaFilter := do
  let conditionTrue ← b.positive condition context
  let conditionFalse ← b.negative condition context
  return .OR (guardedBranch conditionTrue thenFilter ++ guardedBranch conditionFalse elseFilter ++
    [.AND [conditionTrue, conditionFalse]])

/-- The comparison of two constants, or its negation. -/
def constantBranch (operator : PlanOperator) (left right : Literal) (negated : Bool) :
    Except Refusal TernaryBranchPredicate := do
  let holds ← match comparisonOperator operator with
    | some comparison => evaluation.comparison comparison left right
    | none => evaluateConstantMembership left right
  return .constant (holds != negated)

/-- The comparison with its ternary operand replaced by a branch. Under a negation the
missing values and relations of the branch stay within it. -/
def buildTernaryComparisonBranch (operator : PlanOperator) (operands : List Node)
    (ternaryIndex : Nat) (branch : Node) (context : TranslationContext) (negated : Bool) :
    Translation TernaryBranchPredicate :=
  let (operator, operands) := normalizeTernaryOperands operator (operands.set ternaryIndex branch)
  match operands, negated with
  | [.value left, .value right], negated => constantBranch evaluation operator left right negated
  | operands, false => do return .filter (← b.positive (.expression operator operands) context)
  | operands, true =>
      if isTernaryComparison operator operands then do
        return .filter (← b.ternaryComparison operator operands context true)
      else match comparisonOperator operator with
        | none => do return .filter (← b.negative (.expression operator operands) context)
        | some comparison => do
            let complement := complementOperator comparison
            return .filter
              (← b.relationalOperator (comparisonNode complement) complement operands context)

/-- A comparison or membership test with a ternary operand, distributed over its branches. -/
def tryHandleTernaryComparison (operator : PlanOperator) (operands : List Node)
    (context : TranslationContext) (negated : Bool) : Translation PrismaFilter := do
  match operands.findIdx? isTernary with
  | none => unsupported "Ternary comparison operand is missing"
  | some index =>
      if operands.length ≠ 2 then
        unsupported (operator.name ++ " with a ternary requires exactly 2 operands, got " ++
          toString operands.length)
      else
        let (condition, thenBranch, elseBranch) ←
          getTernaryOperands (operands[index]?.elim [] Operand.operands)
        let branchFor := fun branch =>
          b.buildTernaryComparisonBranch evaluation operator operands index branch context negated
        match ← getConstantBooleanCondition condition with
        | some value =>
            finalizeTernaryBranchPredicate (← branchFor (if value then thenBranch else elseBranch))
        | none =>
            let thenFilter ← branchFor thenBranch
            let elseFilter ← branchFor elseBranch
            b.buildGuardedTernaryFilter condition thenFilter elseFilter context

end Builder

/-- The builder whose recursion is at most `fuel` deep, over handlers that recurse. -/
def recursiveBuilder (handlers : Builder → Builder) : (fuel : Nat) → Builder
  | 0 =>
      { positive := fun _ _ => throw .outOfFuel
        negative := fun _ _ => throw .outOfFuel
        other := fun _ _ _ => throw .outOfFuel
        ternaryComparison := fun _ _ _ _ => throw .outOfFuel
        mapLiteralLookup := fun _ _ _ _ => throw .outOfFuel
        upperAsciiComparison := fun _ _ _ => throw .outOfFuel
        computedComparison := fun _ _ _ _ => throw .outOfFuel
        foldKnownValueCollection := fun _ _ _ _ _ => throw .outOfFuel }
  | fuel + 1 =>
      let b := recursiveBuilder handlers fuel
      { handlers b with
        positive := b.positiveStep
        negative := b.negativeStep }

/-! ## What the disjunction of the branches matches -/

section Matching

variable {ρ : Type} {engine : Sql.Engine} {store : Store ρ} {r : ρ}

def TernaryBranchPredicate.matches (engine : Sql.Engine) (store : Store ρ) (r : ρ) :
    TernaryBranchPredicate → Bool
  | .constant value => value
  | .filter branch => branch.matches engine store r

theorem matches_OR (filters : List PrismaFilter) :
    (PrismaFilter.OR filters).matches engine store r = filters.any (·.matches engine store r) := by
  rw [PrismaFilter.matches, PrismaFilter.truth_OR, Bool.eq_iff_iff, decide_eq_true_iff,
    Truth.any_eq_yes_iff]
  simp [PrismaFilter.matches]

theorem matches_AND_pair (first second : PrismaFilter) :
    (PrismaFilter.AND [first, second]).matches engine store r =
      (first.matches engine store r && second.matches engine store r) := by
  rw [PrismaFilter.matches, PrismaFilter.truth_AND, Bool.eq_iff_iff, decide_eq_true_iff,
    Truth.all_eq_yes_iff]
  simp [PrismaFilter.matches]

theorem any_matches_guardedBranch (guard : PrismaFilter) (branch : TernaryBranchPredicate) :
    (guardedBranch guard branch).any (·.matches engine store r) =
      (guard.matches engine store r && branch.matches engine store r) := by
  cases branch with
  | filter filter => simp [guardedBranch, TernaryBranchPredicate.matches, matches_AND_pair]
  | constant value => cases value <;> simp [guardedBranch, TernaryBranchPredicate.matches]

/-- A record is selected with the branch of its condition, or where the condition and its
negation both hold. -/
theorem matches_guardedTernary (conditionTrue conditionFalse : PrismaFilter)
    (thenFilter elseFilter : TernaryBranchPredicate) :
    (PrismaFilter.OR (guardedBranch conditionTrue thenFilter ++
        guardedBranch conditionFalse elseFilter ++
        [.AND [conditionTrue, conditionFalse]])).matches engine store r =
      ((conditionTrue.matches engine store r && thenFilter.matches engine store r) ||
        (conditionFalse.matches engine store r && elseFilter.matches engine store r) ||
        (conditionTrue.matches engine store r && conditionFalse.matches engine store r)) := by
  rw [matches_OR, List.any_append, List.any_append, any_matches_guardedBranch,
    any_matches_guardedBranch, List.any_cons, List.any_nil, Bool.or_false, matches_AND_pair]

end Matching

end QueryPlanAdapters.Prisma
