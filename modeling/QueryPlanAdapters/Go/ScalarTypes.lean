import QueryPlanAdapters.Go.Expr

/-!
# Go: declared scalar types

The wire carries no types. A literal knows its own, and a column the one the
caller declares for it. A column without a declaration has no kind: it is never
guessed, and keeps the historical SQL behaviour.
-/

namespace QueryPlanAdapters.Go

inductive ScalarKind where
  | string | bool | number | list
  deriving DecidableEq, Repr

/-- The distinct kinds of a list of arms, none as soon as one is unknown. -/
def distinctKinds (kinds : List (Option ScalarKind)) : List ScalarKind :=
  if kinds.all Option.isSome then (kinds.filterMap id).dedup else []

def Column.scalarKind (c : Column) : Option ScalarKind :=
  match c.type with
  | .string => some .string
  | .bool => some .bool
  | .number => some .number
  | .default | .timestamp => none

mutual

/-- The scalar kind an expression is known to have. -/
def Expr.scalarKind : Expr → Option ScalarKind
  | .subquery .scalar _ _ _ (some select) => select.scalarKind
  | .column c => c.scalarKind
  | .lit v => v.scalarKind
  | .concat _ _ => some .string
  | .arith _ l r =>
      if l.scalarKind = some .number ∨ r.scalarKind = some .number then some .number else none
  | .case whens els =>
      match distinctKinds (thenKinds whens ++ elseKinds els) with
      | [kind] => some kind
      | _ => none
  | _ => none

def Val.scalarKind : Val → Option ScalarKind
  | .constant v =>
      match v with
      | .string _ => some .string
      | .bool _ => some .bool
      | .number _ => some .number
      | .array _ => some .list
      | _ => none
  | .expr e => e.scalarKind
  | _ => none

def thenKinds : List (Expr × Expr) → List (Option ScalarKind)
  | [] => []
  | (_, whenTrue) :: whens => whenTrue.scalarKind :: thenKinds whens

def elseKinds : Option Expr → List (Option ScalarKind)
  | none => []
  | some els => [els.scalarKind]

end

/-- The kinds of a CASE's arms. A missing ELSE is NULL, and no kind of its own. -/
def caseArmKinds (whens : List (Expr × Expr)) (els : Option Expr) : List ScalarKind :=
  distinctKinds (thenKinds whens ++ elseKinds els)

def isNullLit : Expr → Bool
  | .lit (.constant .null) => true
  | _ => false

def caseIsAllNull (whens : List (Expr × Expr)) (els : Option Expr) : Bool :=
  whens.all (fun arm => isNullLit arm.2) && els.all isNullLit

/-- Whether an operand is known to be something other than a string. -/
def knownNonString (v : Val) : Bool :=
  v.scalarKind.any (· ≠ .string)

/-- The column, when an expression is one on the explicit-null convention. -/
def explicitNullColumn : Expr → Option Column
  | .column c => if c.explicitNull then some c else none
  | _ => none

def Val.explicitNullColumn : Val → Option Column
  | .expr e => Go.explicitNullColumn e
  | _ => none

/-- Equality between values whose declared non-null types differ: unequal, save two
explicit nulls. -/
def mixedTypeEquality (op : CmpOp) (l r : Val) : Expr :=
  match l.explicitNullColumn, r.explicitNullColumn with
  | some left, some right =>
      let result := Expr.and [.isNull (.column left) false, .isNull (.column right) false]
      if op = .ne then .not result else result
  | _, _ => .boolConst (op = .ne)

/-- Make a result UNKNOWN wherever an operand that is not an explicit null is NULL. -/
def whenPresent (result : Expr) : Val → Expr
  | .expr e =>
      if (explicitNullColumn e).isSome then result else .case [(.isNull e true, result)] none
  | _ => result

/-- A comparison whose operands have known, different non-null types: an ordering
is CEL's error, and an equality is definite. -/
def compareMixedTypes (op : CmpOp) (l r : Val) : Option Expr :=
  match l.scalarKind, r.scalarKind with
  | some lk, some rk =>
      if lk = rk then none
      else if op.isOrdering then some .null
      else some (whenPresent (whenPresent (mixedTypeEquality op l r) l) r)
  | _, _ => none

end QueryPlanAdapters.Go
