import QueryPlanAdapters.Go.Values

/-!
# Go: rewrites of plan nodes

SQL has no list operand, so a ternary that yields a list is lifted above the
operator it stands in, an emptiness test of a set function becomes the predicate
it is equivalent to, and a macro over known elements is unrolled by substitution.
All of these rewrite plan nodes and read nothing but the mapper.
-/

namespace QueryPlanAdapters.Go

/-- The comparisons among the plan's operators. -/
def comparisonOps : PlanOperator → Option CmpOp
  | .eq => some .eq
  | .ne => some .ne
  | .lt => some .lt
  | .le => some .le
  | .gt => some .gt
  | .ge => some .ge
  | _ => none

/-- The operators whose second operand is a lambda. -/
def lambdaBinding : PlanOperator → Bool
  | .exists | .existsOne | .all | .filter | .map => true
  | _ => false

/-! ## List-valued ternaries -/

mutual

/-- Whether a node is a list literal, or a `+` or ternary built from one. -/
def yieldsList : Node → Bool
  | .value v =>
      match v with
      | .array _ => true
      | _ => false
  | .var _ => false
  | .expression operator operands =>
      match operator, yieldLists operands with
      | .add, each => each.any id
      | .if, [_, whenTrue, whenFalse] => whenTrue || whenFalse
      | _, _ => false

def yieldLists : List Node → List Bool
  | [] => []
  | operand :: operands => yieldsList operand :: yieldLists operands

end

/-- The parts of a ternary that yields a list. -/
def listTernary : Node → Option (Node × Node × Node)
  | .expression .if [cond, whenTrue, whenFalse] =>
      if yieldsList whenTrue || yieldsList whenFalse then some (cond, whenTrue, whenFalse) else none
  | _ => none

mutual

/-- Rewrite `op(…, if(c, a, b), …)` as `if(c, op(…, a, …), op(…, b, …))` for the first
ternary that yields a list, looking through `+`. -/
def liftListTernary : Node → Option Node
  | .value _ | .var _ => none
  | .expression operator operands =>
      (liftOperands operands).map fun (cond, whenTrue, whenFalse) =>
        .expression .if [cond, .expression operator whenTrue, .expression operator whenFalse]

/-- The lifted condition, and the operands with either arm in the ternary's place. -/
def liftOperands : List Node → Option (Node × List Node × List Node)
  | [] => none
  | operand :: operands =>
      let lifted :=
        match operand with
        | .expression .add parts => (liftListTernary (.expression .add parts)).getD operand
        | _ => operand
      match listTernary lifted with
      | some (cond, whenTrue, whenFalse) =>
          some (cond, whenTrue :: operands, whenFalse :: operands)
      | none =>
          (liftOperands operands).map fun (cond, whenTrue, whenFalse) =>
            (cond, operand :: whenTrue, operand :: whenFalse)

end

/-- An operand, with the ternary of a concatenation lifted out of it. -/
def liftedOperand : Node → Node
  | .expression .add parts =>
      (liftListTernary (.expression .add parts)).getD (.expression .add parts)
  | operand => operand

theorem liftOperands_cons (operand : Node) (operands : List Node) :
    liftOperands (operand :: operands) =
      match listTernary (liftedOperand operand) with
      | some (cond, whenTrue, whenFalse) => some (cond, whenTrue :: operands, whenFalse :: operands)
      | none =>
          (liftOperands operands).map fun (cond, whenTrue, whenFalse) =>
            (cond, operand :: whenTrue, operand :: whenFalse) := by
  cases operand with
  | value v => rfl
  | var reference => rfl
  | expression operator parts => cases operator <;> rfl

/-! ## Concatenated and empty lists -/

/-- The parts of a concatenation of list literals and directly stored lists, and
whether one is stored. -/
def haystackParts (m : Mapper) : Node → Option (List Node × Bool)
  | .expression .add [left, right] => do
      let (leftParts, leftStored) ← haystackParts m left
      let (rightParts, rightStored) ← haystackParts m right
      return (leftParts ++ rightParts, leftStored || rightStored)
  | .value (.array items) => some ([.value (.array items)], false)
  | .var reference =>
      match relationFor m (.var reference) with
      | some (rel, _) => if rel.via.isEmpty then some ([.var reference], true) else none
      | none => none
  | _ => none

/-- The haystack of `x in a + b + …` flattened, when a part is a stored list. -/
def concatenatedHaystack (m : Mapper) (n : Node) : Option (List Node) :=
  match n with
  | .expression .add _ =>
      match haystackParts m n with
      | some (parts, true) => some parts
      | _ => none
  | _ => none

/-- The emptiness of a set function's result, as the predicate it is. -/
def emptySetFunction : Node → Option Node
  | .expression .except [a, b] => some (.expression .isSubset [a, b])
  | .expression .intersect [a, b] => some (.expression .not [.expression .hasIntersection [a, b]])
  | _ => none

def isEmptyListNode : Node → Bool
  | .value (.array []) => true
  | _ => false

/-- Rewrite the comparison of a set function with `[]` as the predicate it is. -/
def emptyListComparison (operator : PlanOperator) (left right : Node) : Option Node :=
  let (setOp, other) := if left.isExpression then (left, right) else (right, left)
  if !isEmptyListNode other then none
  else match operator with
    | .eq => emptySetFunction setOp
    | .ne => (emptySetFunction setOp).map fun empty => .expression .not [empty]
    | _ => none

theorem emptyListComparison_eq_none (operator : PlanOperator) {left right : Node}
    (hleft : emptySetFunction left = none) (hright : emptySetFunction right = none) :
    emptyListComparison operator left right = none := by
  rw [emptyListComparison]
  cases left.isExpression <;> cases operator <;> simp [hleft, hright]

/-- An operand that is no list, and out of which no list is lifted. -/
structure Unlifted (n : Node) : Prop where
  listTernary : listTernary n = none
  lifted : liftedOperand n = n
  nonempty : isEmptyListNode n = false

namespace Unlifted

variable {l r : Node}

theorem liftListTernary_none (hl : Unlifted l) (hr : Unlifted r) (operator : PlanOperator) :
    liftListTernary (.expression operator [l, r]) = none := by
  have hparts : liftOperands [l, r] = none := by
    rw [liftOperands_cons, hl.lifted, hl.listTernary, liftOperands_cons, hr.lifted,
      hr.listTernary]
    rfl
  rw [liftListTernary, hparts]
  rfl

theorem emptyListComparison_none (hl : Unlifted l) (hr : Unlifted r) (operator : PlanOperator) :
    emptyListComparison operator l r = none := by
  rw [emptyListComparison]
  cases l.isExpression <;> simp [hl.nonempty, hr.nonempty]

/-- A `+` is looked through. -/
theorem add (hl : Unlifted l) (hr : Unlifted r) : Unlifted (.expression .add [l, r]) where
  listTernary := rfl
  lifted := by
    show (Go.liftListTernary (.expression .add [l, r])).getD _ = _
    rw [hl.liftListTernary_none hr]
    rfl
  nonempty := rfl

end Unlifted

theorem emptyListComparison_leaves (operator : PlanOperator) {left right : Node}
    (hleft : left.isExpression = false) (hright : right.isExpression = false) :
    emptyListComparison operator left right = none := by
  have hnone : ∀ {n : Node}, n.isExpression = false → emptySetFunction n = none := by
    intro n hn
    cases n with
    | expression => cases hn
    | _ => rfl
  exact emptyListComparison_eq_none operator (hnone hleft) (hnone hright)

/-! ## Map literals -/

/-- Fold `struct(set-field(k, v), …)` into a map of constants. -/
def structLiteral : List Node → (entries : List (String × Literal)) →
    Except Failure (List (String × Literal))
  | [], entries => .ok entries
  | .expression .setField [key, value] :: fields, entries =>
      match key, value with
      | .value (.string k), .value v =>
          if (entries.lookup k).isSome then
            errorf "map literal repeats the key %q, which CEL rejects" [.string k]
          else structLiteral fields (entries ++ [(k, v)])
      | .value (.string _), _ => errorf "a map literal translates only with constant values" []
      | _, _ => errorf "a map literal translates only with constant string keys" []
  | _ :: _, _ => errorf "struct() translates only as a map literal of set-field() entries" []

/-! ## Lambdas -/

/-- A `lambda(body, variable)` operand. -/
def lambdaParts (lambda : Node) (operator : PlanOperator) : Except Failure (Node × String) :=
  match lambda with
  | .expression .lambda [body, .var name] =>
      if name = "" then errorf "lambda variable must have a name" [] else .ok (body, name)
  | .expression .lambda [_, _] => errorf "lambda variable must have a name" []
  | .expression .lambda _ =>
      errorf ("%s supports single-variable lambdas only: the two-variable form binds a list " ++
        "index or a map key, and a related table has neither a row order nor keys")
        [.string operator.name]
  | _ => errorf "second operand of %s must be a lambda expression" [.string operator.name]

/-- Whether a collection macro's lambda binds the same variable again. -/
def rebindsVariable (operator : PlanOperator) (operands : List Node) (name : String) : Bool :=
  lambdaBinding operator &&
    match operands with
    | [_, .expression .lambda [_, .var inner]] => inner = name
    | _ => false

section Substitution

variable (onReference : String → Except Failure Node) (name : String)

mutual

/-- Replace references inside a lambda's body, down to a lambda that binds the
variable again: there only the collection is still in scope. -/
def substituteReferences : Node → Except Failure Node
  | .value v => .ok (.value v)
  | .var reference => onReference reference
  | .expression operator operands =>
      if rebindsVariable operator operands name then do
        let collection ← substituteCollection operands
        return .expression operator (collection ++ operands.drop 1)
      else do return .expression operator (← substituteEach operands)

def substituteCollection : List Node → Except Failure (List Node)
  | [] => .ok []
  | collection :: _ => do return [← substituteReferences collection]

def substituteEach : List Node → Except Failure (List Node)
  | [] => .ok []
  | operand :: operands => do
      let operand ← substituteReferences operand
      let operands ← substituteEach operands
      return operand :: operands

end

end Substitution

/-- The value at a path inside a collection element. -/
def elementAt (reference : String) : Literal → List String → Except Failure Literal
  | v, [] => .ok v
  | .object fields, segment :: segments =>
      match fields.lookup segment with
      | some v => elementAt reference v segments
      | none =>
          errorf "cannot resolve %q: collection element has no field %q"
            [.string reference, .string segment]
  | _, segment :: _ =>
      errorf "cannot resolve %q: collection element has no field %q"
        [.string reference, .string segment]

/-- Replace a lambda's variable by a literal element, and a path through it by what
stands there. -/
def substituteLambdaVariable (n : Node) (name : String) (element : Literal) :
    Except Failure Node :=
  substituteReferences (fun reference =>
    if reference = name then .ok (.value element)
    else match cutPrefix reference (name ++ ".") with
      | some rest =>
          if rest = "" then .ok (.var reference)
          else do return .value (← elementAt reference element (pathParts rest))
      | none => .ok (.var reference)) name n

/-- Replace a lambda's variable by an element expression, through which no path leads. -/
def substituteLambdaNode (n : Node) (name : String) (element : Node) : Except Failure Node :=
  substituteReferences (fun reference =>
    if reference = name then .ok element
    else if startsWithText reference (name ++ ".") then
      errorf "cannot select %q from a computed list element" [.string reference]
    else .ok (.var reference)) name n

/-! ## Shapes of nodes -/

/-- Whether a node is a timestamp() value, or one shifted by a duration. -/
def yieldsTimestamp : Node → Bool
  | .expression .timestamp _ => true
  | .expression .add [left, _] | .expression .sub [left, _] => yieldsTimestamp left
  | _ => false

/-- Whether `string()` over a node could render a numeric constant. -/
def rendersNumericConstant : Node → Bool
  | .value (.number _) => true
  | .expression .if [_, whenTrue, whenFalse] =>
      rendersNumericConstant whenTrue || rendersNumericConstant whenFalse
  | _ => false

end QueryPlanAdapters.Go
