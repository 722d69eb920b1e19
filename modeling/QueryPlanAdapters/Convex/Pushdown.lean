import QueryPlanAdapters.Convex.Operands
import QueryPlanAdapters.Cel.Value

/-!
# Convex: the pushed-down filter

What Convex's filter engine can answer on its own, and the builder calls that
answer it. The builder is abstract: `FilterQ ε` builds expressions of any type
`ε`, so one emission serves every builder.
-/

namespace QueryPlanAdapters.Convex

/-- What a builder's comparison takes: an expression it built, or a constant. -/
inductive FilterArg (ε : Type) where
  | expr (e : ε)
  | json (literal : Json)
  | int64 (n : Int)
  | bytes (contents : List UInt8)

/-- The subset of Convex's `FilterBuilder` the emitted filter calls. -/
structure FilterQ (ε : Type) where
  eq : FilterArg ε → FilterArg ε → ε
  neq : FilterArg ε → FilterArg ε → ε
  lt : FilterArg ε → FilterArg ε → ε
  lte : FilterArg ε → FilterArg ε → ε
  gt : FilterArg ε → FilterArg ε → ε
  gte : FilterArg ε → FilterArg ε → ε
  and : List ε → ε
  or : List ε → ε
  not : ε → ε
  field : String → ε

/-- A comparison's field and literal, in either order. -/
structure FieldAndLiteral where
  field : String
  literal : Json
  swapped : Bool

def fieldAndLiteral : List Operand → Option FieldAndLiteral
  | .var name :: .value literal :: _ => some { field := name, literal, swapped := false }
  | .value literal :: .var name :: _ => some { field := name, literal, swapped := true }
  | _ => none

/-- `in` with the field first and a literal list second. -/
def fieldInList : List Operand → Option (String × List Json)
  | .var name :: .value (.array values) :: _ => some (name, values)
  | _ => none

/-- How an operator is pushed down, when it is at all. -/
inductive PushdownRule where
  | junction (decisive : Bool)
  | not
  | equality (operator : ComparisonOperator)
  | ordering (operator : ComparisonOperator)
  | membership
  deriving DecidableEq, Repr

def ruleFor : PlanOperator → Option PushdownRule
  | .and => some (.junction false)
  | .or => some (.junction true)
  | .not => some .not
  | .eq => some (.equality .eq)
  | .ne => some (.equality .ne)
  | .lt => some (.ordering .lt)
  | .le => some (.ordering .le)
  | .gt => some (.ordering .gt)
  | .ge => some (.ordering .ge)
  | .in => some .membership
  | _ => none

section Accepts

variable (mapper : Mapper)

mutual

/-- Whether Convex's filter engine answers the expression exactly as CEL does. -/
def canPushToDb : Operand → Bool
  | .value _ => true
  | .var name => !isNullableField name mapper
  | .expression operator operands =>
      match ruleFor operator with
      | none => false
      | some (.junction _) | some .not => allPushable operands
      | some (.equality _) | some (.ordering _) =>
          (fieldAndLiteral operands).any fun pair => !isNullableField pair.field mapper
      | some .membership =>
          (fieldInList operands).any fun (field, _) => !isNullableField field mapper

def allPushable : List Operand → Bool
  | [] => true
  | operand :: operands => canPushToDb operand && allPushable operands

end

@[simp] theorem allPushable_eq_all (operands : List Operand) :
    allPushable mapper operands = operands.all (canPushToDb mapper) := by
  induction operands with
  | nil => rfl
  | cons operand operands ih => simp [allPushable, ih]

end Accepts

/-! ## Emission -/

section Emission

variable {ε : Type} (q : FilterQ ε) (mapper : Mapper)

/-- The builder method of a comparison. -/
def FilterQ.compare : ComparisonOperator → FilterArg ε → FilterArg ε → ε
  | .eq => q.eq
  | .ne => q.neq
  | .lt => q.lt
  | .le => q.lte
  | .gt => q.gt
  | .ge => q.gte

/-- The filter that matches every document, or none. -/
def FilterQ.constant (b : Bool) : ε :=
  q.eq (.json (.bool true)) (.json (.bool b))

def FilterQ.polarised (negated : Bool) (built : ε) : ε :=
  if negated then q.not built else built

/-- The largest int64. Convex orders every int64 below every float64. -/
def filterInt64Max : Int := 2 ^ 63 - 1

/-- A filter holding for exactly the documents whose field has the Convex type a
literal is stored as; none for a literal that CEL has no ordering for. Convex
orders values across types, so an ordering is pushed only behind this guard. -/
def sameTypeAs (literal : Json) (field : FilterArg ε) : Option ε :=
  match literal with
  | .number _ =>
      some (q.and [q.gt field (.int64 filterInt64Max), q.lt field (.json (.bool false))])
  | .bool _ =>
      some (q.and [q.gte field (.json (.bool false)), q.lte field (.json (.bool true))])
  | .string _ => some (q.and [q.gte field (.json (.string "")), q.lt field (.bytes [])])
  | _ => none

/-- `==` and `!=`: CEL equality across types is false, never an error. -/
def emitEquality (operator : ComparisonOperator) (operands : List Operand) (negated : Bool) :
    Except Thrown ε :=
  match fieldAndLiteral operands with
  | none => .error (.unsupported (operator.name ++ " operator requires one field and one value operand"))
  | some pair =>
      let method := if pair.swapped then operator.mirrored else operator
      let field := q.field (resolveField pair.field mapper)
      .ok (q.polarised negated (q.compare method (.expr field) (.json pair.literal)))

/-- `<`, `<=`, `>`, `>=`: the guard stays outside any negation, so that an error
is false under both polarities. -/
def emitOrdering (operator : ComparisonOperator) (operands : List Operand) (negated : Bool) :
    Except Thrown ε :=
  match fieldAndLiteral operands with
  | none => .error (.unsupported (operator.name ++ " operator requires one field and one value operand"))
  | some pair =>
      let method := if pair.swapped then operator.mirrored else operator
      let field := q.field (resolveField pair.field mapper)
      match sameTypeAs q pair.literal (.expr field) with
      | none => .ok (q.constant false)
      | some guard =>
          let compared := q.compare method (.expr field) (.json pair.literal)
          .ok (q.and [guard, q.polarised negated compared])

def emitMembership (operands : List Operand) (negated : Bool) : Except Thrown ε :=
  match fieldInList operands with
  | none => .error (.unsupported "in operator requires one field and one array value")
  | some (name, values) =>
      let equals := fun literal =>
        q.eq (.expr (q.field (resolveField name mapper))) (.json literal)
      let built :=
        match values with
        | [] => q.constant false
        | [literal] => equals literal
        | literals => q.or (literals.map equals)
      .ok (q.polarised negated built)

/-- `and` and `or` over operands that each carry the enclosing polarity. -/
def emitJunction (disjunction : Bool) (emitted : List ε) : ε :=
  match emitted with
  | [] => q.constant (!disjunction)
  | [e] => e
  | es => if disjunction then q.or es else q.and es

mutual

/-- The builder calls for an expression `canPushToDb` accepted. `negated` is
whether an odd number of `not`s encloses the node. The emitted filter matches the
documents on which the node, under that polarity, is CEL true. -/
def emitExpression : Operand → (negated : Bool) → Except Thrown ε
  | .value (.bool b), negated => .ok (q.polarised negated (q.constant b))
  | .value _, _ => .error (.unsupported "Unexpected bare value in expression")
  | .var name, negated =>
      .ok (q.polarised negated
        (q.eq (.expr (q.field (resolveField name mapper))) (.json (.bool true))))
  | .expression operator operands, negated =>
      match ruleFor operator with
      | none => .error (.unsupported ("Unsupported operator: " ++ operator.name))
      | some (.junction decisive) => do
          let emitted ← emitEach operands negated
          return emitJunction q (decisive != negated) emitted
      | some .not => emitFirst operands (!negated)
      | some (.equality comparison) => emitEquality q mapper comparison operands negated
      | some (.ordering comparison) => emitOrdering q mapper comparison operands negated
      | some .membership => emitMembership q mapper operands negated

def emitEach : List Operand → (negated : Bool) → Except Thrown (List ε)
  | [], _ => .ok []
  | operand :: operands, negated => do
      let e ← emitExpression operand negated
      let es ← emitEach operands negated
      return e :: es

def emitFirst : List Operand → (negated : Bool) → Except Thrown ε
  | [], _ => .error (.unsupported "not operator requires at least one operand")
  | operand :: _, negated => emitExpression operand negated

end

def translateExpression (expression : Operand) : Except Thrown ε :=
  emitExpression q mapper expression false

end Emission

end QueryPlanAdapters.Convex
