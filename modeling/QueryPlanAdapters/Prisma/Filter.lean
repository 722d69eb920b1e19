import QueryPlanAdapters.Sql.Value

/-!
# Prisma: filters and what they match

A Prisma `where` is a tree of conditions on columns and of relation filters. The
SQL that Prisma generates for it reads a leaf on a NULL column as UNKNOWN, but a
relation filter is an EXISTS, which is TRUE or FALSE whatever its inner filter is.
-/

namespace QueryPlanAdapters.Prisma

open Sql

/-- A value of the plan. -/
abbrev Literal := PlanValue Double

abbrev Node := Operand Double

/-- The operators of a scalar filter. -/
inductive FieldOperator where
  | equals | not | lt | lte | gt | gte | «in» | startsWith
  deriving DecidableEq, Repr

/-- The operators that reach into a relation. -/
inductive RelationOperator where
  | some | every | none | is
  deriving DecidableEq, Repr

inductive PrismaFilter where
  /-- `{}` -/
  | empty
  | AND (filters : List PrismaFilter)
  | OR (filters : List PrismaFilter)
  | NOT (filter : PrismaFilter)
  /-- `{ [field]: { [operator]: value } }` -/
  | field (name : String) (operator : FieldOperator) (value : Literal)
  /-- `{ [field]: value }` -/
  | shorthand (name : String) (value : Literal)
  /-- `{ [field]: { [operator]: { _ref: other, _container: container } } }` -/
  | reference (name : String) (operator : FieldOperator) (other container : String)
  /-- `{ [relation]: { [operator]: inner } }` -/
  | relation (name : String) (operator : RelationOperator) (inner : PrismaFilter)

namespace PrismaFilter

/-- `Object.keys(filter).length === 0` -/
def isEmpty : PrismaFilter → Bool
  | empty => true
  | _ => false

end PrismaFilter

/-- The records of a database: their columns, and the records a relation leads to. -/
structure Store (ρ : Type) where
  column : ρ → String → SqlValue
  related : ρ → String → List ρ

/-- The comparison of an operator, which `startsWith` makes with no text. -/
def FieldOperator.comparison : FieldOperator → ComparisonOperator
  | equals | «in» | startsWith => .eq
  | not => .ne
  | lt => .lt
  | lte => .le
  | gt => .gt
  | gte => .ge

/-- A scalar literal, bound as a parameter. -/
def boundLiteral : Literal → SqlValue
  | .bool b => .bool b
  | .number d => .number d
  | .string s => .text s
  | _ => .null

/-- A condition on one column. `equals: null` and `not: null` are NULL tests, and
`startsWith` is a LIKE without an ESCAPE clause. -/
def fieldTruth (engine : Engine) (operator : FieldOperator) (x : SqlValue) (v : Literal) : Truth :=
  match operator, v with
  | .equals, .null => .ofBool x.isNull
  | .not, .null => .ofBool !x.isNull
  | .in, .array items => Truth.any (items.map fun v => engine.compare .eq x (boundLiteral v))
  | .startsWith, .string start => engine.like x (.text (start ++ "%"))
  | operator, v => engine.compare operator.comparison x (boundLiteral v)

section Semantics

variable {ρ : Type} (engine : Engine) (store : Store ρ)

mutual

/-- The value of a filter on a record. -/
def PrismaFilter.truth : PrismaFilter → ρ → Truth
  | .empty, _ => .yes
  | .AND filters, r => Truth.all (truthEach filters r)
  | .OR filters, r => Truth.any (truthEach filters r)
  | .NOT filter, r => if filter.isEmpty then .yes else (filter.truth r).not
  | .field name operator v, r => fieldTruth engine operator (store.column r name) v
  | .shorthand name v, r => fieldTruth engine .equals (store.column r name) v
  | .reference name operator other _, r =>
      engine.compare operator.comparison (store.column r name) (store.column r other)
  | .relation name operator inner, r =>
      let related := store.related r name
      match operator with
      | .some | .is => .ofBool (related.any fun e => inner.truth e = .yes)
      | .none => .ofBool (related.all fun e => inner.truth e ≠ .yes)
      | .every => .ofBool (related.all fun e => inner.truth e ≠ .no)

def truthEach : List PrismaFilter → ρ → List Truth
  | [], _ => []
  | filter :: filters, r => filter.truth r :: truthEach filters r

end

/-- Prisma returns the records on which the filter is TRUE. -/
def PrismaFilter.matches (filter : PrismaFilter) (r : ρ) : Bool :=
  filter.truth engine store r = .yes

end Semantics

section Truths

variable {ρ : Type} {engine : Engine} {store : Store ρ} {r : ρ}

theorem truthEach_eq_map (filters : List PrismaFilter) :
    truthEach engine store filters r = filters.map fun filter => filter.truth engine store r := by
  induction filters with
  | nil => rfl
  | cons filter filters ih => simp [truthEach, ih]

namespace PrismaFilter

@[simp] theorem truth_AND (filters : List PrismaFilter) :
    (AND filters).truth engine store r =
      Truth.all (filters.map fun filter => filter.truth engine store r) := by
  rw [truth, truthEach_eq_map]

@[simp] theorem truth_OR (filters : List PrismaFilter) :
    (OR filters).truth engine store r =
      Truth.any (filters.map fun filter => filter.truth engine store r) := by
  rw [truth, truthEach_eq_map]

theorem truth_NOT {filter : PrismaFilter} (h : filter.isEmpty = false) :
    (NOT filter).truth engine store r = (filter.truth engine store r).not := by
  simp [truth, h]

@[simp] theorem truth_NOT_AND (filters : List PrismaFilter) :
    (NOT (AND filters)).truth engine store r = ((AND filters).truth engine store r).not :=
  truth_NOT rfl

@[simp] theorem truth_field (name : String) (operator : FieldOperator) (v : Literal) :
    (field name operator v).truth engine store r =
      fieldTruth engine operator (store.column r name) v := rfl

@[simp] theorem truth_shorthand (name : String) (v : Literal) :
    (shorthand name v).truth engine store r =
      fieldTruth engine .equals (store.column r name) v := rfl

@[simp] theorem truth_reference (name : String) (operator : FieldOperator)
    (other container : String) :
    (reference name operator other container).truth engine store r =
      engine.compare operator.comparison (store.column r name) (store.column r other) := rfl

theorem truth_some (name : String) (inner : PrismaFilter) :
    (relation name .some inner).truth engine store r =
      .ofBool ((store.related r name).any fun e => inner.truth engine store e = .yes) := rfl

theorem truth_none (name : String) (inner : PrismaFilter) :
    (relation name .none inner).truth engine store r =
      .ofBool ((store.related r name).all fun e => inner.truth engine store e ≠ .yes) := rfl

theorem truth_every (name : String) (inner : PrismaFilter) :
    (relation name .every inner).truth engine store r =
      .ofBool ((store.related r name).all fun e => inner.truth engine store e ≠ .no) := rfl

end PrismaFilter

end Truths

end QueryPlanAdapters.Prisma
