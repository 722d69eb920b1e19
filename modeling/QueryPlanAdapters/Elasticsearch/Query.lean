import QueryPlanAdapters.Cel.Temporal

/-!
# Elasticsearch: the Query DSL and what it matches

A document is its indexed terms: an array and a single value are indexed alike, a null
and an empty array not at all, and the elements of a nested array are documents of their
own. A leaf query matches a document that has a term with the property asked for.
-/

namespace QueryPlanAdapters.Elasticsearch

/-- A value of the plan, and of a query. -/
abbrev Literal := PlanValue Double

abbrev Operand := QueryPlanAdapters.Operand Double

inductive RangeBound where
  | lt | lte | gt | gte
  deriving DecidableEq, Repr

/-- A Query DSL clause. -/
inductive Query where
  | term (field : String) (value : Literal)
  | terms (field : String) (values : List Literal)
  | prefixQuery (field : String) (value : Literal)
  | range (field : String) (bound : RangeBound) (value : Literal)
  | wildcard (field pattern : String)
  | regexp (field value flags : String)
  | boolMust (clauses : List Query)
  /-- With `minimum_should_match: 1`. -/
  | boolShould (clauses : List Query)
  | notQuery (query : Query)
  | matchAll
  | matchNone
  | «exists» (field : String)
  | nestedQuery (path : String) (query : Query)

namespace Query

/-- The field has a value and the query does not match. -/
def definedAndNot (field : String) (query : Query) : Query :=
  boolMust [«exists» field, notQuery query]

end Query

/-! ## Documents -/

/-- An indexed value; a date is kept to the millisecond. -/
inductive Term where
  | string (s : String)
  | number (q : ℚ)
  | boolean (b : Bool)
  | date (millis : Int)
  deriving DecidableEq

inductive Document where
  | node (terms : String → List Term) (nested : String → List Document)

namespace Document

def terms : Document → String → List Term
  | node terms _ => terms

def nested : Document → String → List Document
  | node _ nested => nested

end Document

/-! ## Leaves -/

/-- A comparison of an indexed value with a query's value of the mapped type. -/
def Term.test (operator : ComparisonOperator) : Term → Literal → Bool
  | string s, .string t =>
      operator.test (.finite (compareCodePoints s.toList t.toList)) (.finite 0)
  | number q, .number d => operator.test (.finite q) d
  | boolean b, .bool c => operator.test (.finite b.toNat) (.finite c.toNat)
  | date millis, .string t =>
      match parseRfc3339Instant t with
      | some nanos => operator.test (.finite (millis * 1000000 : Int)) (.finite nanos)
      | none => false
  | _, _ => false

def RangeBound.operator : RangeBound → ComparisonOperator
  | lt => .lt
  | lte => .le
  | gt => .gt
  | gte => .ge

/-- Whether a string term has a property. -/
def Term.onString (test : String → Bool) : Term → Bool
  | string s => test s
  | _ => false

/-- Begins with the value of a `prefix` query. -/
def startsWithLiteral : Literal → String → Bool
  | .string start, s => startsWithText s start
  | _, _ => false

/-- The wildcard syntax: `*` for any text, `?` for one character, and `\` before a
character taken as it is. -/
def wildcardMatches : (pattern text : List Char) → Bool
  | [], cs => cs.isEmpty
  | '*' :: pattern, cs => cs.tails.any (wildcardMatches pattern)
  | '?' :: pattern, cs => !cs.isEmpty && wildcardMatches pattern cs.tail
  | '\\' :: c :: pattern, cs => cs.head? = some c && wildcardMatches pattern cs.tail
  | c :: pattern, cs => cs.head? = some c && wildcardMatches pattern cs.tail

/-! ## Queries -/

section Matching

-- Whether a text matches a Lucene regular expression as a whole.
variable (regexpMatches : (pattern text : String) → Bool)

mutual

def Query.matches : Query → Document → Bool
  | .term field value, d => (d.terms field).any fun t => t.test .eq value
  | .terms field values, d => (d.terms field).any fun t => values.any fun value => t.test .eq value
  | .prefixQuery field value, d => (d.terms field).any (Term.onString (startsWithLiteral value))
  | .range field bound value, d => (d.terms field).any fun t => t.test bound.operator value
  | .wildcard field pattern, d =>
      (d.terms field).any (Term.onString fun s => wildcardMatches pattern.toList s.toList)
  | .regexp field value _, d => (d.terms field).any (Term.onString (regexpMatches value))
  | .boolMust clauses, d => matchesAll clauses d
  | .boolShould clauses, d => matchesAny clauses d
  | .notQuery query, d => !query.matches d
  | .matchAll, _ => true
  | .matchNone, _ => false
  | .exists field, d => !(d.terms field).isEmpty
  | .nestedQuery path query, d => (d.nested path).any query.matches

def matchesAll : List Query → Document → Bool
  | [], _ => true
  | clause :: clauses, d => clause.matches d && matchesAll clauses d

def matchesAny : List Query → Document → Bool
  | [], _ => false
  | clause :: clauses, d => clause.matches d || matchesAny clauses d

end

end Matching

section Rules

variable {regexpMatches : String → String → Bool} {d : Document} {field : String}

theorem matchesAll_eq_all (clauses : List Query) :
    matchesAll regexpMatches clauses d = clauses.all fun q => q.matches regexpMatches d := by
  induction clauses with
  | nil => rfl
  | cons clause clauses ih => rw [matchesAll, ih, List.all_cons]

theorem matchesAny_eq_any (clauses : List Query) :
    matchesAny regexpMatches clauses d = clauses.any fun q => q.matches regexpMatches d := by
  induction clauses with
  | nil => rfl
  | cons clause clauses ih => rw [matchesAny, ih, List.any_cons]

@[simp] theorem matches_boolMust (clauses : List Query) :
    (Query.boolMust clauses).matches regexpMatches d =
      clauses.all fun q => q.matches regexpMatches d := by
  rw [Query.matches, matchesAll_eq_all]

@[simp] theorem matches_boolShould (clauses : List Query) :
    (Query.boolShould clauses).matches regexpMatches d =
      clauses.any fun q => q.matches regexpMatches d := by
  rw [Query.matches, matchesAny_eq_any]

@[simp] theorem matches_definedAndNot (query : Query) :
    (Query.definedAndNot field query).matches regexpMatches d =
      (!(d.terms field).isEmpty && !query.matches regexpMatches d) := by
  simp [Query.definedAndNot, Query.matches]

end Rules

end QueryPlanAdapters.Elasticsearch
