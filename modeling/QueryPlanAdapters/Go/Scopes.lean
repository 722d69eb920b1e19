import QueryPlanAdapters.Go.Lists
import QueryPlanAdapters.Logic.Contract

/-!
# Go: subqueries over a relation

A translation numbers the aliases of its subqueries as it goes. Every subquery
over a relation has the same FROM list and correlation, its scope: the element
table, the intermediate hops joined to it, and the restrictions on each.
-/

namespace QueryPlanAdapters.Go

/-- A translation that counts the aliases it has generated. -/
abbrev Translation := StateT Nat (Except Failure)

def newAlias : Translation String :=
  modifyGet fun aliasN => (aliasOf (aliasN + 1), aliasN + 1)

/-- The truth table of a collection macro. -/
structure MacroSemantics where
  /-- The state of an element that decides the macro outright. -/
  witness : TruthValue
  witnessResult : Bool
  /-- The macro's value without a witness and without an erring element. -/
  defaultResult : Bool

def existsSemantics : MacroSemantics :=
  { witness := .true, witnessResult := true, defaultResult := false }

def allSemantics : MacroSemantics :=
  { witness := .false, witnessResult := false, defaultResult := true }

/-- What joins a hop to the table one step further in. An empty `inner` means there is
no table to join it to. -/
def hopJoin (hop : Hop) (inner hopAlias : String) : List Expr :=
  if inner = "" then []
  else [.cmp .eq (joinColumn inner hop.childColumn) (joinColumn hopAlias hop.joinColumn)]

/-- Append the intermediate tables of a chain, each joined to the table one step
further in. -/
def joinVia : List Hop → (inner : String) → List FromItem → List Expr →
    Translation (String × List FromItem × List Expr)
  | [], inner, source, preds => return (inner, source, preds)
  | hop :: hops, inner, source, preds => do
      let hopAlias ← newAlias
      joinVia hops hopAlias (source ++ [{ table := hop.table, aliasName := hopAlias }])
        (appendRestrictions (preds ++ hopJoin hop inner hopAlias) hopAlias hop.subqueryFilter)

/-- Join a chain's hops, and correlate the outermost table with the parent row. -/
def joinHops (rel : Relation) (parent inner : String) (source : List FromItem)
    (preds : List Expr) : Translation Scope := do
  let (inner, source, preds) ← joinVia rel.via inner source preds
  let correlation :=
    Expr.cmp .eq (joinColumn inner rel.targetColumn) (joinColumn parent rel.sourceColumn)
  return { source, correlate := .and (preds ++ [correlation]) }

/-- The scope of a subquery over a relation. -/
def relationScope (rel : Relation) (aliasName parent : String) : Translation Scope :=
  joinHops rel parent aliasName [{ table := rel.table, aliasName }]
    (appendRestrictions [] aliasName rel.subqueryFilter)

/-- "Every intermediate table of the chain has a row", nothing for a direct relation. -/
def hopsExist (rel : Relation) (parent : String) : Translation (Option Expr) :=
  if rel.via.isEmpty then return none
  else do
    let s ← joinHops rel parent "" [] []
    return some (s.exists none)

/-- UNKNOWN unless every intermediate hop exists. -/
def requireHops (rel : Relation) (parent : String) (expr : Expr) : Translation Expr := do
  match ← hopsExist rel parent with
  | none => return expr
  | some guard => return .case [(guard, expr)] none

/-- `exists` or `all` over the rows of a scope, with CEL's three states. -/
def triState (s : Scope) (body : Expr) (sem : MacroSemantics) : Expr :=
  .case
    [(s.exists (some (.truthTest body sem.witness)), .boolConst sem.witnessResult),
      (s.exists (some (.truthTest body .unknown)), .null)]
    (some (.boolConst sem.defaultResult))

/-- `exists` and `all` over a relation. -/
def triStateExists (rel : Relation) (aliasName parent : String) (body : Expr)
    (sem : MacroSemantics) (negated : Bool) : Translation Expr := do
  let s ← relationScope rel aliasName parent
  return negate (← requireHops rel parent (triState s body sem)) negated

/-- `exists_one` over a relation, which absorbs no erring element. -/
def exactlyOne (s : Scope) (body : Expr) : Expr :=
  .case
    [(s.exists (some (.truthTest body .unknown)), .null),
      (.cmp .eq (s.count (some (.truthTest body .true))) (.lit (.number 1)), .boolConst true)]
    (some (.boolConst false))

/-- A collection held back: an erring element makes the result NULL, a witness TRUE. -/
def deferredWitness (s : Scope) (unknown witness : Expr) : Expr :=
  .case [(s.exists (some unknown), .null), (s.exists (some witness), .boolConst true)]
    (some (.boolConst false))

/-- Read one column of a to-one relation as a correlated scalar subquery. -/
def scalarThroughHop (entry : Entry) (rel : Relation) : Translation Val := do
  let aliasName ← newAlias
  let s ← relationScope rel aliasName entry.qualifier
  return .expr (.subquery .scalar s.source s.correlate none
    (some (.column (elementColumn aliasName entry))))

/-- Map a plan reference onto storage, in value position. -/
def resolveVariable (reference : String) (m : Mapper) : Translation Val :=
  match m.resolve reference with
  | none =>
      errorf "attribute does not exist in the attribute column map: %s" [.string reference]
  | some entry =>
      match entry.relation, entry.scalarRelation with
      | some _, _ =>
          errorf "attribute %q maps to a collection and cannot be used as a scalar value"
            [.string reference]
      | none, some rel =>
          if entry.column = "" then
            errorf ("attribute %q is a to-one relation, one joined row, but is used as a value: " ++
              "a CEL map's keys are the row's present columns (`\"k\" in m` tests them), and SQL " ++
              "has no form for the set of a row's present columns") [.string reference]
          else scalarThroughHop entry rel
      | none, none => return .expr (.column (elementColumn entry.qualifier entry))

/-! ## Runs -/

section Runs

variable {α : Type} {s : Nat}

theorem yields_errorf {Q : α → Nat → Prop} (format : String) (arguments : List FormatArgument) :
    Yields (errorf format arguments : Translation α) s Q :=
  Yields.throw _

theorem yields_newAlias (s : Nat) :
    Yields newAlias s fun aliasName s' => aliasName = aliasOf (s + 1) ∧ s' = s + 1 :=
  Yields.modifyGet ⟨rfl, rfl⟩

end Runs

end QueryPlanAdapters.Go
