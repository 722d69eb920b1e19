import QueryPlanAdapters.Numeric.Double
import Mathlib.Data.List.TakeWhile

/-!
# Query plans

A plan condition is a tree of literal values, references and operator
applications. The JSON-speaking adapters and the protobuf-speaking ones decode
the same tree; they differ only in which numbers a literal may hold, so the tree
is stated over an arbitrary number type.
-/

namespace QueryPlanAdapters

/-- A literal of the plan, or any other JSON value, over numbers of type `ν`. -/
inductive PlanValue (ν : Type) where
  | null
  | bool (b : Bool)
  | number (n : ν)
  | string (s : String)
  | array (items : List (PlanValue ν))
  | object (fields : List (String × PlanValue ν))

/-- A JSON value. -/
abbrev Json := PlanValue FiniteDouble

/-- The operators of a plan. On the wire an operator is a string; every spelling
no adapter knows is an `other`. -/
inductive PlanOperator where
  | and | or | not
  | eq | ne | lt | le | gt | ge
  | «in» | nin
  | contains | startsWith | endsWith | «matches»
  | except | intersect | isSubset | hasIntersection
  | list | struct | setField
  | «exists» | existsOne | all | filter | map | lambda
  | add | sub | mult | div | mod
  | index | getField | size
  | string | double | int | upperAscii
  | duration | timeSince | timestamp
  | «if»
  | hierarchy | ancestorOf | descendentOf | overlaps
  | other (spelling : String)
  deriving DecidableEq, Repr

namespace PlanOperator

/-- The operator's spelling on the wire. -/
def name : PlanOperator → String
  | and => "and" | or => "or" | not => "not"
  | eq => "eq" | ne => "ne" | lt => "lt" | le => "le" | gt => "gt" | ge => "ge"
  | «in» => "in" | nin => "nin"
  | contains => "contains" | startsWith => "startsWith" | endsWith => "endsWith"
  | «matches» => "matches"
  | except => "except" | intersect => "intersect" | isSubset => "isSubset"
  | hasIntersection => "hasIntersection"
  | list => "list" | struct => "struct" | setField => "set-field"
  | «exists» => "exists" | existsOne => "exists_one" | all => "all"
  | filter => "filter" | map => "map" | lambda => "lambda"
  | add => "add" | sub => "sub" | mult => "mult" | div => "div" | mod => "mod"
  | index => "index" | getField => "get-field" | size => "size"
  | string => "string" | double => "double" | int => "int" | upperAscii => "upperAscii"
  | duration => "duration" | timeSince => "timeSince" | timestamp => "timestamp"
  | «if» => "if"
  | hierarchy => "hierarchy" | ancestorOf => "ancestorOf" | descendentOf => "descendentOf"
  | overlaps => "overlaps"
  | other spelling => spelling

end PlanOperator

/-- A plan expression operand. -/
inductive Operand (ν : Type) where
  | value (value : PlanValue ν)
  | var (name : String)
  | expression (operator : PlanOperator) (operands : List (Operand ν))

namespace Operand

variable {ν : Type}

/-- The operands of an expression; a leaf has none. -/
def operands : Operand ν → List (Operand ν)
  | expression _ operands => operands
  | _ => []

def isVariable : Operand ν → Bool
  | var _ => true
  | _ => false

def isValue : Operand ν → Bool
  | value _ => true
  | _ => false

def isExpression : Operand ν → Bool
  | expression _ _ => true
  | _ => false

/-- Structural induction, with one hypothesis for each operand of an expression. -/
theorem induction {motive : Operand ν → Prop}
    (value : ∀ v, motive (.value v)) (var : ∀ name, motive (.var name))
    (expression : ∀ operator operands, (∀ o ∈ operands, motive o) →
      motive (.expression operator operands)) :
    ∀ operand, motive operand
  | .value v => value v
  | .var name => var name
  | .expression operator operands =>
      expression operator operands fun o _ => induction value var expression o

/-- Structural induction with hypotheses for the operands and for the operands'
own operands: a macro evaluates the body of its lambda, never the lambda. -/
theorem inductionTwo {motive : Operand ν → Prop}
    (value : ∀ v, motive (.value v)) (var : ∀ name, motive (.var name))
    (expression : ∀ operator operands, (∀ o ∈ operands, motive o) →
      (∀ o ∈ operands, ∀ inner ∈ o.operands, motive inner) →
      motive (.expression operator operands)) (operand : Operand ν) : motive operand := by
  suffices h : motive operand ∧ ∀ inner ∈ operand.operands, motive inner from h.1
  induction operand using Operand.induction with
  | value v => exact ⟨value v, nofun⟩
  | var name => exact ⟨var name, nofun⟩
  | expression operator operands ih =>
      exact ⟨expression operator operands (fun o h => (ih o h).1) fun o h => (ih o h).2,
        fun o h => (ih o h).1⟩

section Fold

variable {α : Type} (onValue : PlanValue ν → α) (onVar : String → α)
  (onExpression : PlanOperator → List (Operand ν) → List α → List (List α) → α)

mutual

/-- A result for a tree from the results of the operands, and of the operands'
own operands. -/
def fold : Operand ν → α
  | value v => onValue v
  | var name => onVar name
  | expression operator operands =>
      onExpression operator operands (foldEach operands) (foldInner operands)

def foldEach : List (Operand ν) → List α
  | [] => []
  | operand :: operands => fold operand :: foldEach operands

def foldInner : List (Operand ν) → List (List α)
  | [] => []
  | expression _ inner :: operands => foldEach inner :: foldInner operands
  | _ :: operands => [] :: foldInner operands

end

theorem foldEach_eq_map (operands : List (Operand ν)) :
    foldEach onValue onVar onExpression operands =
      operands.map (fold onValue onVar onExpression) := by
  induction operands with
  | nil => rfl
  | cons operand operands ih => simp only [foldEach, ih, List.map_cons]

theorem foldInner_eq_map (operands : List (Operand ν)) :
    foldInner onValue onVar onExpression operands =
      operands.map fun operand => operand.operands.map (fold onValue onVar onExpression) := by
  induction operands with
  | nil => rfl
  | cons operand operands ih =>
      cases operand with
      | value v => simp [foldInner, Operand.operands, ih]
      | var name => simp [foldInner, Operand.operands, ih]
      | expression operator inner =>
          simp [foldInner, Operand.operands, ih, foldEach_eq_map]

@[simp] theorem fold_value (v : PlanValue ν) :
    fold onValue onVar onExpression (.value v) = onValue v := rfl

@[simp] theorem fold_var (name : String) :
    fold onValue onVar onExpression (.var name) = onVar name := rfl

theorem fold_expression (operator : PlanOperator) (operands : List (Operand ν)) :
    fold onValue onVar onExpression (.expression operator operands) =
      onExpression operator operands (operands.map (fold onValue onVar onExpression))
        (operands.map fun operand => operand.operands.map (fold onValue onVar onExpression)) := by
  rw [fold, foldEach_eq_map, foldInner_eq_map]

end Fold

mutual

/-- Every reference of the tree, in order. -/
def references : Operand ν → List String
  | value _ => []
  | var name => [name]
  | expression _ operands => referencesEach operands

def referencesEach : List (Operand ν) → List String
  | [] => []
  | operand :: operands => references operand ++ referencesEach operands

end

@[simp] theorem referencesEach_eq_flatMap (operands : List (Operand ν)) :
    referencesEach operands = operands.flatMap references := by
  induction operands with
  | nil => rfl
  | cons operand operands ih => simp [referencesEach, ih]

end Operand

/-! ## Dotted references -/

/-- Split a text at every occurrence of a character. -/
def splitAt (separator : Char) : List Char → List (List Char)
  | [] => [[]]
  | c :: cs =>
      if c = separator then [] :: splitAt separator cs
      else match splitAt separator cs with
        | [] => [[c]]
        | part :: parts => (c :: part) :: parts

/-- The parts of a dotted path. -/
def pathParts (path : String) : List String :=
  (splitAt '.' path.toList).map String.ofList

theorem splitAt_ne_nil (separator : Char) (cs : List Char) : splitAt separator cs ≠ [] := by
  cases cs with
  | nil => simp [splitAt]
  | cons c cs =>
      rw [splitAt]
      split
      · simp
      · split <;> simp

theorem pathParts_ne_nil (path : String) : pathParts path ≠ [] := by
  simp [pathParts, splitAt_ne_nil]

/-- The part of a reference before its first dot. -/
def referenceRoot (name : String) : String :=
  (pathParts name).head (pathParts_ne_nil name)

/-- Whether a reference holds no dot. -/
def isBareName (name : String) : Bool :=
  !name.toList.contains '.'

theorem splitAt_eq_singleton {separator : Char} {cs : List Char} (h : separator ∉ cs) :
    splitAt separator cs = [cs] := by
  induction cs with
  | nil => rfl
  | cons c cs ih =>
      obtain ⟨hc, hcs⟩ := not_or.mp (List.mem_cons.not.mp h)
      rw [splitAt, if_neg fun h => hc h.symm, ih hcs]

/-- A bare name is the only part of its path. -/
theorem pathParts_of_isBareName {name : String} (h : isBareName name = true) :
    pathParts name = [name] := by
  simp [pathParts, splitAt_eq_singleton (by simpa [isBareName] using h)]

/-- A bare name is its own root. -/
theorem referenceRoot_of_isBareName {name : String} (h : isBareName name = true) :
    referenceRoot name = name := by
  simp [referenceRoot, pathParts_of_isBareName h]

/-- The part of a reference after its first dot, when it has one. -/
def referenceRest (name : String) : Option String :=
  match name.toList.dropWhile (· ≠ '.') with
  | [] => none
  | _ :: rest => some (String.ofList rest)

/-- A bare name has no path through it. -/
theorem referenceRest_of_isBareName {name : String} (h : isBareName name = true) :
    referenceRest name = none := by
  have hdot : name.toList.dropWhile (· ≠ '.') = [] := by
    rw [List.dropWhile_eq_nil_iff]
    intro c hc
    have hnone : '.' ∉ name.toList := by simpa [isBareName] using h
    exact decide_eq_true fun heq : c = '.' => hnone (heq ▸ hc)
  rw [referenceRest, hdot]

example : pathParts "request.resource.attr" = ["request", "resource", "attr"] := by decide

end QueryPlanAdapters
