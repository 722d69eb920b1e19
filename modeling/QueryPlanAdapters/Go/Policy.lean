import QueryPlanAdapters.Go.Lists
import QueryPlanAdapters.Go.Semantics

/-!
# Go: what the policy evaluates

The condition as CEL reads it, over the attributes the mapper declares. A NULL is
a null attribute or a missing one, by the entry's convention; a collection is the
list of the rows its relation reaches; `&&` and `||` absorb errors, and so do the
macros folded from them.
-/

namespace QueryPlanAdapters.Go

open Sql

/-- What a reference reads: the entry that declares it, and the row it is stored in. -/
structure Reading where
  entry : Entry
  row : Row

/-- What each reference of a condition reads. -/
abbrev Attributes := String → Option Reading

/-- The entry, wherever it is read from. -/
def Entry.unqualified (entry : Entry) : Entry :=
  { entry with qualifier := "" }

namespace Attributes

/-- The attributes a mapper declares, in an environment that gives each qualifier its row. -/
def of (m : Mapper) (env : RowEnv) : Attributes := fun reference =>
  (m.resolve reference).map fun entry =>
    { entry := entry.unqualified, row := env entry.qualifier }

/-- The attributes a lambda's body sees, its variable bound to one element. -/
def bind (attributes : Attributes) (rel : Relation) (name : String) (row : Row) : Attributes :=
  fun reference =>
    if reference = name then
      rel.field.map fun entry => { entry := entry.unqualified, row }
    else
      match cutPrefix reference (name ++ ".") with
      | some field =>
          (rel.fields.lookup field).map fun entry => { entry := entry.unqualified, row }
      | none => attributes reference

end Attributes

def Entry.isColumn (entry : Entry) : Bool :=
  entry.relation.isNone && entry.scalarRelation.isNone

theorem Entry.isColumn_iff {entry : Entry} :
    entry.isColumn = true ↔ entry.relation = none ∧ entry.scalarRelation = none := by
  rw [Entry.isColumn, Bool.and_eq_true, Option.isNone_iff_eq_none, Option.isNone_iff_eq_none]

/-- A stored value as an attribute. -/
def storedOutcome (convention : NullConvention) : SqlValue → Outcome
  | .null => if convention = .explicit then .value .null else .error
  | .bool b => .value (.bool b)
  | .number d => .value (.number d)
  | .text s => .value (.string s)
  | .time nanos => .value (.timestamp nanos)

/-- The value of a scalar attribute. -/
def Reading.outcome (reading : Reading) : Outcome :=
  if reading.entry.isColumn then
    storedOutcome reading.entry.nullConvention (reading.row reading.entry.column)
  else .error

/-- A scalar literal. -/
def literalOutcome : Literal → Outcome
  | .null => .value .null
  | .bool b => .value (.bool b)
  | .number d => .value (.number d)
  | .string s => .value (.string s)
  | _ => .error

/-- CEL's comparison of two attributes or literals: equality across types, and an
ordering within one. -/
def comparisonOutcome (op : CmpOp) : (left right : Outcome) → Outcome
  | .value left, .value right =>
      if op.isOrdering then
        ((orderingKeys left right).map fun keys => op.test keys.1 keys.2).elim .error
          fun b => .value (.bool b)
      else .value (.bool (left.valuesEqual right ^^ (op = .ne : Bool)))
  | _, _ => .error

/-- How a macro combines the results of its body over the elements. -/
def macroFold : PlanOperator → Option (List Truth → Truth)
  | .exists => some Truth.any
  | .all => some Truth.all
  | .existsOne => some Truth.exactlyOne
  | _ => none

section Evaluation

variable (engine : Engine) (db : Database)

/-- Whether the application's own reads show a row. -/
def Restriction.admits (r : Restriction) (row : Row) : Bool :=
  let stored := row r.column
  let isOneOf := Truth.any (r.values.map fun v => engine.compare .eq stored v.toVal.bound)
  match r.op with
  | .eq => engine.compare .eq stored r.value.toVal.bound = .yes
  | .ne => engine.compare .ne stored r.value.toVal.bound = .yes
  | .isNull => stored.isNull
  | .isNotNull => !stored.isNull
  | .in => isOneOf = .yes
  | .notIn => isOneOf = .no

/-- The elements of a collection that a direct relation reaches from a parent row. -/
def elements (rel : Relation) (parent : Row) : List Row :=
  (db rel.table).filter fun row =>
    rel.subqueryFilter.all (·.admits engine row) &&
      engine.compare .eq (row rel.targetColumn) (parent rel.sourceColumn) = .yes

abbrev Evaluation := Attributes → Outcome

/-- A macro over a stored collection. -/
def macroOutcome (operator : PlanOperator) (operands : List Node)
    (inner : List (List Evaluation)) : Evaluation := fun attributes =>
  match macroFold operator, operands, inner with
  | some combine, [.var collection, .expression .lambda [_, .var name]], [_, [body, _]] =>
      match attributes collection with
      | none => .error
      | some reading =>
          match reading.entry.relation with
          | none => .error
          | some rel =>
              .ofTruth (combine ((elements engine db rel reading.row).map fun row =>
                (body (attributes.bind rel name row)).asBoolean))
  | _, _, _ => .error

def expressionOutcome (operator : PlanOperator) (operands : List Node) (each : List Evaluation)
    (inner : List (List Evaluation)) : Evaluation := fun attributes =>
  match operator, each with
  | .and, each => .ofTruth (Truth.all (each.map fun x => (x attributes).asBoolean))
  | .or, each => .ofTruth (Truth.any (each.map fun x => (x attributes).asBoolean))
  | .not, [x] => .ofTruth (x attributes).asBoolean.not
  | .if, [cond, whenTrue, whenFalse] =>
      match (cond attributes).asBoolean with
      | .yes => whenTrue attributes
      | .no => whenFalse attributes
      | .unknown => .error
  | operator, each =>
      match comparisonOps operator, each with
      | some op, [left, right] => comparisonOutcome op (left attributes) (right attributes)
      | _, _ => macroOutcome engine db operator operands inner attributes

/-- CEL's value of a condition: its connectives, its comparisons of scalars, and its
macros over stored collections. -/
def evaluate : Node → Evaluation :=
  Operand.fold (fun v _ => literalOutcome v)
    (fun reference attributes => (attributes reference).elim .error Reading.outcome)
    (expressionOutcome engine db)

/-- CEL's truth of a condition. -/
def policyTruth (n : Node) (attributes : Attributes) : Truth :=
  (evaluate engine db n attributes).asBoolean

end Evaluation

section Equations

variable {engine : Engine} {db : Database} {attributes : Attributes}

theorem evaluate_expression (operator : PlanOperator) (operands : List Node) :
    evaluate engine db (.expression operator operands) =
      expressionOutcome engine db operator operands (operands.map (evaluate engine db))
        (operands.map fun operand => operand.operands.map (evaluate engine db)) :=
  Operand.fold_expression _ _ _ operator operands

theorem policyTruth_and (operands : List Node) :
    policyTruth engine db (.expression .and operands) attributes =
      Truth.all (operands.map fun o => policyTruth engine db o attributes) := by
  simp [policyTruth, evaluate_expression, expressionOutcome, Function.comp_def]

theorem policyTruth_or (operands : List Node) :
    policyTruth engine db (.expression .or operands) attributes =
      Truth.any (operands.map fun o => policyTruth engine db o attributes) := by
  simp [policyTruth, evaluate_expression, expressionOutcome, Function.comp_def]

theorem policyTruth_not (operand : Node) :
    policyTruth engine db (.expression .not [operand]) attributes =
      (policyTruth engine db operand attributes).not := by
  simp [policyTruth, evaluate_expression, expressionOutcome]

theorem policyTruth_ternary (cond whenTrue whenFalse : Node) :
    policyTruth engine db (.expression .if [cond, whenTrue, whenFalse]) attributes =
      match policyTruth engine db cond attributes with
      | .yes => policyTruth engine db whenTrue attributes
      | .no => policyTruth engine db whenFalse attributes
      | .unknown => .unknown := by
  simp only [policyTruth, evaluate_expression, expressionOutcome, List.map_cons, List.map_nil]
  cases (evaluate engine db cond attributes).asBoolean <;> rfl

theorem evaluate_comparison {operator : PlanOperator} {op : CmpOp} (left right : Node)
    (h : comparisonOps operator = some op) :
    evaluate engine db (.expression operator [left, right]) attributes =
      comparisonOutcome op (evaluate engine db left attributes)
        (evaluate engine db right attributes) := by
  rw [evaluate_expression]
  cases operator with
  | eq | ne | lt | le | gt | ge =>
      obtain rfl := Option.some.inj h
      rfl
  | _ => cases h

theorem policyTruth_overRelation {operator : PlanOperator} {combine : List Truth → Truth}
    {collection name : String} {reading : Reading} {rel : Relation} (body : Node)
    (hfold : macroFold operator = some combine) (hreading : attributes collection = some reading)
    (hrel : reading.entry.relation = some rel) :
    policyTruth engine db
        (.expression operator [.var collection, .expression .lambda [body, .var name]])
        attributes =
      combine ((elements engine db rel reading.row).map fun row =>
        policyTruth engine db body (attributes.bind rel name row)) := by
  rw [policyTruth, evaluate_expression]
  cases operator with
  | «exists» | existsOne | all =>
      obtain rfl := Option.some.inj hfold
      simp [expressionOutcome, comparisonOps, macroOutcome, macroFold, hreading, hrel,
        Operand.operands, policyTruth]
  | _ => cases hfold

end Equations

/-- A lambda's body reads its element through the alias the element is bound to. -/
theorem Attributes.bind_of {m : Mapper} {env : RowEnv} {aliasName : String}
    (hfresh : ∀ reference entry, m.resolve reference = some entry → entry.qualifier ≠ aliasName)
    (rel : Relation) (name : String) (row : Row) :
    (Attributes.of m env).bind rel name row =
      Attributes.of (scopedMapper m rel name aliasName) (env.bind aliasName row) := by
  funext reference
  simp only [Attributes.bind, Attributes.of, scopedMapper]
  by_cases hname : reference = name
  · simp [hname, Function.comp_def, Entry.unqualified]
  · rw [if_neg hname, if_neg hname]
    cases cutPrefix reference (name ++ ".") with
    | some field => simp [Function.comp_def, Entry.unqualified]
    | none =>
        cases hentry : m.resolve reference with
        | none => rfl
        | some entry =>
            simp only [Option.map_some, RowEnv.bind_of_ne (hfresh reference entry hentry)]

theorem comparisonOutcome_ne (left right : Outcome) :
    (comparisonOutcome .ne left right).asBoolean =
      (comparisonOutcome .eq left right).asBoolean.not := by
  cases left with
  | error => rfl
  | value left =>
      cases right with
      | error => rfl
      | value right => simp [comparisonOutcome, ComparisonOperator.isOrdering, Outcome.asBoolean]

/-- Against null, a NULL is null or missing by the convention, and any other value is
unequal. -/
theorem comparisonOutcome_null {op : CmpOp} (h : op.isOrdering = false)
    (convention : NullConvention) (x : SqlValue) :
    (comparisonOutcome op (storedOutcome convention x) (literalOutcome .null)).asBoolean =
      if x.isNull then
        if convention = .explicit then .ofBool (op = .eq) else .unknown
      else .ofBool (op = .ne) := by
  cases op with
  | eq | ne =>
      cases x with
      | null => cases convention <;> rfl
      | _ => rfl
  | lt | le | gt | ge => cases h

/-- `5 < x` is `x > 5`. -/
theorem comparisonOutcome_mirrored (op : CmpOp) (left right : Outcome) :
    comparisonOutcome op.mirrored right left = comparisonOutcome op left right := by
  cases left with
  | error => cases right <;> rfl
  | value left =>
      cases right with
      | error => rfl
      | value right =>
          have hordering : op.mirrored.isOrdering = op.isOrdering := by cases op <;> rfl
          have hne : (op.mirrored = .ne : Bool) = (op = .ne : Bool) := by cases op <;> rfl
          simp only [comparisonOutcome, hordering, hne, orderingKeys_swap,
            Value.valuesEqual_comm right left]

end QueryPlanAdapters.Go
