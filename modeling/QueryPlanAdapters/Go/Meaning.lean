import QueryPlanAdapters.Go.Membership

/-!
# Go: the meaning of a plan node

What CEL makes of a node, over what each reference reads. A function is strict: it is
applied to values, and an error of an operand is its own. `&&`, `||` and `?:` are not, and
a macro evaluates its body once for each element, with the variable bound to the element.
The functions that the translator does not rewrite are left open.
-/

namespace QueryPlanAdapters.Outcome

/-- The elements that a macro ranges over: a map's are its keys. -/
def range : Outcome → Option (List Value)
  | .value (.array items) => some items
  | .value (.record fields) => some (fields.map fun field => .string field.1)
  | _ => none

def toValue : Outcome → Option Value
  | .value v => some v
  | .error => none

end QueryPlanAdapters.Outcome

namespace QueryPlanAdapters.Go

/-- What each reference of a condition reads. -/
abbrev Valuation := String → Outcome

abbrev Meaning := Valuation → Outcome

/-! ## References -/

/-- Whether a reference is a variable, or a path through it. -/
def readsVariable (name reference : String) : Bool :=
  reference = name || (cutPrefix reference (name ++ ".")).any (· ≠ "")

/-- The references of a lambda's body, its variable bound to a value. -/
def Valuation.bind (env : Valuation) (name : String) (v : Value) : Valuation := fun reference =>
  if reference = name then .value v
  else
    match cutPrefix reference (name ++ ".") with
    | some rest => if rest = "" then env reference else getNestedValue (.value v) rest
    | none => env reference

theorem Valuation.bind_of_not_reads {env : Valuation} {name reference : String} {v : Value}
    (h : readsVariable name reference = false) : env.bind name v reference = env reference := by
  obtain ⟨hname, hpath⟩ := Bool.or_eq_false_iff.mp h
  rw [Valuation.bind, if_neg (by simpa using hname)]
  cases hrest : cutPrefix reference (name ++ ".") with
  | none => rfl
  | some rest =>
      rw [hrest, Option.any_some] at hpath
      exact if_pos (by simpa using hpath)

/-- A variable hides what its own name read outside. -/
theorem Valuation.bind_of_reads {env env' : Valuation} {name reference : String} {v : Value}
    (h : readsVariable name reference = true) :
    env.bind name v reference = env'.bind name v reference := by
  rw [Valuation.bind, Valuation.bind]
  split
  · rfl
  next hname =>
    cases hrest : cutPrefix reference (name ++ ".") with
    | none => simp [readsVariable, hname, hrest] at h
    | some rest =>
        have hne : rest ≠ "" := by simpa [readsVariable, hname, hrest] using h
        simp only [if_neg hne]

/-! ## Functions -/

/-- The functions of CEL and of the policy engine that a plan names. The set functions keep
the elements their names say, in some order and with or without repetitions. -/
structure Functions where
  call : PlanOperator → List Value → Outcome
  except : List Value → List Value → List Value
  intersect : List Value → List Value → List Value
  mem_except : ∀ {a b x}, x ∈ except a b ↔ x ∈ a ∧ b.any x.valuesEqual = false
  mem_intersect : ∀ {a b x}, x ∈ intersect a b ↔ x ∈ a ∧ b.any x.valuesEqual = true

/-- The elements of a list that equal none of another. -/
theorem Functions.mem_filter_not_any {a b : List Value} {x : Value} :
    x ∈ a.filter (fun x => !b.any x.valuesEqual) ↔ x ∈ a ∧ b.any x.valuesEqual = false := by
  rw [List.mem_filter, Bool.not_eq_true']

/-- Functions whose set functions filter the first list. -/
def Functions.filtering (call : PlanOperator → List Value → Outcome) : Functions where
  call := call
  except a b := a.filter fun x => !b.any x.valuesEqual
  intersect a b := a.filter fun x => b.any x.valuesEqual
  mem_except := mem_filter_not_any
  mem_intersect := List.mem_filter

/-- An application of a strict function to values. -/
def Functions.apply (functions : Functions) (operator : PlanOperator) (values : List Value) :
    Outcome :=
  match comparisonOps operator, operator, values with
  | some op, _, [a, b] => comparisonOutcome op (.value a) (.value b)
  | _, .in, [x, .array items] => .value (.bool (items.any x.valuesEqual))
  | _, .add, [.array a, .array b] => .value (.array (a ++ b))
  | _, .list, items => .value (.array items)
  | _, .except, [.array a, .array b] => .value (.array (functions.except a b))
  | _, .intersect, [.array a, .array b] => .value (.array (functions.intersect a b))
  | _, .isSubset, [.array a, .array b] => .value (.bool (a.all fun x => b.any x.valuesEqual))
  | _, .hasIntersection, [.array a, .array b] => .value (.bool (a.any fun x => b.any x.valuesEqual))
  | _, .except, _ | _, .intersect, _ | _, .isSubset, _ | _, .hasIntersection, _ => .error
  | _, operator, values => functions.call operator values

/-- A macro over elements, by what its body makes of each. -/
def macroResult (operator : PlanOperator) (items : List Value) (body : Value → Outcome) : Outcome :=
  match macroFold operator, operator with
  | some combine, _ => .ofTruth (combine (items.map fun v => (body v).asBoolean))
  | none, .filter =>
      if items.any fun v => (body v).asBoolean = .unknown then .error
      else .value (.array (items.filter fun v => (body v).asBoolean = .yes))
  | none, .map =>
      match items.mapM fun v => (body v).toValue with
      | some values => .value (.array values)
      | none => .error
  | none, _ => .error

/-! ## Nodes -/

section Meanings

variable (functions : Functions)

def strictMeaning (operator : PlanOperator) (each : List Meaning) : Meaning := fun env =>
  match each.mapM fun x => (x env).toValue with
  | some values => functions.apply operator values
  | none => .error

def macroMeaning (operator : PlanOperator) (operands : List Node) (each : List Meaning)
    (inner : List (List Meaning)) : Meaning := fun env =>
  match operands, each, inner with
  | [_, .expression .lambda [_, .var name]], [collection, _], [_, [body, _]] =>
      match (collection env).range with
      | some items => macroResult operator items fun v => body (env.bind name v)
      | none => .error
  | _, _, _ => .error

def expressionMeaning (operator : PlanOperator) (operands : List Node) (each : List Meaning)
    (inner : List (List Meaning)) : Meaning := fun env =>
  match operator, each with
  | .and, each => .ofTruth (Truth.all (each.map fun x => (x env).asBoolean))
  | .or, each => .ofTruth (Truth.any (each.map fun x => (x env).asBoolean))
  | .not, [x] => .ofTruth (x env).asBoolean.not
  | .if, [cond, whenTrue, whenFalse] =>
      chosenOutcome (cond env).asBoolean (whenTrue env) (whenFalse env)
  | .not, _ | .if, _ | .lambda, _ => .error
  | operator, each =>
      if lambdaBinding operator then macroMeaning operator operands each inner env
      else strictMeaning functions operator each env

/-- CEL's value of a node. -/
def meaning : Node → Meaning :=
  Operand.fold (fun v _ => literalValue v) (fun reference env => env reference)
    (expressionMeaning functions)

/-- The operators that are functions, strict in every operand. -/
def isStrict : PlanOperator → Bool
  | .and | .or | .not | .if | .lambda | .exists | .existsOne | .all | .filter | .map => false
  | _ => true

end Meanings

section Equations

variable {functions : Functions} {env : Valuation}

theorem meaning_expression (operator : PlanOperator) (operands : List Node) :
    meaning functions (.expression operator operands) =
      expressionMeaning functions operator operands (operands.map (meaning functions))
        (operands.map fun operand => operand.operands.map (meaning functions)) :=
  Operand.fold_expression _ _ _ operator operands

@[simp] theorem meaning_value (v : Literal) : meaning functions (.value v) env = literalValue v :=
  rfl

@[simp] theorem meaning_var (reference : String) :
    meaning functions (.var reference) env = env reference := rfl

theorem meaning_or (operands : List Node) :
    meaning functions (.expression .or operands) env =
      .ofTruth (Truth.any (operands.map fun o => (meaning functions o env).asBoolean)) := by
  rw [meaning_expression, expressionMeaning, List.map_map]
  rfl

theorem meaning_not (operand : Node) :
    meaning functions (.expression .not [operand]) env =
      .ofTruth (meaning functions operand env).asBoolean.not := by
  rw [meaning_expression]
  rfl

theorem meaning_ternary (cond whenTrue whenFalse : Node) :
    meaning functions (.expression .if [cond, whenTrue, whenFalse]) env =
      chosenOutcome (meaning functions cond env).asBoolean (meaning functions whenTrue env)
        (meaning functions whenFalse env) := by
  rw [meaning_expression]
  rfl

/-- The values of operands, none if one errs. -/
def valuesOf (functions : Functions) (operands : List Node) (env : Valuation) :
    Option (List Value) :=
  operands.mapM fun o => (meaning functions o env).toValue

theorem valuesOf_cons (operand : Node) (operands : List Node) :
    valuesOf functions (operand :: operands) env =
      (meaning functions operand env).toValue.bind fun v =>
        (valuesOf functions operands env).map (v :: ·) := by
  rw [valuesOf, List.mapM_cons]
  cases (meaning functions operand env).toValue with
  | none => rfl
  | some v => cases h : valuesOf functions operands env <;> simp [valuesOf] at h <;> simp [h]

theorem meaning_strict {operator : PlanOperator} (h : isStrict operator = true)
    (operands : List Node) :
    meaning functions (.expression operator operands) env =
      (valuesOf functions operands env).elim .error (functions.apply operator) := by
  have hstrict : meaning functions (.expression operator operands) env =
      strictMeaning functions operator (operands.map (meaning functions)) env := by
    rw [meaning_expression]
    cases operator <;> first | rfl | cases h
  rw [hstrict, strictMeaning, List.mapM_map, valuesOf]
  simp only [Function.comp_def]
  cases operands.mapM fun o => (meaning functions o env).toValue <;> rfl

theorem meaning_unary {operator : PlanOperator} (h : isStrict operator = true) (operand : Node) :
    meaning functions (.expression operator [operand]) env =
      (meaning functions operand env).toValue.elim .error fun v => functions.apply operator [v] := by
  rw [meaning_strict h, valuesOf_cons]
  cases (meaning functions operand env).toValue <;> rfl

theorem meaning_binary {operator : PlanOperator} (h : isStrict operator = true)
    (left right : Node) :
    meaning functions (.expression operator [left, right]) env =
      (meaning functions left env).toValue.elim .error fun a =>
        (meaning functions right env).toValue.elim .error fun b =>
          functions.apply operator [a, b] := by
  rw [meaning_strict h, valuesOf_cons, valuesOf_cons]
  cases (meaning functions left env).toValue with
  | none => rfl
  | some a => cases (meaning functions right env).toValue <;> rfl

theorem meaning_comparison {operator : PlanOperator} {op : CmpOp}
    (h : comparisonOps operator = some op) (left right : Node) :
    meaning functions (.expression operator [left, right]) env =
      comparisonOutcome op (meaning functions left env) (meaning functions right env) := by
  have hstrict : isStrict operator = true := by
    cases operator <;> first | rfl | cases h
  have happly : ∀ a b, functions.apply operator [a, b] =
      comparisonOutcome op (.value a) (.value b) := by
    intro a b
    rw [Functions.apply.eq_def, h]
  rw [meaning_binary hstrict]
  cases meaning functions left env with
  | error => cases meaning functions right env <;> rfl
  | value a =>
      cases meaning functions right env with
      | error => rfl
      | value b => exact happly a b

theorem meaning_overElements {operator : PlanOperator} (h : lambdaBinding operator = true)
    (collection body : Node) (name : String) :
    meaning functions
        (.expression operator [collection, .expression .lambda [body, .var name]]) env =
      (meaning functions collection env).range.elim .error fun items =>
        macroResult operator items fun v => meaning functions body (env.bind name v) := by
  have hunfolded : meaning functions
      (.expression operator [collection, .expression .lambda [body, .var name]]) env =
        macroMeaning operator [collection, .expression .lambda [body, .var name]]
          ([collection, .expression .lambda [body, .var name]].map (meaning functions))
          ([collection, .expression .lambda [body, .var name]].map fun operand =>
            operand.operands.map (meaning functions)) env := by
    rw [meaning_expression]
    cases operator <;> first | rfl | cases h
  rw [hunfolded]
  simp only [macroMeaning, List.map_cons, List.map_nil, Operand.operands]
  cases (meaning functions collection env).range <;> rfl

end Equations

end QueryPlanAdapters.Go
