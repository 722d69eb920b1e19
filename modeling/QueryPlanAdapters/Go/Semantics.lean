import QueryPlanAdapters.Go.Expr

/-!
# Go: what a SQL expression means

The value of an expression over a database, in an environment that gives each
qualifier its row. A condition is read through its truth value: `NOT UNKNOWN` is
UNKNOWN, and a CASE takes an arm only where its condition is TRUE.
-/

namespace QueryPlanAdapters.Go

open Sql

/-- A bound parameter. Only scalars can be bound. -/
def Val.bound : Val → SqlValue
  | .constant v =>
      match v with
      | .bool b => .bool b
      | .number d => .number d
      | .string s => .text s
      | _ => .null
  | .time nanos => .time nanos
  | _ => .null

def TruthValue.test : TruthValue → Truth → Bool
  | .true, t => t = .yes
  | .false, t => t = .no
  | .unknown, t => t = .unknown

/-- Null-safe equality. -/
def notDistinctFrom (engine : Engine) (a b : SqlValue) : Bool :=
  (a.isNull && b.isNull) || engine.compare .eq a b = .yes

def callValue (engine : Engine) : FuncName → List SqlValue → SqlValue
  | .charLength, [x] => engine.charLength x
  | .replace, [text, source, target] => engine.replace text source target
  | .concat, x :: xs => xs.foldl engine.concat x
  | .nullIf, [x, y] => if engine.compare .eq x y = .yes then .null else x
  | _, _ => .null

section Eval

variable (engine : Engine) (db : Database)

mutual

/-- The value of an expression. -/
def Expr.eval : Expr → RowEnv → SqlValue
  | .column c, env => env c.qualifier c.name
  | .lit v, _ => v.bound
  | .boolConst v, _ => .bool v
  | .cmp op l r, env => .ofTruth (engine.compare op (l.eval env) (r.eval env))
  | .arith op l r, env => engine.arith op (l.eval env) (r.eval env)
  | .concat l r, env => engine.concat (l.eval env) (r.eval env)
  | .logic isAnd xs, env =>
      .ofTruth (if isAnd then Truth.all (truths xs env) else Truth.any (truths xs env))
  | .not x, env => .ofTruth (x.eval env).asTruth.not
  | .isNull x negate, env => .bool ((x.eval env).isNull ^^ negate)
  | .truthTest x want, env => .bool (want.test (x.eval env).asTruth)
  | .like receiver pattern, env => .ofTruth (engine.like (receiver.eval env) (pattern.eval env))
  | .notDistinct l r, env => .bool (notDistinctFrom engine (l.eval env) (r.eval env))
  | .inList x vs, env =>
      .ofTruth (Truth.any ((values vs env).map (engine.compare .eq (x.eval env))))
  | .case whens els, env => (takenArm whens env).getD (selected els env)
  | .call name args, env => callValue engine name (values args env)
  | .cast x .text, env => engine.castText (x.eval env)
  | .cast x .float, env => engine.castFloat (x.eval env)
  | .subquery kind source correlate filter select, env =>
      let rows := (db.bindings source env).filter fun row =>
        (correlate.eval row).asTruth = .yes && passes filter row
      match kind with
      | .exists => .bool !rows.isEmpty
      | .count => .number (.finite rows.length)
      | .scalar => (rows.head?.map (selected select)).getD .null

def values : List Expr → RowEnv → List SqlValue
  | [], _ => []
  | x :: xs, env => x.eval env :: values xs env

def truths : List Expr → RowEnv → List Truth
  | [], _ => []
  | x :: xs, env => (x.eval env).asTruth :: truths xs env

/-- The first arm whose condition is TRUE. -/
def takenArm : List (Expr × Expr) → RowEnv → Option SqlValue
  | [], _ => none
  | (cond, whenTrue) :: whens, env =>
      if (cond.eval env).asTruth = .yes then some (whenTrue.eval env) else takenArm whens env

/-- Whether a row passes an optional WHERE. -/
def passes : Option Expr → RowEnv → Bool
  | none, _ => true
  | some filter, env => (filter.eval env).asTruth = .yes

/-- An optional expression; without one NULL. -/
def selected : Option Expr → RowEnv → SqlValue
  | none, _ => .null
  | some x, env => x.eval env

end

/-- The truth of an expression as a condition. -/
def Expr.truth (x : Expr) (env : RowEnv) : Truth :=
  (x.eval engine db env).asTruth

/-- The rows a scope reaches from an environment. -/
def Scope.rows (s : Scope) (env : RowEnv) : List RowEnv :=
  (db.bindings s.source env).filter fun row => (s.correlate.eval engine db row).asTruth = .yes

end Eval

section Truths

variable {engine : Engine} {db : Database} {env : RowEnv}

/-! What each constructor evaluates to, so that no proof unfolds the evaluator. -/

theorem values_cons (x : Expr) (xs : List Expr) :
    values engine db (x :: xs) env = x.eval engine db env :: values engine db xs env := rfl

theorem truths_cons (x : Expr) (xs : List Expr) :
    truths engine db (x :: xs) env =
      (x.eval engine db env).asTruth :: truths engine db xs env := rfl

theorem takenArm_nil : takenArm engine db [] env = none := rfl

theorem takenArm_cons (cond x : Expr) (whens : List (Expr × Expr)) :
    takenArm engine db ((cond, x) :: whens) env =
      if (cond.eval engine db env).asTruth = .yes then some (x.eval engine db env)
      else takenArm engine db whens env := rfl

theorem selected_none : selected engine db none env = .null := rfl

theorem selected_some (x : Expr) : selected engine db (some x) env = x.eval engine db env := rfl

namespace Expr

theorem eval_boolConst (b : Bool) : (boolConst b).eval engine db env = .bool b := rfl

theorem eval_cmp (op : CmpOp) (l r : Expr) :
    (cmp op l r).eval engine db env =
      .ofTruth (engine.compare op (l.eval engine db env) (r.eval engine db env)) := rfl

theorem eval_logic (isAnd : Bool) (xs : List Expr) :
    (logic isAnd xs).eval engine db env =
      .ofTruth (if isAnd then Truth.all (truths engine db xs env)
        else Truth.any (truths engine db xs env)) := rfl

theorem eval_not (x : Expr) :
    (not x).eval engine db env = .ofTruth (x.eval engine db env).asTruth.not := rfl

theorem eval_isNull (x : Expr) (negate : Bool) :
    (isNull x negate).eval engine db env = .bool ((x.eval engine db env).isNull ^^ negate) := rfl

theorem eval_inList (x : Expr) (vs : List Expr) :
    (inList x vs).eval engine db env =
      .ofTruth (Truth.any ((values engine db vs env).map
        (engine.compare .eq (x.eval engine db env)))) := rfl

theorem eval_case (whens : List (Expr × Expr)) (els : Option Expr) :
    (Expr.case whens els).eval engine db env =
      (takenArm engine db whens env).getD (selected engine db els env) := rfl

theorem eval_exists (source : List FromItem) (correlate : Expr) (filter select : Option Expr) :
    (subquery .exists source correlate filter select).eval engine db env =
      .bool !((db.bindings source env).filter fun row =>
        (correlate.eval engine db row).asTruth = .yes &&
          passes engine db filter row).isEmpty := rfl

theorem eval_countRows (source : List FromItem) (correlate : Expr)
    (filter select : Option Expr) :
    (subquery .count source correlate filter select).eval engine db env =
      .number (.finite ((db.bindings source env).filter fun row =>
        (correlate.eval engine db row).asTruth = .yes &&
          passes engine db filter row).length) := rfl

end Expr

theorem values_eq_map (xs : List Expr) :
    values engine db xs env = xs.map fun x => x.eval engine db env := by
  induction xs with
  | nil => rfl
  | cons x xs ih => rw [values_cons, ih, List.map_cons]

theorem truths_eq_map (xs : List Expr) :
    truths engine db xs env = xs.map fun x => x.truth engine db env := by
  induction xs with
  | nil => rfl
  | cons x xs ih => rw [truths_cons, ih, List.map_cons, Expr.truth]

namespace Expr

@[simp] theorem eval_column (c : Column) :
    (Expr.column c).eval engine db env = env c.qualifier c.name := rfl

@[simp] theorem eval_joinColumn (qualifier name : String) :
    (joinColumn qualifier name).eval engine db env = env qualifier name := rfl

@[simp] theorem eval_lit (v : Val) : (Expr.lit v).eval engine db env = v.bound := rfl

@[simp] theorem truth_boolConst (b : Bool) : (boolConst b).truth engine db env = .ofBool b := rfl

@[simp] theorem truth_null : null.truth engine db env = .unknown := rfl

@[simp] theorem truth_cmp (op : CmpOp) (l r : Expr) :
    (cmp op l r).truth engine db env =
      engine.compare op (l.eval engine db env) (r.eval engine db env) := by
  rw [truth, eval_cmp, SqlValue.asTruth_ofTruth]

@[simp] theorem truth_not (x : Expr) : (not x).truth engine db env = (x.truth engine db env).not := by
  rw [truth, eval_not, SqlValue.asTruth_ofTruth, truth]

@[simp] theorem truth_isNull (x : Expr) (negate : Bool) :
    (isNull x negate).truth engine db env =
      .ofBool ((x.eval engine db env).isNull ^^ negate) := rfl

@[simp] theorem truth_truthTest (x : Expr) (want : TruthValue) :
    (truthTest x want).truth engine db env = .ofBool (want.test (x.truth engine db env)) := rfl

@[simp] theorem truth_inList (x : Expr) (vs : List Expr) :
    (inList x vs).truth engine db env =
      Truth.any (vs.map fun v =>
        engine.compare .eq (x.eval engine db env) (v.eval engine db env)) := by
  simp [truth, eval_inList, values_eq_map, Function.comp_def]

@[simp] theorem truth_combine (isAnd : Bool) (xs : List Expr) :
    (combine isAnd xs).truth engine db env =
      if isAnd then Truth.all (xs.map fun x => x.truth engine db env)
      else Truth.any (xs.map fun x => x.truth engine db env) := by
  match xs with
  | [] => cases isAnd <;> rfl
  | [x] => cases isAnd <;> simp [combine]
  | x :: y :: xs => simp [combine, truth, eval_logic, truths_eq_map]

theorem eval_case_singleton (cond x : Expr) :
    (Expr.case [(cond, x)] none).eval engine db env =
      if cond.truth engine db env = .yes then x.eval engine db env else .null := by
  simp only [eval_case, takenArm_cons, takenArm_nil, selected_none, truth]
  by_cases h : (cond.eval engine db env).asTruth = .yes <;> simp [h]

/-- A CASE of one arm and no ELSE is UNKNOWN wherever its condition is not TRUE. -/
@[simp] theorem truth_case_singleton (cond x : Expr) :
    (Expr.case [(cond, x)] none).truth engine db env =
      if cond.truth engine db env = .yes then x.truth engine db env else .unknown := by
  simp only [truth, eval_case, takenArm_cons, takenArm_nil, selected_none]
  by_cases h : (cond.eval engine db env).asTruth = .yes <;> simp [h]

theorem eval_case_else (cond x els : Expr) :
    (Expr.case [(cond, x)] (some els)).eval engine db env =
      if cond.truth engine db env = .yes then x.eval engine db env
      else els.eval engine db env := by
  simp only [eval_case, takenArm_cons, takenArm_nil, selected_some, truth]
  by_cases h : (cond.eval engine db env).asTruth = .yes <;> simp [h]

theorem truth_case_else (cond x els : Expr) :
    (Expr.case [(cond, x)] (some els)).truth engine db env =
      if cond.truth engine db env = .yes then x.truth engine db env
      else els.truth engine db env := by
  simp only [truth, eval_case, takenArm_cons, takenArm_nil, selected_some]
  by_cases h : (cond.eval engine db env).asTruth = .yes <;> simp [h]

/-- A CASE whose ELSE decides what neither of its two conditions does. -/
theorem truth_case_pair (cond₁ x₁ cond₂ x₂ els : Expr) :
    (Expr.case [(cond₁, x₁), (cond₂, x₂)] (some els)).truth engine db env =
      if cond₁.truth engine db env = .yes then x₁.truth engine db env
      else if cond₂.truth engine db env = .yes then x₂.truth engine db env
      else els.truth engine db env := by
  simp only [truth, eval_case, takenArm_cons, takenArm_nil, selected_some]
  by_cases h₁ : (cond₁.eval engine db env).asTruth = .yes
  · simp [h₁]
  · by_cases h₂ : (cond₂.eval engine db env).asTruth = .yes <;> simp [h₁, h₂]

/-- A CASE of two arms and no ELSE. -/
theorem truth_case_pair_none (cond₁ x₁ cond₂ x₂ : Expr) :
    (Expr.case [(cond₁, x₁), (cond₂, x₂)] none).truth engine db env =
      if cond₁.truth engine db env = .yes then x₁.truth engine db env
      else if cond₂.truth engine db env = .yes then x₂.truth engine db env
      else .unknown := by
  simp only [truth, eval_case, takenArm_cons, takenArm_nil, selected_none]
  by_cases h₁ : (cond₁.eval engine db env).asTruth = .yes
  · simp [h₁]
  · by_cases h₂ : (cond₂.eval engine db env).asTruth = .yes <;> simp [h₁, h₂]

end Expr

@[simp] theorem passes_none (row : RowEnv) : passes engine db none row = true := rfl

@[simp] theorem passes_some (filter : Expr) (row : RowEnv) :
    passes engine db (some filter) row = decide (filter.truth engine db row = .yes) := rfl

@[simp] theorem truth_negate (e : Expr) (negated : Bool) :
    (negate e negated).truth engine db env = (e.truth engine db env).polarised negated := by
  cases negated with
  | false => rfl
  | true =>
      simp only [negate, if_true, Truth.polarised_true]
      split <;> simp

/-- A NULL stays NULL under a negation. -/
theorem eval_negate_null {e : Expr} (h : e.eval engine db env = .null) (negated : Bool) :
    (negate e negated).eval engine db env = .null := by
  cases negated with
  | false => exact h
  | true =>
      simp only [negate, if_true]
      split
      · cases h
      · simp [Expr.eval_not, h]

/-- What is NULL exactly where its condition is UNKNOWN stays so under a negation. -/
theorem eval_negate_eq_null_iff {e : Expr}
    (h : e.eval engine db env = .ofTruth (e.truth engine db env)) (negated : Bool) :
    (negate e negated).eval engine db env = .null ↔ e.truth engine db env = .unknown := by
  have hnull : ∀ t : Truth, SqlValue.ofTruth t = .null ↔ t = .unknown := by
    intro t
    cases t <;> simp [SqlValue.ofTruth]
  cases negated with
  | false => simp [negate, h, hnull]
  | true =>
      simp only [negate, if_true]
      split
      · simp [Expr.eval_boolConst]
      · rw [Expr.eval_not, hnull, Truth.not_eq_unknown_iff, Expr.truth]

namespace Scope

variable {s : Scope}

theorem mem_rows {row : RowEnv} :
    row ∈ s.rows engine db env ↔
      row ∈ db.bindings s.source env ∧ s.correlate.truth engine db row = .yes := by
  simp [rows, Expr.truth]

/-- The rows a subquery ranges over are the rows of its scope that pass its filter. -/
theorem filter_passes (filter : Option Expr) :
    ((db.bindings s.source env).filter fun row =>
        (s.correlate.eval engine db row).asTruth = .yes && passes engine db filter row) =
      (s.rows engine db env).filter (passes engine db filter) := by
  simp [rows, List.filter_filter, Bool.and_comm]

/-- EXISTS holds exactly when some row of the scope passes its filter. -/
@[simp] theorem truth_exists (filter : Option Expr) :
    (s.exists filter).truth engine db env =
      .ofBool ((s.rows engine db env).any (passes engine db filter)) := by
  rw [Scope.exists, Expr.truth, Expr.eval_exists]
  simp only [filter_passes, SqlValue.asTruth_bool]
  congr 1
  rw [Bool.eq_iff_iff]
  simp

/-- COUNT counts the rows of the scope that pass its filter. -/
@[simp] theorem eval_count (filter : Option Expr) :
    (s.count filter).eval engine db env =
      .number (.finite ((s.rows engine db env).countP (passes engine db filter))) := by
  rw [Scope.count, Expr.eval_countRows]
  simp only [filter_passes, List.countP_eq_length_filter]

end Scope

end Truths

end QueryPlanAdapters.Go
