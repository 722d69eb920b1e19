import QueryPlanAdapters.Go.Policy
import QueryPlanAdapters.Go.Scopes

/-!
# Go: what the subqueries over a relation mean

The three-valued CASE over the witnesses of a scope is the macro folded over the
rows the scope reaches. The scope of a direct relation reaches exactly the
elements of the collection, each bound to the subquery's alias.
-/

namespace QueryPlanAdapters.Go

open Sql

variable {engine : Engine} {db : Database} {env : RowEnv}

/-! ## Macros over a scope -/

/-- The macro that a truth table folds. -/
def MacroSemantics.fold (sem : MacroSemantics) (ts : List Truth) : Truth :=
  if ts.any sem.witness.test then .ofBool sem.witnessResult
  else if .unknown ∈ ts then .unknown
  else .ofBool sem.defaultResult

variable {rel : Relation}

theorem fold_existsSemantics (ts : List Truth) : existsSemantics.fold ts = Truth.any ts := by
  rw [Truth.any_eq_ite]
  simp [MacroSemantics.fold, existsSemantics, TruthValue.test]

theorem fold_allSemantics (ts : List Truth) : allSemantics.fold ts = Truth.all ts := by
  rw [Truth.all_eq_ite]
  simp [MacroSemantics.fold, allSemantics, TruthValue.test]

/-- The truth of a condition on each row of a scope. -/
def Scope.truths (engine : Engine) (db : Database) (s : Scope) (body : Expr) (env : RowEnv) :
    List Truth :=
  (s.rows engine db env).map (body.truth engine db)

theorem passes_truthTest (body : Expr) (want : TruthValue) :
    passes engine db (some (.truthTest body want)) =
      fun row => want.test (body.truth engine db row) := by
  funext row
  simp

/-- Some row of the scope has the state a test asks for. -/
theorem truth_exists_truthTest (s : Scope) (body : Expr) (want : TruthValue) :
    (s.exists (some (.truthTest body want))).truth engine db env =
      .ofBool ((s.truths engine db body env).any want.test) := by
  simp [Scope.truths, passes_truthTest, List.any_map, Function.comp_def]

theorem any_test_unknown (ts : List Truth) :
    ts.any TruthValue.unknown.test = true ↔ Truth.unknown ∈ ts := by
  simp [TruthValue.test]

/-- The CASE over the witnesses is the macro folded over the rows. -/
theorem truth_triState (s : Scope) (body : Expr) (sem : MacroSemantics) :
    (triState s body sem).truth engine db env = sem.fold (s.truths engine db body env) := by
  simp only [triState, Expr.truth_case_pair, truth_exists_truthTest, Truth.ofBool_eq_yes_iff,
    Expr.truth_boolConst, Expr.truth_null, MacroSemantics.fold, any_test_unknown]

/-- The number of witnesses of a scope. -/
theorem eval_count_true (s : Scope) (body : Expr) :
    (s.count (some (.truthTest body .true))).eval engine db env =
      .number (.finite ((s.truths engine db body env).count .yes)) := by
  rw [Scope.eval_count, passes_truthTest, Scope.truths, List.count, List.countP_map]
  simp [TruthValue.test, Function.comp_def, beq_eq_decide]

/-- `exists_one` counts the witnesses, once no row is unknown. -/
theorem truth_exactlyOne (s : Scope) (body : Expr) :
    (exactlyOne s body).truth engine db env = Truth.exactlyOne (s.truths engine db body env) := by
  have hcount : (Expr.cmp .eq (s.count (some (.truthTest body .true))) (.lit (.number 1))).truth
      engine db env = .ofBool ((s.truths engine db body env).count .yes = 1) := by
    have hone : Double.eq (.finite ((s.truths engine db body env).count .yes)) 1 =
        decide ((s.truths engine db body env).count .yes = 1) := by
      rw [Bool.eq_iff_iff, decide_eq_true_eq]
      exact decide_eq_true_iff.trans Nat.cast_eq_one
    simp only [Expr.truth_cmp, eval_count_true, Expr.eval_lit, Val.bound, Engine.compare_number,
      ComparisonOperator.test, hone]
  simp only [exactlyOne, Expr.truth_case_pair, truth_exists_truthTest, Truth.ofBool_eq_yes_iff,
    any_test_unknown, Expr.truth_null, Truth.exactlyOne, hcount, Expr.truth_boolConst]
  congr 1
  cases decide ((s.truths engine db body env).count .yes = 1) <;> rfl

/-! ## The scope of a direct relation -/

/-- A restriction holds of the rows that the application's own reads show. -/
theorem truth_restriction (aliasName : String) (r : Restriction) :
    (r.lower aliasName).truth engine db env = .yes ↔ r.admits engine (env aliasName) = true := by
  cases hop : r.op with
  | eq | ne => simp [Restriction.lower, Restriction.admits, hop]
  | isNull | isNotNull => simp [Restriction.lower, Restriction.admits, hop]
  | «in» | notIn =>
      by_cases hvalues : r.values = [] <;>
        simp [Restriction.lower, Restriction.admits, hop, hvalues, Function.comp_def]

/-- The scope of a relation without intermediate hops. -/
def directScope (rel : Relation) (aliasName parent : String) : Scope where
  source := [{ table := rel.table, aliasName }]
  correlate := .and (appendRestrictions [] aliasName rel.subqueryFilter ++
    [.cmp .eq (joinColumn aliasName rel.targetColumn) (joinColumn parent rel.sourceColumn)])

theorem relationScope_direct (h : rel.via = []) (aliasName parent : String) :
    relationScope rel aliasName parent = pure (directScope rel aliasName parent) := by
  simp [relationScope, joinHops, h, joinVia, directScope]

theorem requireHops_direct (h : rel.via = []) (parent : String) (e : Expr) :
    requireHops rel parent e = pure e := by
  simp [requireHops, hopsExist, h]

/-- The scope of a direct relation reaches the elements of the collection. -/
theorem rows_directScope {aliasName parent : String} (h : parent ≠ aliasName) :
    (directScope rel aliasName parent).rows engine db env =
      (elements engine db rel (env parent)).map (env.bind aliasName) := by
  have hcorrelate : ∀ row : Row, (directScope rel aliasName parent).correlate.truth engine db
      (env.bind aliasName row) = .yes ↔
        rel.subqueryFilter.all (·.admits engine row) = true ∧
          engine.compare .eq (row rel.targetColumn) (env parent rel.sourceColumn) = .yes := by
    intro row
    simp [directScope, appendRestrictions, Truth.all_eq_yes_iff, truth_restriction,
      RowEnv.bind_of_ne h, or_imp, forall_and]
  have hsource : (directScope rel aliasName parent).source = [{ table := rel.table, aliasName }] := rfl
  rw [Scope.rows, hsource, Database.bindings_singleton, List.filter_map, elements]
  congr 1
  apply List.filter_congr
  intro row _
  rw [Bool.eq_iff_iff, Bool.and_eq_true, decide_eq_true_eq, ← hcorrelate row]
  exact decide_eq_true_iff

/-- A macro over a direct relation folds the elements of the collection. -/
theorem truths_directScope {aliasName parent : String} (h : parent ≠ aliasName) (body : Expr) :
    (directScope rel aliasName parent).truths engine db body env =
      (elements engine db rel (env parent)).map fun row =>
        body.truth engine db (env.bind aliasName row) := by
  rw [Scope.truths, rows_directScope h, List.map_map]
  rfl

end QueryPlanAdapters.Go
