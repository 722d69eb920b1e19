import QueryPlanAdapters.Go.Hops

/-!
# Go: the rows a chain reaches

A subquery over a chain joins its hops to the element table and correlates the
outermost one with the parent row. Its scope reaches, for each way of following
the chain, the row of the element table that it started from.
-/

namespace QueryPlanAdapters.Go

open Sql

variable {engine : Engine} {db : Database} {env : RowEnv}

/-! ## The rows of a scope -/

section Reached

variable (engine : Engine) (db : Database)

/-- The rows of the element table that a relation reaches from a parent row, once for each
way along its hops. -/
def reached (rel : Relation) (parent : Row) : List Row :=
  ((db rel.table).filter fun row => rel.subqueryFilter.all (·.admits engine row)).flatMap fun row =>
    ((hopRows engine db (some row) rel.via).filter fun outer =>
      engine.compare .eq (outer rel.targetColumn) (parent rel.sourceColumn) = .yes).map fun _ => row

end Reached

section Scopes

variable {rel : Relation} {parent : String} {s n : Nat}

/-- The rows chosen after one row of the element table, when its scope's joins hold. -/
theorem map_rows_of_element {outer : String} {items : List FromItem} {joins : List Expr}
    (hjoined : Joined (aliasOf n) outer rel.via items joins) (hitems : freshItems s items)
    (hn : n ≤ s) (hparent : ∀ k, n ≤ k → parent ≠ aliasOf k) (element : Row) :
    ((db.bindings items (env.bind (aliasOf n) element)).filter fun row =>
        (Expr.and (appendRestrictions [] (aliasOf n) rel.subqueryFilter ++ joins ++
          [.cmp .eq (joinColumn outer rel.targetColumn)
            (joinColumn parent rel.sourceColumn)])).truth engine db row = .yes).map
        (· (aliasOf n)) =
      if rel.subqueryFilter.all (·.admits engine element) = true then
        ((hopRows engine db (some element) rel.via).filter fun outer =>
          engine.compare .eq (outer rel.targetColumn) (env parent rel.sourceColumn) = .yes).map
            fun _ => element
      else [] := by
  have hinner := hjoined engine db (env.bind (aliasOf n) element)
  rw [innerRow, if_neg (aliasOf_ne_empty _), RowEnv.bind_self] at hinner
  have hself : ∀ row ∈ db.bindings items (env.bind (aliasOf n) element),
      row (aliasOf n) = element := by
    intro row hrow
    rw [Database.bindings_frame hrow (hitems.ne fun k hk => aliasOf_ne_of_lt (by omega)),
      RowEnv.bind_self]
  have hkept : ∀ row ∈ db.bindings items (env.bind (aliasOf n) element),
      row parent = env parent := by
    intro row hrow
    rw [Database.bindings_frame hrow (hitems.ne fun k hk => hparent k (by omega)),
      RowEnv.bind_of_ne (hparent n le_rfl)]
  have hcorrelate : ∀ row ∈ db.bindings items (env.bind (aliasOf n) element),
      decide ((Expr.and (appendRestrictions [] (aliasOf n) rel.subqueryFilter ++ joins ++
          [.cmp .eq (joinColumn outer rel.targetColumn)
            (joinColumn parent rel.sourceColumn)])).truth engine db row = .yes) =
        (rel.subqueryFilter.all (·.admits engine element) &&
          ((joins.all fun x => x.truth engine db row = .yes) &&
            decide (engine.compare .eq (row outer rel.targetColumn)
              (env parent rel.sourceColumn) = .yes))) := by
    intro row hrow
    rw [Bool.eq_iff_iff]
    simp only [decide_eq_true_eq, Expr.truth_combine, if_true, Truth.all_eq_yes_iff,
      List.forall_mem_map, List.forall_mem_append, List.forall_mem_singleton, appendRestrictions,
      List.nil_append, Expr.truth_cmp, Expr.eval_joinColumn, truth_restriction, hself row hrow,
      hkept row hrow, Bool.and_eq_true, List.all_eq_true, and_assoc]
  rw [List.filter_congr hcorrelate]
  cases rel.subqueryFilter.all (·.admits engine element) with
  | false => simp
  | true =>
      rw [← hinner, if_pos rfl, List.filter_map, List.map_map, List.filter_filter]
      simp only [Bool.true_and, Function.comp_def, Bool.and_comm]
      apply List.map_congr_left
      intro row hrow
      exact hself row (List.mem_of_mem_filter hrow)

/-- A scope over a relation reaches the rows of the relation, each bound to the scope's
alias, and leaves the enclosing rows as they were. -/
theorem yields_relationScope_reached (hparent : ∀ k, n ≤ k → parent ≠ aliasOf k) (hn : n ≤ s) :
    Yields (relationScope rel (aliasOf n) parent) s fun scope s' =>
      s ≤ s' ∧ ∀ (engine : Engine) (db : Database) env,
        (scope.rows engine db env).map (· (aliasOf n)) = reached engine db rel (env parent) ∧
          ∀ row ∈ scope.rows engine db env, ∀ qualifier,
            (∀ k, n ≤ k → qualifier ≠ aliasOf k) → row qualifier = env qualifier := by
  have hinner : ∀ k, s < k → aliasOf n ≠ aliasOf k :=
    fun k hk => aliasOf_ne_of_lt (hn.trans_lt hk)
  refine (yields_joinVia_joined rel.via _ _ hinner (.inl (aliasOf_ne_empty _))).bind
    fun result s' h => ?_
  obtain ⟨hle, items, joins, hsource, hpreds, hitems, hjoined⟩ := h
  refine Yields.pure ⟨hle, fun engine db env => ⟨?_, ?_⟩⟩
  · simp only [Scope.rows, hsource, hpreds, Database.bindings_append,
      Database.bindings_singleton]
    rw [List.flatMap_map, List.filter_flatMap, List.map_flatMap, reached, flatMap_filter]
    refine congrArg (List.flatMap · _) (funext fun element => ?_)
    exact map_rows_of_element hjoined hitems hn hparent element
  · intro row hrow qualifier hqualifier
    obtain ⟨hbound, -⟩ := Scope.mem_rows.mp hrow
    apply Database.bindings_frame hbound
    intro item hitem
    simp only [hsource, List.mem_append, List.mem_singleton] at hitem
    obtain rfl | hitem := hitem
    · exact hqualifier n le_rfl
    · obtain ⟨k, hk, heq⟩ := hitems item hitem
      rw [heq]
      exact hqualifier k (by omega)

/-- The guard of a chain holds exactly where every intermediate hop has a row. -/
theorem yields_requireHops_guard (hvia : rel.via ≠ []) (hparent : ∀ k, s < k → parent ≠ aliasOf k)
    (e : Expr) :
    Yields (requireHops rel parent e) s fun guarded s' => s ≤ s' ∧
      ∃ g, guarded = .case [(g, e)] none ∧ ∀ (engine : Engine) (db : Database) env,
        g.truth engine db env = .ofBool (hopsPresent engine db rel (env parent)) := by
  have hguard : Yields (hopsExist rel parent) s fun guard s' => s ≤ s' ∧
      ∃ g, guard = some g ∧ ∀ (engine : Engine) (db : Database) env,
        g.truth engine db env = .ofBool (hopsPresent engine db rel (env parent)) := by
    rw [hopsExist, if_neg (by simpa using hvia)]
    have hempty : ∀ k, s < k → "" ≠ aliasOf k := fun k _ h => aliasOf_ne_empty k h.symm
    refine Yields.bind (Q := fun scope s' => s ≤ s' ∧ ∀ (engine : Engine) (db : Database) env,
      (scope.exists none).truth engine db env =
        .ofBool (hopsPresent engine db rel (env parent))) ?_ fun scope s' h =>
          Yields.pure ⟨h.1, _, rfl, h.2⟩
    refine (yields_joinVia_joined rel.via [] [] hempty (.inr hvia)).bind fun result s' h => ?_
    obtain ⟨hle, items, joins, hsource, hpreds, hitems, hjoined⟩ := h
    refine Yields.pure ⟨hle, fun engine db env => ?_⟩
    have hrows := hjoined engine db env
    have hkept : ∀ row ∈ db.bindings items env, row parent = env parent := fun row hrow =>
      Database.bindings_frame hrow (hitems.ne fun k hk => hparent k hk)
    rw [innerRow, if_pos rfl] at hrows
    rw [Scope.truth_exists, hopsPresent, ← hrows, List.any_map, List.any_filter, Scope.rows,
      List.any_filter]
    congr 1
    simp only [hsource, hpreds, List.nil_append]
    rw [Bool.eq_iff_iff, List.any_eq_true, List.any_eq_true]
    refine exists_congr fun row => and_congr_right fun hrow => ?_
    simp only [Bool.and_eq_true, decide_eq_true_eq, List.all_eq_true, passes_none, and_true,
      Function.comp_def]
    show (Expr.and _).truth engine db row = .yes ↔ _
    simp only [Expr.truth_combine, if_true, Truth.all_eq_yes_iff, List.forall_mem_map,
      List.forall_mem_append, List.forall_mem_singleton, Expr.truth_cmp, Expr.eval_joinColumn,
      hkept row hrow]
  refine hguard.bind fun guard s' h => ?_
  obtain ⟨hle, g, rfl, htruth⟩ := h
  exact Yields.pure ⟨hle, g, rfl, htruth⟩

end Scopes

end QueryPlanAdapters.Go
