import QueryPlanAdapters.Go.Subqueries

/-!
# Go: the intermediate hops of a chain

A subquery over a chain joins its hops to the element table and correlates the
outermost one with the parent row. Where no rows of the hops lead to the parent,
neither the guard nor any scope over the chain reaches a row.
-/

namespace QueryPlanAdapters.Go

open Sql

section HopRows

variable (engine : Engine) (db : Database)

/-- Whether a row of a hop is shown, and joined to the row one step further in. -/
def Hop.joins (hop : Hop) (inner : Option Row) (row : Row) : Bool :=
  hop.subqueryFilter.all (·.admits engine row) &&
    inner.all fun inner => engine.compare .eq (inner hop.childColumn) (row hop.joinColumn) = .yes

/-- The rows of the outermost hop that the joins of a chain lead to, from a row of the
element table or from none. -/
def hopRows : (inner : Option Row) → List Hop → List Row
  | inner, [] => inner.toList
  | inner, hop :: hops =>
      ((db hop.table).filter (hop.joins engine inner)).flatMap fun row => hopRows (some row) hops

/-- Whether every intermediate hop of the chain has a row for the parent. -/
def hopsPresent (rel : Relation) (parent : Row) : Bool :=
  (hopRows engine db none rel.via).any fun outer =>
    engine.compare .eq (outer rel.targetColumn) (parent rel.sourceColumn) = .yes

end HopRows

variable {engine : Engine} {db : Database} {env : RowEnv}

/-! ## Joins -/

theorem aliasOf_ne_empty (n : Nat) : aliasOf n ≠ "" := by
  intro h
  have hstart : startsWithText "" aliasPrefix = true := h ▸ startsWithText_append _ _
  exact absurd hstart (by decide)

/-- Every alias of the items was generated after the first `n`. -/
def freshItems (n : Nat) (items : List FromItem) : Prop :=
  ∀ item ∈ items, ∃ k, n < k ∧ item.aliasName = aliasOf k

theorem freshItems.ne {n : Nat} {items : List FromItem} {qualifier : String}
    (h : freshItems n items) (hqualifier : ∀ k, n < k → qualifier ≠ aliasOf k) :
    ∀ item ∈ items, qualifier ≠ item.aliasName := by
  intro item hitem
  obtain ⟨k, hk, heq⟩ := h item hitem
  rw [heq]
  exact hqualifier k hk

theorem freshItems.cons {n : Nat} {items : List FromItem} (h : freshItems (n + 1) items)
    (table : String) :
    freshItems n ({ table := table, aliasName := aliasOf (n + 1) } :: items) := by
  intro item hitem
  obtain rfl | hitem := List.mem_cons.mp hitem
  · exact ⟨n + 1, n.lt_succ_self, rfl⟩
  · obtain ⟨k, hk, heq⟩ := h item hitem
    exact ⟨k, by omega, heq⟩

/-- The row an alias already stands for; the empty one stands for none. -/
def innerRow (inner : String) (env : RowEnv) : Option Row :=
  if inner = "" then none else some (env inner)

theorem flatMap_filter {α β : Type} (p : α → Bool) (f : α → List β) (as : List α) :
    (as.filter p).flatMap f = as.flatMap fun a => if p a = true then f a else [] := by
  induction as with
  | nil => rfl
  | cons a as ih =>
      rw [List.flatMap_cons, ← ih]
      cases h : p a <;> simp [h]

/-- The predicates on a hop's rows hold exactly of those that are shown and joined. -/
theorem hop_joins_iff {hop : Hop} {inner hopAlias : String} {row : RowEnv}
    (hinner : row inner = env inner) :
    (∀ x ∈ hopJoin hop inner hopAlias ++ hop.subqueryFilter.map (·.lower hopAlias),
      x.truth engine db row = .yes) ↔
        hop.joins engine (innerRow inner env) (row hopAlias) = true := by
  simp only [List.forall_mem_append, List.forall_mem_map, truth_restriction]
  rw [Hop.joins, Bool.and_eq_true, List.all_eq_true, and_comm]
  refine and_congr Iff.rfl ?_
  by_cases hempty : inner = ""
  · simp [innerRow, hempty, hopJoin]
  · simp [innerRow, hempty, hopJoin, hinner]

/-- The rows of the outermost table, over the choices of rows that the joins hold of, are
those the chain leads to. -/
def Joined (inner outer : String) (hops : List Hop) (items : List FromItem)
    (joins : List Expr) : Prop :=
  ∀ (engine : Engine) (db : Database) env,
    ((db.bindings items env).filter fun row =>
        joins.all fun x => x.truth engine db row = .yes).map (· outer) =
      hopRows engine db (innerRow inner env) hops

/-- One more hop, joined further out under a fresh alias. -/
theorem Joined.cons {hop : Hop} {hops : List Hop} {inner outer : String} {n : Nat}
    {items : List FromItem} {first joins : List Expr} (hinner : ∀ k, n < k → inner ≠ aliasOf k)
    (hfirst : first = hopJoin hop inner (aliasOf (n + 1)) ++
      hop.subqueryFilter.map (·.lower (aliasOf (n + 1))))
    (hitems : freshItems (n + 1) items)
    (h : Joined (aliasOf (n + 1)) outer hops items joins) :
    Joined inner outer (hop :: hops)
      ({ table := hop.table, aliasName := aliasOf (n + 1) } :: items) (first ++ joins) := by
  intro engine db env
  have hrows : ∀ hopRow : Row,
      ((db.bindings items (env.bind (aliasOf (n + 1)) hopRow)).filter fun row =>
          (first ++ joins).all fun x => x.truth engine db row = .yes).map (· outer) =
        if hop.joins engine (innerRow inner env) hopRow = true then
          hopRows engine db (some hopRow) hops else [] := by
    intro hopRow
    have hjoins : ∀ row ∈ db.bindings items (env.bind (aliasOf (n + 1)) hopRow),
        (first.all fun x => x.truth engine db row = .yes) =
          hop.joins engine (innerRow inner env) hopRow := by
      intro row hrow
      have hself : row (aliasOf (n + 1)) = hopRow := by
        rw [Database.bindings_frame hrow (hitems.ne fun k => aliasOf_ne_of_lt),
          RowEnv.bind_self]
      have hkept : row inner = env inner := by
        rw [Database.bindings_frame hrow (hitems.ne fun k hk => hinner k (by omega)),
          RowEnv.bind_of_ne (hinner (n + 1) n.lt_succ_self)]
      rw [Bool.eq_iff_iff, List.all_eq_true, ← hself, ← @hop_joins_iff engine db _ _ _ _ _ hkept,
        hfirst]
      simp only [decide_eq_true_eq]
    have hinner := h engine db (env.bind (aliasOf (n + 1)) hopRow)
    rw [innerRow, if_neg (aliasOf_ne_empty _), RowEnv.bind_self] at hinner
    rw [← hinner]
    simp only [List.all_append]
    rw [List.filter_congr fun row hrow => by rw [hjoins row hrow]]
    cases hop.joins engine (innerRow inner env) hopRow <;> simp
  rw [Database.bindings, List.filter_flatMap, List.map_flatMap, hopRows, flatMap_filter]
  exact congrArg (List.flatMap · _) (funext hrows)

/-- Each hop is joined under a fresh alias, and the joins hold exactly along the chain. -/
theorem yields_joinVia_joined (hops : List Hop) {inner : String} (source : List FromItem)
    (preds : List Expr) {s : Nat} (hinner : ∀ k, s < k → inner ≠ aliasOf k)
    (hne : inner ≠ "" ∨ hops ≠ []) :
    Yields (joinVia hops inner source preds) s fun result s' =>
      s ≤ s' ∧ ∃ items joins, result.2.1 = source ++ items ∧ result.2.2 = preds ++ joins ∧
        freshItems s items ∧ Joined inner result.1 hops items joins := by
  induction hops generalizing inner source preds s with
  | nil =>
      have hne : inner ≠ "" := by simpa using hne
      refine Yields.pure ⟨le_rfl, [], [], by simp, by simp, nofun, ?_⟩
      intro engine db env
      simp [hopRows, innerRow, hne]
  | cons hop hops ih =>
      refine (yields_newAlias s).bind fun hopAlias s₁ hnew => ?_
      obtain ⟨rfl, rfl⟩ := hnew
      refine (ih _ _ (fun k => aliasOf_ne_of_lt) (.inl (aliasOf_ne_empty _))).imp fun result s₂ h => ?_
      obtain ⟨hle, items, joins, hsource, hpreds, hitems, hjoined⟩ := h
      refine ⟨by omega, _, _, ?_, ?_, hitems.cons _, hjoined.cons hinner rfl hitems⟩
      · rw [hsource, List.append_assoc, List.singleton_append]
      · rw [hpreds, appendRestrictions]
        simp only [List.append_assoc]

/-- The joins hold only of rows that the chain leads to. -/
def JoinsLeadTo (inner outer : String) (hops : List Hop) (items : List FromItem)
    (joins : List Expr) : Prop :=
  ∀ (engine : Engine) (db : Database) env, ∀ row ∈ db.bindings items env,
    (∀ x ∈ joins, x.truth engine db row = .yes) →
      row outer ∈ hopRows engine db (innerRow inner env) hops

theorem Joined.leadsTo {inner outer : String} {hops : List Hop} {items : List FromItem}
    {joins more : List Expr} (h : Joined inner outer hops items joins) (hmore : joins ⊆ more) :
    JoinsLeadTo inner outer hops items more := by
  intro engine db env row hrow hjoins
  rw [← h engine db env]
  refine List.mem_map_of_mem (List.mem_filter.mpr ⟨hrow, ?_⟩)
  simpa using fun x hx => hjoins x (hmore hx)

/-- Whatever the hops of a chain are joined to, their joins lead to the chain's rows. -/
theorem yields_joinVia_chain {hops : List Hop} (hhops : hops ≠ []) (inner : String)
    (source : List FromItem) (preds : List Expr) (s : Nat) :
    Yields (joinVia hops inner source preds) s fun result _ =>
      ∃ items joins, result.2.1 = source ++ items ∧ result.2.2 = preds ++ joins ∧
        freshItems s items ∧ JoinsLeadTo "" result.1 hops items joins := by
  cases hops with
  | nil => contradiction
  | cons hop hops =>
      refine (yields_newAlias s).bind fun hopAlias s₁ hnew => ?_
      obtain ⟨rfl, rfl⟩ := hnew
      refine (yields_joinVia_joined hops _ _ (fun k => aliasOf_ne_of_lt)
        (.inl (aliasOf_ne_empty _))).imp fun result s₂ h => ?_
      obtain ⟨-, items, joins, hsource, hpreds, hitems, hjoined⟩ := h
      have hempty : ∀ k, s < k → "" ≠ aliasOf k := fun k _ h => aliasOf_ne_empty k h.symm
      refine ⟨{ table := hop.table, aliasName := aliasOf (s + 1) } :: items,
        hopJoin hop inner (aliasOf (s + 1)) ++
          hop.subqueryFilter.map (·.lower (aliasOf (s + 1))) ++ joins, ?_, ?_, hitems.cons _,
        (hjoined.cons hempty rfl hitems).leadsTo (by simp [hopJoin])⟩
      · rw [hsource, List.append_assoc, List.singleton_append]
      · rw [hpreds, appendRestrictions]
        simp only [List.append_assoc]

/-! ## Chains without rows -/

section Absent

variable {rel : Relation} {parent : String} {s : Nat}

/-- A row that satisfies the joins and the correlation shows that the hops are there. -/
theorem hopsPresent_of_joins {outer : String} {items : List FromItem} {joins : List Expr}
    {row : RowEnv} (hparent : ∀ k, parent ≠ aliasOf k) (hitems : freshItems s items)
    (hleads : JoinsLeadTo "" outer rel.via items joins) (hrow : row ∈ db.bindings items env)
    (hjoins : ∀ x ∈ joins, x.truth engine db row = .yes)
    (hcorrelation : engine.compare .eq (row outer rel.targetColumn) (row parent rel.sourceColumn) =
      .yes) :
    hopsPresent engine db rel (env parent) = true := by
  have houter := hleads engine db env row hrow hjoins
  have hkept : row parent = env parent :=
    Database.bindings_frame hrow (hitems.ne fun k _ => hparent k)
  rw [hkept] at hcorrelation
  exact List.any_eq_true.mpr ⟨row outer, houter, by simpa using hcorrelation⟩

/-- Where a hop has no row for the parent, no scope over the chain reaches a row, the one
of the hops alone included. -/
theorem yields_joinHops_absent (hvia : rel.via ≠ []) (hparent : ∀ k, parent ≠ aliasOf k)
    (inner : String) {source : List FromItem} (preds : List Expr)
    (hsource : ∀ item ∈ source, parent ≠ item.aliasName) :
    Yields (joinHops rel parent inner source preds) s fun scope _ =>
      ∀ (engine : Engine) (db : Database) env,
        hopsPresent engine db rel (env parent) = false → scope.rows engine db env = [] := by
  refine (yields_joinVia_chain hvia inner source preds s).bind fun result s' h => ?_
  obtain ⟨items, joins, hitemsOf, hpreds, hitems, hleads⟩ := h
  apply Yields.pure
  intro engine db env habsent
  rw [List.eq_nil_iff_forall_not_mem]
  intro row hrow
  obtain ⟨hbound, hcorrelated⟩ := Scope.mem_rows.mp hrow
  simp only [hitemsOf, Database.bindings_append, List.mem_flatMap] at hbound
  obtain ⟨first, hfirst, hbound⟩ := hbound
  simp only [hpreds, Expr.truth_combine, if_true, Truth.all_eq_yes_iff, List.forall_mem_map,
    List.forall_mem_append, List.forall_mem_singleton, Expr.truth_cmp,
    Expr.eval_joinColumn] at hcorrelated
  obtain ⟨⟨-, hjoins⟩, hcorrelation⟩ := hcorrelated
  have hpresent := hopsPresent_of_joins hparent hitems hleads hbound hjoins hcorrelation
  rw [Database.bindings_frame hfirst hsource, habsent] at hpresent
  cases hpresent

/-- Where a hop has no row for the parent, what the guard protects is NULL. -/
theorem yields_requireHops (hvia : rel.via ≠ []) (hparent : ∀ k, parent ≠ aliasOf k) (e : Expr) :
    Yields (requireHops rel parent e) s fun guarded _ => ∃ g, guarded = .case [(g, e)] none ∧
      ∀ (engine : Engine) (db : Database) env,
        hopsPresent engine db rel (env parent) = false →
          guarded.eval engine db env = .null := by
  have hguard : Yields (hopsExist rel parent) s fun guard _ => ∃ g, guard = some g ∧
      ∀ (engine : Engine) (db : Database) env,
        hopsPresent engine db rel (env parent) = false → g.truth engine db env = .no := by
    rw [hopsExist, if_neg (by simpa using hvia)]
    have hscope : ∀ item ∈ ([] : List FromItem), parent ≠ item.aliasName := by simp
    refine (yields_joinHops_absent hvia hparent "" [] hscope).bind fun scope s' hrows => ?_
    refine Yields.pure ⟨_, rfl, ?_⟩
    intro engine db env habsent
    rw [Scope.truth_exists, hrows engine db env habsent]
    rfl
  refine hguard.bind fun guard s' h => ?_
  obtain ⟨g, rfl, hfalse⟩ := h
  refine Yields.pure ⟨g, rfl, ?_⟩
  intro engine db env habsent
  rw [Expr.eval_case_singleton, hfalse engine db env habsent, if_neg (by decide)]

/-- Where a hop has no row for the parent, the scope over the elements reaches no row. -/
theorem yields_relationScope (hvia : rel.via ≠ []) (hparent : ∀ k, parent ≠ aliasOf k) (n : Nat) :
    Yields (relationScope rel (aliasOf n) parent) s fun scope _ =>
      ∀ (engine : Engine) (db : Database) env,
        hopsPresent engine db rel (env parent) = false → scope.rows engine db env = [] := by
  apply yields_joinHops_absent hvia hparent
  intro item hitem
  obtain rfl := List.mem_singleton.mp hitem
  exact hparent n

/-- Where a hop has no row for the parent, exists and all over the chain are NULL under
both polarities. -/
theorem yields_triStateExists (hvia : rel.via ≠ []) (hparent : ∀ k, parent ≠ aliasOf k)
    (aliasName : String) (body : Expr) (sem : MacroSemantics) (negated : Bool) :
    Yields (triStateExists rel aliasName parent body sem negated) s fun e _ =>
      ∀ (engine : Engine) (db : Database) env,
        hopsPresent engine db rel (env parent) = false → e.eval engine db env = .null := by
  refine (Yields.trivial _ s).bind fun scope s₁ _ => ?_
  refine (yields_requireHops hvia hparent _).bind fun guarded s₂ h => ?_
  obtain ⟨g, -, hnull⟩ := h
  exact Yields.pure fun engine db env habsent => eval_negate_null (hnull engine db env habsent) _

end Absent

end QueryPlanAdapters.Go
