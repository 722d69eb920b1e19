import QueryPlanAdapters.SpringData.Condition

/-!
# Spring Data: what the subqueries compute

A subquery ranges over the rows that a relation's chain leads to. Its aggregate is a
macro of the values that the body takes on them: the greatest score decides `exists` and
`all`, and a sum poisoned by an UNKNOWN body is the strict count.
-/

namespace QueryPlanAdapters.SpringData

open Sql

/-! ## Aggregates of truth values -/

/-- What an element scores by the value of its body. -/
def score (trueScore falseScore : Int) : Truth → Int
  | .yes => trueScore
  | .no => falseScore
  | .unknown => 1

/-- The greatest of some values, when none exceeds it. -/
theorem max?_getD_eq {values : List Int} {m : Int} (hle : ∀ x ∈ values, x ≤ m)
    (hmem : m ∈ values ∨ (values = [] ∧ m = 0)) : values.max?.getD 0 = m := by
  obtain hmem | ⟨rfl, rfl⟩ := hmem
  · rw [(List.max?_eq_some_iff).mpr ⟨hmem, hle⟩, Option.getD_some]
  · rfl

theorem maximum_map_some (values : List Int) : maximum (values.map some) = values.max? := by
  simp [maximum, List.filterMap_map]

/-- The greatest score is that of the best value present, and 0 of nothing. -/
theorem greatest_score (bodies : List Truth) {trueScore falseScore : Int} {best worst : Truth}
    (hscores : score trueScore falseScore best = 2) (hworst : score trueScore falseScore worst = 0)
    (hcases : ∀ t : Truth, t = best ∨ t = worst ∨ t = .unknown) :
    (bodies.map (score trueScore falseScore)).max?.getD 0 =
      if best ∈ bodies then 2 else if .unknown ∈ bodies then 1 else 0 := by
  have hunknown : score trueScore falseScore .unknown = 1 := rfl
  apply max?_getD_eq
  · intro x hx
    obtain ⟨t, ht, rfl⟩ := List.mem_map.mp hx
    obtain rfl | rfl | rfl := hcases t
    · rw [hscores, if_pos ht]
    · rw [hworst]
      split
      · decide
      · split <;> decide
    · rw [hunknown, if_pos ht]
      split <;> decide
  · split
    next hbest => exact .inl (List.mem_map.mpr ⟨best, hbest, hscores⟩)
    next hbest =>
    split
    next hmem => exact .inl (List.mem_map.mpr ⟨.unknown, hmem, hunknown⟩)
    next hmem =>
    cases bodies with
    | nil => exact .inr ⟨rfl, rfl⟩
    | cons t bodies =>
        refine .inl (List.mem_map.mpr ⟨worst, ?_, hworst⟩)
        obtain rfl | rfl | rfl := hcases t
        · exact absurd List.mem_cons_self hbest
        · exact List.mem_cons_self
        · exact absurd List.mem_cons_self hmem

/-- The greatest score, NULL when it is that of an UNKNOWN body. -/
def macroScore (trueScore falseScore : Int) (bodies : List Truth) : Option Int :=
  (some ((bodies.map (score trueScore falseScore)).max?.getD 0)).filter (· ≠ 1)

/-- A score of 2 is an `exists`. -/
theorem macroScore_exists (bodies : List Truth) :
    compareInts .eq (macroScore 2 0 bodies) (some 2) = Truth.any bodies := by
  have hgreatest := @greatest_score bodies 2 0 .yes .no rfl rfl (by intro t; cases t <;> simp)
  rw [macroScore, hgreatest, Truth.any_eq_ite]
  split
  · rfl
  · split <;> rfl

/-- A score of 0, where a false body scores 2, is an `all`. -/
theorem macroScore_all (bodies : List Truth) :
    compareInts .eq (macroScore 0 2 bodies) (some 0) = Truth.all bodies := by
  have hgreatest := @greatest_score bodies 0 2 .no .yes rfl rfl (by intro t; cases t <;> simp)
  rw [macroScore, hgreatest, Truth.all_eq_ite]
  split
  · rfl
  · split <;> rfl

/-- 1 where a body is UNKNOWN, and else 0. -/
theorem greatest_undetermined (bodies : List Truth) :
    (bodies.map (score 0 0)).max?.getD 0 = if .unknown ∈ bodies then 1 else 0 := by
  apply max?_getD_eq
  · intro x hx
    obtain ⟨t, ht, rfl⟩ := List.mem_map.mp hx
    cases t with
    | unknown => rw [if_pos ht, score]
    | _ => split <;> decide
  · split
    next hmem => exact .inl (List.mem_map.mpr ⟨.unknown, hmem, rfl⟩)
    next hmem =>
    cases bodies with
    | nil => exact .inr ⟨rfl, rfl⟩
    | cons t bodies =>
        refine .inl (List.mem_map.mpr ⟨t, List.mem_cons_self, ?_⟩)
        cases t with
        | unknown => exact absurd List.mem_cons_self hmem
        | _ => rfl

/-- 0 when every body is determined, and NULL when one is not. -/
def poison (bodies : List Truth) : Option Int :=
  if .unknown ∈ bodies then none else some 0

theorem poison_eq (bodies : List Truth) :
    (some ((bodies.map (score 0 0)).max?.getD 0)).filter (· ≠ 1) = poison bodies := by
  rw [greatest_undetermined, poison]
  split <;> rfl

/-- The bodies that are true, one apiece. -/
theorem total_matches (bodies : List Truth) :
    (total (bodies.map fun t => some (if t = .yes then (1 : Int) else 0))).getD 0 =
      bodies.count .yes := by
  have hsum : (bodies.map fun t => if t = .yes then (1 : Int) else 0).sum = bodies.count .yes := by
    induction bodies with
    | nil => rfl
    | cons t bodies ih =>
        rw [List.map_cons, List.sum_cons, ih, List.count_cons]
        cases t <;> simp [add_comm]
  have hpresent : (bodies.map fun t => some (if t = .yes then (1 : Int) else 0)).filterMap id =
      bodies.map fun t => if t = .yes then (1 : Int) else 0 := by
    simp [List.filterMap_map]
  rw [total, hpresent, ← hsum]
  cases bodies with
  | nil => rfl
  | cons t bodies => rfl

theorem poisoned_count (bodies : List Truth) :
    ((some (bodies.count .yes : Int)).bind fun a => (poison bodies).map fun b => a + b) =
      (strictCount bodies).map Int.ofNat := by
  rw [poison, strictCount, Option.bind_some]
  split
  · rfl
  · simp

/-- A strict count of 1 is an `exists_one`. -/
theorem strictCount_exactlyOne (bodies : List Truth) :
    compareInts .eq ((strictCount bodies).map Int.ofNat) (some 1) = Truth.exactlyOne bodies := by
  rw [strictCount, Truth.exactlyOne]
  split
  · rfl
  · simp [compareInts, ComparisonOperator.test, Double.eq_finite]

/-! ## Subqueries -/

section

variable {schema : Schema} {engine : Engine} {store : Store schema} {env : store.Env}

/-- The values of a predicate over a subquery's rows. -/
def bodyTruths (engine : Engine) (store : Store schema) (body : Predicate)
    (rows : List store.Env) : List Truth :=
  rows.map fun row => body.truth engine store row

theorem value_score (body : Predicate) (trueScore falseScore : Int) :
    (Count.case [(body, .literal (some trueScore)),
        (TriPredicate.not body, .literal (some falseScore))]
      (.literal (some 1))).value engine store env =
      some (score trueScore falseScore (body.truth engine store env)) := by
  rw [value_case_cons, value_case_cons, value_case_nil]
  simp only [TriPredicate.not, truth_not, truth_and, List.map_cons, List.map_nil, Truth.all_cons,
    Truth.all_nil, Truth.and_yes, value_literal, Truth.not_eq_yes_iff]
  cases body.truth engine store env <;> rfl

theorem value_scores (body : Predicate) (trueScore falseScore : Int) (rows : List store.Env) :
    maximum (rows.map fun row => (Count.case [(body, .literal (some trueScore)),
        (TriPredicate.not body, .literal (some falseScore))]
      (.literal (some 1))).value engine store row) =
      ((bodyTruths engine store body rows).map (score trueScore falseScore)).max? := by
  rw [← maximum_map_some, bodyTruths, List.map_map, List.map_map]
  exact congrArg maximum (List.map_congr_left fun row _ => value_score body _ _)

theorem macroScoreSubquery_value (source : Source) (body : Predicate)
    (trueScore falseScore : Int) :
    (macroScoreSubquery source body trueScore falseScore).value engine store env =
      macroScore trueScore falseScore (bodyTruths engine store body (store.rows source env)) := by
  rw [macroScoreSubquery, value_subquery, value_nullif, value_coalesce, value_max, value_scores]
  rfl

theorem undeterminedPoisonTerm_value (body : Predicate) (rows : List store.Env) :
    (undeterminedPoisonTerm body).value engine store rows =
      poison (bodyTruths engine store body rows) := by
  rw [undeterminedPoisonTerm, value_nullif, value_coalesce, value_max, value_scores]
  exact poison_eq _

theorem undeterminedPoisonSubquery_value (source : Source) (body : Predicate) :
    (undeterminedPoisonSubquery source body).value engine store env =
      poison (bodyTruths engine store body (store.rows source env)) := by
  rw [undeterminedPoisonSubquery, value_subquery, undeterminedPoisonTerm_value]

theorem strictMatchCountSubquery_value (source : Source) (body : Predicate) :
    (strictMatchCountSubquery source body).value engine store env =
      (strictCount (bodyTruths engine store body (store.rows source env))).map Int.ofNat := by
  have hmatched : ∀ row, (Count.case [(body, .literal (some 1))] (.literal (some 0))).value
      engine store row = some (if body.truth engine store row = .yes then (1 : Int) else 0) := by
    intro row
    rw [value_case_cons, value_case_nil]
    split <;> rfl
  have htotal : (total ((store.rows source env).map fun row =>
      some (if body.truth engine store row = .yes then (1 : Int) else 0))).getD 0 =
        ((bodyTruths engine store body (store.rows source env)).count .yes : Int) := by
    rw [← total_matches, bodyTruths, List.map_map]
    rfl
  rw [strictMatchCountSubquery, value_subquery, value_plus, value_coalesce, value_sum,
    undeterminedPoisonTerm_value, ← poisoned_count]
  simp only [hmatched, htotal]

@[simp] theorem truth_anyElement (source : Source) :
    (anyElement source).truth engine store env = .ofBool !(store.rows source env).isEmpty := by
  rw [anyElement, truth_exists]
  simp only [truth_conjunction, decide_true]
  cases store.rows source env <;> rfl

/-! ## Chains -/

/-- Every row that a chain leads to is of the entity that the schema names. -/
theorem entity_reach {hops : List String} {row last : store.Row} {element : schema.Entity}
    (hjoined : schema.joinedThrough (store.entity row) hops = .ok element)
    (hlast : last ∈ store.reach row hops) : store.entity last = element := by
  induction hops generalizing row with
  | nil =>
      obtain rfl : last = row := by simpa [Store.reach, reach] using hlast
      exact Except.ok.inj hjoined
  | cons hop hops ih =>
      obtain ⟨next, hnext, hlast⟩ := List.mem_flatMap.mp hlast
      rw [Schema.joinedThrough, store.entity_related row hop next hnext] at hjoined
      exact ih hjoined hlast

theorem rows_of_row {source : Source} {row : store.Row} (hrow : env[source.level]? = some row) :
    store.rows source env = (store.reach row source.chain).map fun last => env ++ [last] := by
  rw [Store.rows, hrow]

variable {selectInvocation : Bool} {scope : Scope schema} {ref : ResolvedRelation schema}

theorem chainSubquery_eq_ok {cs : ChainSubquery schema}
    (h : chainSubquery selectInvocation scope ref = .ok cs) :
    cs.source = ⟨ref.owner.level, ref.joins⟩ ∧
      schema.joinedThrough ref.owner.entity ref.joins = .ok cs.element := by
  rw [chainSubquery, Except.bind_unit_eq_ok_iff, Except.bind_unit_eq_ok_iff,
    Except.bind_eq_ok_iff] at h
  obtain ⟨-, -, element, helement, hcs⟩ := h
  obtain rfl := Except.ok.inj hcs
  exact ⟨rfl, helement⟩

/-- The hops of a longer chain are a chain of their own. -/
theorem leadingHops_eq {owner : Scope schema} {head next : Relation} {rest : List Relation} :
    (ResolvedRelation.mk owner head (next :: rest)).leadingHops =
      (ResolvedRelation.mk owner head (next :: rest).dropLast).joins := by
  simp [ResolvedRelation.leadingHops, ResolvedRelation.joins, ResolvedRelation.chain,
    List.map_dropLast]

/-- A guarded value is NULL exactly when a leading hop is absent. -/
theorem requireLeadingHops_value {value count : Count} {row : store.Row}
    (h : requireLeadingHops selectInvocation scope ref value = .ok count)
    (hrow : env[ref.owner.level]? = some row) :
    count.value engine store env =
      if (store.reach row ref.leadingHops).isEmpty then none else value.value engine store env := by
  obtain ⟨owner, head, rest⟩ := ref
  cases rest with
  | nil =>
      obtain rfl := Except.ok.inj h
      rfl
  | cons next rest =>
      rw [requireLeadingHops, leadingHopsExist, if_neg (by simp [ResolvedRelation.isChained]),
        bind_assoc, Except.bind_eq_ok_iff] at h
      obtain ⟨hops, hhops, hcount⟩ := h
      obtain ⟨hsource, -⟩ := chainSubquery_eq_ok hhops
      obtain rfl := Except.ok.inj hcount
      have hguard : (anyElement hops.source).truth engine store env =
          .ofBool !(store.reach row (ResolvedRelation.mk owner head (next :: rest)).leadingHops).isEmpty := by
        rw [truth_anyElement, hsource, rows_of_row hrow, List.isEmpty_map, leadingHops_eq]
      rw [value_case_cons, value_case_nil, hguard, value_literal]
      cases (store.reach row (ResolvedRelation.mk owner head (next :: rest)).leadingHops).isEmpty <;>
        rfl

end

end QueryPlanAdapters.SpringData
