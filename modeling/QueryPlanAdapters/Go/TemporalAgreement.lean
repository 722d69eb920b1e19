import QueryPlanAdapters.Cel.TemporalArithmetic
import QueryPlanAdapters.Go.TemporalLowering

/-!
# Go: comparisons of instants and durations

A comparison of temporal expressions that the translator accepts answers as CEL does exactly
where Go's arithmetic does: its durations wrap where CEL's are errors, no instant on the way
is checked against CEL's range, and a duration up to now is not saturated.
-/

namespace QueryPlanAdapters.Go

open Sql

/-! ## Comparing -/

section Comparing

variable [Double.Rounding] {env : RowEnv} {k k' : Kept} {l r : Val} {le re e : Expr} {op : CmpOp}
  {now : Int} {engine : Engine} {db : Database}

/-- Plain operands are compared as they stand. -/
theorem compareLeaf_plain (hl : PlainOperand l le) (hr : PlainOperand r re) :
    compareLeaf op l r = do
      assertNoMixedNullConventions op le re
      return (definiteEquality op le re).getD (.cmp op le re) := by
  have hmixed : compareMixedTypes op l r = none := by
    rw [compareMixedTypes, hl.scalarKind.1]
  have hplain : comparePlain op l r = do
      assertNoMixedNullConventions op le re
      return (definiteEquality op le re).getD (.cmp op le re) := by
    unfold comparePlain
    rw [hmixed]
    cases hl <;> cases hr <;> cases op <;> rfl
  have hright : compareRight op l r = comparePlain op l r := by
    cases hr with
    | time n => rfl
    | expr hkind hcase hstring => exact distributeMixedCase_of_not_case hcase
  rw [← hplain, ← hright]
  cases hl with
  | time n => cases hr <;> rfl
  | expr hkind hcase hstring =>
      have hleaf : compareLeaf op (.expr le) r = distributeMixedCase (fun arm =>
          if isCase arm then comparePlain op (.expr arm) r
          else compareRight op (.expr arm) r) le := by
        cases hr <;> rfl
      rw [hleaf, distributeMixedCase_of_not_case hcase, hcase, if_neg Bool.false_ne_true]

/-- Plain operands that are present are compared as the database compares their values. -/
theorem truth_compareLeaf_plain (hl : PlainOperand l le) (hr : PlainOperand r re)
    (hlpresent : explicitNullColumn le ≠ none → (le.eval engine db env).isNull = false)
    (hrpresent : explicitNullColumn re ≠ none → (re.eval engine db env).isNull = false)
    (hne : engine.compare .ne (le.eval engine db env) (re.eval engine db env) =
      (engine.compare .eq (le.eval engine db env) (re.eval engine db env)).not)
    (hrun : compareLeaf op l r = .ok e) :
    e.truth engine db env =
      engine.compare op (le.eval engine db env) (re.eval engine db env) := by
  rw [compareLeaf_plain hl hr] at hrun
  obtain ⟨-, -, hrun⟩ := Except.bind_eq_ok_iff.mp hrun
  rw [← Except.ok.inj hrun]
  exact truth_definiteEquality_present hlpresent hrpresent hne

omit [Double.Rounding] in
theorem compare_time_ne (a b : Int) :
    engine.compare .ne (.time a) (.time b) = (engine.compare .eq (.time a) (.time b)).not := by
  show Truth.ofBool _ = (Truth.ofBool _).not
  rw [Truth.not_ofBool]
  rfl

/-- A bound instant, or a stored one. -/
def ReadsInstant (env : RowEnv) (v : Val) (n : Int) : Prop :=
  v = .time n ∨ ∃ c : Column, v = .expr (.column c) ∧ c.type = .timestamp ∧
    env c.qualifier c.name = .time n

omit [Double.Rounding] in
theorem ReadsInstant.plain {n : Int} (h : ReadsInstant env l n) :
    ∃ x, PlainOperand l x ∧ ∀ engine db, x.eval engine db env = .time n := by
  obtain rfl | ⟨c, rfl, htype, hstored⟩ := h
  · exact ⟨_, .time n, fun _ _ => rfl⟩
  · refine ⟨.column c, .expr ?_ rfl ?_, fun _ _ => hstored⟩
    · rw [Expr.scalarKind, Column.scalarKind, htype]
    · simp [isStringOperand, htype]

/-- Instants are compared by time on every database. -/
theorem truth_compareLeaf_instants {a b : Int} (hl : ReadsInstant env l a)
    (hr : ReadsInstant env r b) (hrun : compareLeaf op l r = .ok e) :
    e.truth engine db env = .ofBool (op.test (.finite a) (.finite b)) := by
  obtain ⟨x, hx, hxeval⟩ := hl.plain
  obtain ⟨y, hy, hyeval⟩ := hr.plain
  have hpresent {z : Expr} {n : Int} (hz : z.eval engine db env = .time n) :
      explicitNullColumn z ≠ none → (z.eval engine db env).isNull = false := by
    rw [hz]
    exact fun _ => rfl
  have htruth := truth_compareLeaf_plain hx hy (hpresent (hxeval engine db))
    (hpresent (hyeval engine db)) (by rw [hxeval, hyeval]; exact compare_time_ne a b) hrun
  rw [htruth, hxeval, hyeval]
  rfl

omit [Double.Rounding] in
theorem mirrored_mirrored (op : CmpOp) : op.mirrored.mirrored = op := by
  cases op <;> rfl

omit [Double.Rounding] in
/-- A number moves to the other side of a comparison. -/
theorem test_add_left (op : CmpOp) (a b n : Int) :
    op.test (.finite (a + n : Int)) (.finite b) =
      op.test (.finite a) (.finite (b - n : Int)) :=
  test_finite_iff op (by omega) (by omega)

/-- A column compared with the constant on the other side, the shift of which is negated. -/
theorem truth_compareLeaf_moved {c : Column} {x n d : Int} (htype : c.type = .timestamp)
    (hstored : env c.qualifier c.name = .time x)
    (hrun : compareLeaf op (.expr (.column c)) (.time (n + int64 (-d))) = .ok e) :
    e.truth engine db env = .ofBool (op.test (.finite x) (.finite (n + int64 (-d) : Int))) :=
  truth_compareLeaf_instants (.inr ⟨c, rfl, htype, hstored⟩) (.inl rfl) hrun

/-- A comparison of what is kept. -/
theorem truth_compare_kept (hl : Holds env k l) (hr : Holds env k' r) (hk : k ≠ .foreign)
    (hk' : k' ≠ .foreign) (hrun : compare now op l r = .ok e) :
    e.truth engine db env =
      .ofBool (op.test (.finite (k.compared now k').1) (.finite (k.compared now k').2)) := by
  cases hl with
  | instant a =>
      cases hr with
      | instant b => exact truth_compareLeaf_instants (.inl rfl) (.inl rfl) hrun
      | @column c y htype hstored =>
          exact truth_compareLeaf_instants (.inl rfl) (.inr ⟨c, rfl, htype, hstored⟩) hrun
      | @shifted c y d htype hstored =>
          rw [truth_compareLeaf_moved htype hstored hrun, test_mirrored, test_add_left]
          rfl
      | duration => cases hrun
      | since => cases hrun
      | foreign => exact absurd rfl hk'
  | @duration a hfits =>
      cases hr with
      | duration =>
          obtain rfl := Except.ok.inj hrun
          exact Expr.truth_boolConst _
      | @since c y htype hstored =>
          rw [truth_compareLeaf_moved htype hstored hrun, mirrored_mirrored]
          dsimp only [Kept.compared]
          exact congrArg Truth.ofBool (test_finite_iff op (by omega) (by omega))
      | instant => cases hrun
      | column => cases hrun
      | shifted => cases hrun
      | foreign => exact absurd rfl hk'
  | @column c x htype hstored =>
      cases hr with
      | instant b =>
          exact truth_compareLeaf_instants (.inr ⟨c, rfl, htype, hstored⟩) (.inl rfl) hrun
      | @column c' y htype' hstored' =>
          exact truth_compareLeaf_instants (.inr ⟨c, rfl, htype, hstored⟩)
            (.inr ⟨c', rfl, htype', hstored'⟩) hrun
      | duration => cases hrun
      | shifted => cases hrun
      | since => cases hrun
      | foreign => exact absurd rfl hk'
  | @shifted c x d htype hstored =>
      cases hr with
      | instant b =>
          rw [truth_compareLeaf_moved htype hstored hrun]
          dsimp only [Kept.compared]
          exact congrArg Truth.ofBool (test_finite_iff op (by omega) (by omega))
      | duration => cases hrun
      | column => cases hrun
      | shifted => cases hrun
      | since => cases hrun
      | foreign => exact absurd rfl hk'
  | @since c x htype hstored =>
      cases hr with
      | duration hfits =>
          rw [truth_compareLeaf_moved htype hstored hrun, test_mirrored]
          dsimp only [Kept.compared]
          exact congrArg Truth.ofBool (test_finite_iff op (by omega) (by omega))
      | instant => cases hrun
      | column => cases hrun
      | shifted => cases hrun
      | since => cases hrun
      | foreign => exact absurd rfl hk'
  | foreign => exact absurd rfl hk

/-- A database whose arithmetic always has one answer. -/
def answering (a : SqlValue) : Engine :=
  { Engine.bare with arith := fun _ _ _ => a }

omit [Double.Rounding] in
/-- What is not held back reads an instant, or is arithmetic. -/
theorem Holds.reads (h : Holds env k l) (hplain : isTemporal l = false) :
    ∃ x, PlainOperand l x ∧
      ((k = .foreign ∧ explicitNullColumn x = none ∧
        ∀ a db, x.eval (answering a) db env = a) ∨
      (k ≠ .foreign ∧ ∃ n, ∀ engine db, x.eval engine db env = .time n)) := by
  obtain ⟨x, hx⟩ := h.plain hplain
  refine ⟨x, hx, ?_⟩
  cases h with
  | instant n =>
      cases hx
      exact .inr ⟨by rintro ⟨⟩, n, fun _ _ => rfl⟩
  | column htype hstored =>
      cases hx
      exact .inr ⟨by rintro ⟨⟩, _, fun _ _ => hstored⟩
  | foreign op hl hr =>
      cases hx
      exact .inl ⟨rfl, rfl, fun _ _ => rfl⟩
  | _ => cases hplain

theorem not_isTemporal_of_foreign (hl : Holds env k l) (hr : Holds env k' r)
    (hforeign : k = .foreign ∨ k' = .foreign) (hrun : compare now op l r = .ok e) :
    isTemporal l = false ∧ isTemporal r = false := by
  obtain rfl | rfl := hforeign
  · cases hl
    cases hr <;> first | exact ⟨rfl, rfl⟩ | cases hrun
  · cases hr
    cases hl <;> first | exact ⟨rfl, rfl⟩ | cases hrun

/-- An operator over two instants makes of them what the database's arithmetic does. -/
theorem compare_foreign (hl : Holds env k l) (hr : Holds env k' r)
    (hforeign : k = .foreign ∨ k' = .foreign) (hrun : compare now op l r = .ok e) :
    (∃ engine, ∀ db, e.truth engine db env = .unknown) ∧
      ∃ engine, ∀ db, e.truth engine db env ≠ .unknown := by
  obtain ⟨hlplain, hrplain⟩ := not_isTemporal_of_foreign hl hr hforeign hrun
  obtain ⟨x, hx, hxreads⟩ := hl.reads hlplain
  obtain ⟨y, hy, hyreads⟩ := hr.reads hrplain
  have hleaf : compareLeaf op l r = .ok e := by
    rw [← hrun]
    cases hx <;> cases hy <;> rfl
  -- What either operand reads, once the arithmetic is settled.
  have hanswer (a : SqlValue) (db : Database) {z : Expr} {kept : Kept}
      (hz : (kept = .foreign ∧ explicitNullColumn z = none ∧
          ∀ a db, z.eval (answering a) db env = a) ∨
        (kept ≠ .foreign ∧ ∃ n, ∀ engine db, z.eval engine db env = .time n)) :
      (explicitNullColumn z ≠ none → (z.eval (answering a) db env).isNull = false) ∧
        (z.eval (answering a) db env = a ∨
          kept ≠ .foreign ∧ ∃ n, z.eval (answering a) db env = .time n) := by
    obtain ⟨-, hnone, heval⟩ | ⟨hkept, n, heval⟩ := hz
    · exact ⟨fun h => absurd hnone h, .inl (heval a db)⟩
    · rw [heval]
      exact ⟨fun _ => rfl, .inr ⟨hkept, n, rfl⟩⟩
  constructor
  · refine ⟨answering .null, fun db => ?_⟩
    obtain ⟨hlpresent, hxe⟩ := hanswer .null db hxreads
    obtain ⟨hrpresent, hye⟩ := hanswer .null db hyreads
    have hnull (op : CmpOp) : (answering .null).compare op (x.eval (answering .null) db env)
        (y.eval (answering .null) db env) = .unknown := by
      obtain hxe | ⟨hk, -⟩ := hxe
      · rw [hxe, Engine.compare_null_left]
      · obtain hye | ⟨hk', -⟩ := hye
        · rw [hye, Engine.compare_null_right]
        · exact absurd hforeign (not_or_intro hk hk')
    rw [truth_compareLeaf_plain hx hy hlpresent hrpresent (by rw [hnull, hnull]; rfl) hleaf, hnull]
  · refine ⟨answering (.time 0), fun db => ?_⟩
    obtain ⟨hlpresent, hxe⟩ := hanswer (.time 0) db hxreads
    obtain ⟨hrpresent, hye⟩ := hanswer (.time 0) db hyreads
    have htime : (∃ m, x.eval (answering (.time 0)) db env = .time m) ∧
        ∃ n, y.eval (answering (.time 0)) db env = .time n := by
      constructor
      · obtain hxe | ⟨-, hxe⟩ := hxe
        · exact ⟨0, hxe⟩
        · exact hxe
      · obtain hye | ⟨-, hye⟩ := hye
        · exact ⟨0, hye⟩
        · exact hye
    obtain ⟨⟨m, hm⟩, n, hn⟩ := htime
    rw [truth_compareLeaf_plain hx hy hlpresent hrpresent
      (by rw [hm, hn]; exact compare_time_ne m n) hleaf, hm, hn]
    exact Truth.ofBool_ne_unknown _

end Comparing

/-! ## The nodes of an expression -/

namespace Temporal

variable [Double.Rounding] {m : Mapper}

theorem unlifted_node (t : Temporal) : Unlifted t.node := by
  induction t with
  | add left right ihl ihr => exact ihl.add ihr
  | _ => exact ⟨rfl, rfl, rfl⟩

theorem bareTemporal_none (op : CmpOp) (l r : Temporal) :
    Builder.bareTemporalAgainstTimestamp op l.node r.node m = pure none := by
  cases l <;> cases r <;> rfl

theorem omittedNullOperand_node (op : CmpOp) (l r : Temporal) :
    omittedNullOperand op l.node r.node m = false := by
  unfold omittedNullOperand
  cases l <;> cases r <;> cases op <;> rfl

theorem comparisonPredicate_node {b : Builder} (op : CmpOp) (l r : Temporal) (negated : Bool) :
    b.comparisonPredicate op l.node r.node m negated =
      b.columnFirstComparison op l.node r.node m negated := by
  cases l <;> cases r <;> rfl

end Temporal

/-! ## Agreement -/

section Agreement

variable [Double.Rounding] {m : Mapper} {env : RowEnv} {instants : String → Int} {opts : Options}
  {now : Int} {l r : Temporal} {op : CmpOp}

/-- The lowered comparison compares what is held of its operands. -/
theorem yields_comparison (hl : l.Stored m env instants) (hr : r.Stored m env instants)
    {operator : PlanOperator} (hop : comparisonOps operator = some op) (fuel s : Nat)
    (negated : Bool) :
    Yields ((builder opts now fuel).predicate (.expression operator [l.node, r.node]) m negated) s
      fun e _ => ∃ lv rv x, Holds env (l.kept now instants) lv ∧
        Holds env (r.kept now instants) rv ∧ compare now op lv rv = .ok x ∧ e = negate x negated := by
  refine yields_of_step (fun fuel => ?_) fuel
  rw [predicateStep_unlifted hop l.unlifted_node r.unlifted_node,
    Temporal.comparisonPredicate_node, Builder.columnFirstComparison, Temporal.bareTemporal_none,
    pure_bind]
  dsimp only
  rw [Temporal.omittedNullOperand_node, if_neg Bool.false_ne_true, builder_now]
  refine (yields_temporal hl fuel s).bind fun lv s₁ hlv => ?_
  refine (yields_temporal hr fuel s₁).bind fun rv s₂ hrv => ?_
  refine (Yields.lift (P := fun x => compare now op lv rv = .ok x) fun x hx => hx).bind
    fun x s₃ hx => ?_
  exact Yields.pure ⟨lv, rv, x, hlv, hrv, hx.1, rfl⟩

/-- Instants are compared with instants, and durations with durations. -/
theorem kinds_of_compare {k k' : Kept} {lv rv : Val} {x : Expr} (hl : Holds env k lv)
    (hr : Holds env k' rv) (hk : k ≠ .foreign) (hk' : k' ≠ .foreign)
    (hrun : compare now op lv rv = .ok x) :
    (k.ofKind = IsInstant ∧ k'.ofKind = IsInstant) ∨
      (k.ofKind = IsDuration ∧ k'.ofKind = IsDuration) := by
  cases hl with
  | instant | column | shifted =>
      cases hr with
      | instant | column | shifted => exact .inl ⟨rfl, rfl⟩
      | duration | since => cases hrun
      | foreign => exact absurd rfl hk'
  | duration | since =>
      cases hr with
      | instant | column | shifted => cases hrun
      | duration | since => exact .inr ⟨rfl, rfl⟩
      | foreign => exact absurd rfl hk'
  | foreign => exact absurd rfl hk

omit [Double.Rounding] in
/-- CEL compares two instants, and two durations, by their nanoseconds. -/
theorem comparisonOutcome_counted {o p : Outcome}
    (hkinds : (IsInstant o ∧ IsInstant p) ∨ (IsDuration o ∧ IsDuration p)) (ho : o ≠ .error)
    (hp : p ≠ .error) :
    (comparisonOutcome op o p).asBoolean =
      .ofBool (op.test (.finite (countedNanos o)) (.finite (countedNanos p))) := by
  obtain ⟨rfl | ⟨a, rfl⟩, rfl | ⟨b, rfl⟩⟩ | ⟨rfl | ⟨a, rfl⟩, rfl | ⟨b, rfl⟩⟩ := hkinds <;>
    first | exact absurd rfl ho | exact absurd rfl hp | skip
  · cases op <;> simp [comparisonOutcome, ComparisonOperator.isOrdering, Outcome.asBoolean,
      Value.valuesEqual, countedNanos, ComparisonOperator.test, orderingKeys]
  · cases op <;> simp [comparisonOutcome, ComparisonOperator.isOrdering, Outcome.asBoolean,
      Value.valuesEqual, countedNanos, ComparisonOperator.test, orderingKeys]

omit [Double.Rounding] in
theorem comparisonOutcome_error {o p : Outcome} (h : ¬ (o ≠ .error ∧ p ≠ .error)) :
    (comparisonOutcome op o p).asBoolean = .unknown := by
  cases o with
  | error => rfl
  | value v =>
      cases p with
      | error => rfl
      | value w => exact absurd ⟨by rintro ⟨⟩, by rintro ⟨⟩⟩ h

/-- A comparison of temporal expressions that is accepted answers as CEL does, on every
database, exactly when it does in Go's arithmetic. -/
theorem temporal_comparison_agrees_iff {operator : PlanOperator} {fuel s s' : Nat}
    {negated : Bool} {e : Expr} (hop : comparisonOps operator = some op)
    (hl : l.Stored m env instants) (hr : r.Stored m env instants)
    (hrun : (builder opts now fuel).predicate (.expression operator [l.node, r.node]) m negated s =
      .ok (e, s')) :
    (∀ engine db, e.truth engine db env =
        (comparisonOutcome op (l.outcome now instants)
          (r.outcome now instants)).asBoolean.polarised negated) ↔
      Temporal.ComparesAsCel now instants op l r := by
  obtain ⟨lv, rv, x, hlv, hrv, hx, rfl⟩ := (yields_comparison hl hr hop fuel s negated).of_run hrun
  simp only [truth_negate, Truth.polarised_inj]
  by_cases hfolded : l.kept now instants ≠ .foreign ∧ r.kept now instants ≠ .foreign
  · have htruth (engine : Engine) (db : Database) :=
      @truth_compare_kept _ env _ _ lv rv x op now engine db hlv hrv hfolded.1 hfolded.2 hx
    by_cases hvalues : l.outcome now instants ≠ .error ∧ r.outcome now instants ≠ .error
    · have hkinds : (IsInstant (l.outcome now instants) ∧ IsInstant (r.outcome now instants)) ∨
          (IsDuration (l.outcome now instants) ∧ IsDuration (r.outcome now instants)) := by
        have hlkind := l.ofKind_outcome now instants
        have hrkind := r.ofKind_outcome now instants
        obtain ⟨hlk, hrk⟩ | ⟨hlk, hrk⟩ := kinds_of_compare hlv hrv hfolded.1 hfolded.2 hx
        · rw [hlk] at hlkind
          rw [hrk] at hrkind
          exact .inl ⟨hlkind, hrkind⟩
        · rw [hlk] at hlkind
          rw [hrk] at hrkind
          exact .inr ⟨hlkind, hrkind⟩
      rw [comparisonOutcome_counted hkinds hvalues.1 hvalues.2]
      constructor
      · intro h
        have hsame := h .bare fun _ => []
        rw [htruth, Truth.ofBool_inj] at hsame
        exact ⟨hvalues, hfolded, hsame.symm⟩
      · intro h engine db
        rw [htruth, ← h.unmoved]
    · rw [comparisonOutcome_error hvalues]
      refine iff_of_false (fun h => ?_) fun h => hvalues h.evaluates
      have hunknown := h .bare fun _ => []
      rw [htruth] at hunknown
      exact Truth.ofBool_ne_unknown _ hunknown
  · refine iff_of_false (fun h => ?_) fun h => hfolded h.folded
    have hforeign : l.kept now instants = .foreign ∨ r.kept now instants = .foreign := by
      rw [not_and_or, not_not, not_not] at hfolded
      exact hfolded
    obtain ⟨⟨unknown, hunknown⟩, definite, hdefinite⟩ := compare_foreign hlv hrv hforeign hx
    have hanswer := (h unknown fun _ => []).symm.trans (hunknown fun _ => [])
    exact hdefinite (fun _ => []) ((h definite fun _ => []).trans hanswer)

end Agreement

/-! ## Without wrapping -/

/-- What is kept stands for CEL's nanoseconds, a shift modulo an int64. -/
def Kept.Counts (now : Int) : Kept → Int → Prop
  | instant m, n => m = n
  | duration d, n => d = n ∧ FitsInt64 n
  | stored x, n => x = n
  | shifted x d, n => d = int64 (n - x)
  | since x, n => n = saturatedSince now x
  | foreign, _ => True

/-- Whether no duration that is subtracted is the least int64, which has no negation. -/
def Temporal.Negates [Double.Rounding] (now : Int) (instants : String → Int) : Temporal → Prop
  | sub left right => left.Negates now instants ∧ right.Negates now instants ∧
      countedNanos (right.outcome now instants) ≠ int64Min
  | add left right => left.Negates now instants ∧ right.Negates now instants
  | timeSince x => x.Negates now instants
  | _ => True

section Exact

variable {now : Int} {k k' : Kept} {o p : Outcome}

theorem int64_add_congr {a b : Int} (h : int64 a = int64 b) (c : Int) :
    int64 (a + c) = int64 (b + c) :=
  Int.add_bmod_eq_add_bmod_right c h

theorem checkedDuration_ne_error {n : Int} (h : checkedDuration n ≠ .error) :
    countedNanos (checkedDuration n) = n ∧ FitsInt64 n := by
  rw [checkedDuration] at h ⊢
  split at h
  next hfits =>
    rw [if_pos hfits]
    exact ⟨rfl, fitsInt64_iff.mpr hfits⟩
  next => exact absurd rfl h

theorem checkedInstant_ne_error {n : Int} (h : checkedInstant n ≠ .error) :
    countedNanos (checkedInstant n) = n := by
  rw [checkedInstant] at h ⊢
  split at h
  next hrange => rw [if_pos hrange]; rfl
  next => exact absurd rfl h

theorem counts_shiftBy {d n n' : Int} (hk : k.Counts now n) (hd : int64 d = int64 n')
    (hinstant : ∀ m, k = .instant m → d = n') (hfits : ∀ m, k = .duration m → FitsInt64 (n + n')) :
    (k.shiftBy d).Counts now (n + n') := by
  cases k with
  | instant m =>
      obtain rfl : m = n := hk
      rw [hinstant m rfl]
      exact rfl
  | duration m =>
      obtain ⟨rfl, -⟩ := hk
      have hsum := hfits m rfl
      refine ⟨?_, hsum⟩
      calc int64 (m + d) = int64 (d + m) := by rw [Int.add_comm]
        _ = int64 (n' + m) := int64_add_congr hd m
        _ = int64 (m + n') := by rw [Int.add_comm]
        _ = m + n' := hsum
  | stored x =>
      obtain rfl : x = n := hk
      show int64 d = int64 (x + n' - x)
      rw [hd]
      congr 1
      omega
  | shifted x a =>
      obtain rfl : a = int64 (n - x) := hk
      calc int64 (int64 (n - x) + d) = int64 (n - x + d) := Int.bmod_add_bmod
        _ = int64 (d + (n - x)) := by rw [Int.add_comm]
        _ = int64 (n' + (n - x)) := int64_add_congr hd (n - x)
        _ = int64 (n + n' - x) := by congr 1; omega
  | since => trivial
  | foreign => trivial

/-- CEL's sum adds the nanoseconds of its operands, within its ranges. -/
theorem temporalSum_ne_error (h : temporalSum o p ≠ .error) :
    o ≠ .error ∧ p ≠ .error ∧ countedNanos (temporalSum o p) = countedNanos o + countedNanos p ∧
      (IsDuration o → IsDuration p → FitsInt64 (countedNanos o + countedNanos p)) := by
  unfold temporalSum at h ⊢
  split at h
  · refine ⟨by rintro ⟨⟩, by rintro ⟨⟩, checkedInstant_ne_error h, ?_⟩
    rintro (ho | ⟨d, ho⟩) <;> cases ho
  next d t =>
    refine ⟨by rintro ⟨⟩, by rintro ⟨⟩, ?_, ?_⟩
    · rw [checkedInstant_ne_error h, Int.add_comm]
      rfl
    · rintro - (hp | ⟨d, hp⟩) <;> cases hp
  · obtain ⟨hcount, hfits⟩ := checkedDuration_ne_error h
    exact ⟨by rintro ⟨⟩, by rintro ⟨⟩, hcount, fun _ _ => hfits⟩
  · exact absurd rfl h

theorem temporalDifference_ne_error (hp : IsDuration p) (h : temporalDifference o p ≠ .error) :
    o ≠ .error ∧ p ≠ .error ∧
      countedNanos (temporalDifference o p) = countedNanos o - countedNanos p ∧
      (IsDuration o → FitsInt64 (countedNanos o - countedNanos p)) := by
  unfold temporalDifference at h ⊢
  split at h
  · refine ⟨by rintro ⟨⟩, by rintro ⟨⟩, checkedInstant_ne_error h, ?_⟩
    rintro (ho | ⟨d, ho⟩) <;> cases ho
  · obtain hp | ⟨d, hp⟩ := hp <;> cases hp
  · obtain ⟨hcount, hfits⟩ := checkedDuration_ne_error h
    exact ⟨by rintro ⟨⟩, by rintro ⟨⟩, hcount, fun _ => hfits⟩
  · exact absurd rfl h

theorem neg_fits {d : Int} (hfits : FitsInt64 d) (hd : d ≠ int64Min) : int64 (-d) = -d := by
  rw [fitsInt64_iff] at hfits
  refine fitsInt64_iff.mpr ?_
  have hmax : int64Max = -int64Min - 1 := by decide
  omega

theorem counts_sum (hk : k.Counts now (countedNanos o)) (hk' : k'.Counts now (countedNanos p))
    (ho : k.ofKind o) (hp : k'.ofKind p) (h : temporalSum o p ≠ .error) :
    (k.sum k').Counts now (countedNanos (temporalSum o p)) := by
  obtain ⟨-, -, hcount, hfits⟩ := temporalSum_ne_error h
  rw [hcount]
  have hleft {d : Int} (hd : k = .duration d) (hfits' : ∀ m, k' ≠ .duration m) :
      (k'.shiftBy d).Counts now (countedNanos o + countedNanos p) := by
    subst hd
    obtain ⟨rfl, -⟩ := hk
    rw [Int.add_comm]
    exact counts_shiftBy hk' rfl (fun _ _ => rfl) fun m hm => absurd hm (hfits' m)
  cases k' with
  | duration d =>
      obtain ⟨rfl, -⟩ := hk'
      refine counts_shiftBy hk rfl (fun _ _ => rfl) ?_
      rintro m rfl
      exact hfits ho hp
  | _ =>
      cases k with
      | duration d => exact hleft rfl (by rintro m ⟨⟩)
      | _ => trivial

theorem counts_difference (hk : k.Counts now (countedNanos o))
    (hk' : k'.Counts now (countedNanos p)) (ho : k.ofKind o) (hp : k'.ofKind p)
    (hnegates : countedNanos p ≠ int64Min) (h : temporalDifference o p ≠ .error) :
    (k.difference k').Counts now (countedNanos (temporalDifference o p)) := by
  cases k' with
  | duration d =>
      obtain ⟨-, -, hcount, hfits⟩ := temporalDifference_ne_error hp h
      obtain ⟨rfl, hd⟩ := hk'
      have hneg := neg_fits hd hnegates
      rw [hcount, Int.sub_eq_add_neg]
      refine counts_shiftBy hk (fitsInt64_int64 _) (fun _ _ => hneg) ?_
      rintro m rfl
      exact hfits ho
  | _ => cases k <;> trivial

theorem counts_since (hk : k.Counts now (countedNanos o)) (h : sinceOutcome now o ≠ .error) :
    (k.timeSince now).Counts now (countedNanos (sinceOutcome now o)) := by
  unfold sinceOutcome at h ⊢
  split at h
  next t =>
    cases k with
    | instant m =>
        obtain rfl : m = t := hk
        exact ⟨rfl, fitsInt64_saturatedSince now m⟩
    | stored x =>
        obtain rfl : x = t := hk
        exact rfl
    | _ => trivial
  next => exact absurd rfl h

/-- Where no negation wraps, what is kept stands for CEL's value. -/
theorem Temporal.counts_outcome [Double.Rounding] {instants : String → Int} {t : Temporal}
    (hnegates : t.Negates now instants) (hvalue : t.outcome now instants ≠ .error) :
    (t.kept now instants).Counts now (countedNanos (t.outcome now instants)) := by
  induction t with
  | timestamp literal => exact rfl
  | duration literal => exact ⟨rfl, literal.fits⟩
  | attr reference => exact rfl
  | add left right ihl ihr =>
      obtain ⟨hl, hr, -⟩ := temporalSum_ne_error hvalue
      exact counts_sum (ihl hnegates.1 hl) (ihr hnegates.2 hr) (left.ofKind_outcome now instants)
        (right.ofKind_outcome now instants) hvalue
  | sub left right ihl ihr =>
      have hoperands : left.outcome now instants ≠ .error ∧ right.outcome now instants ≠ .error := by
        rw [outcome] at hvalue
        constructor
        · intro herror
          rw [herror] at hvalue
          exact hvalue rfl
        · intro herror
          rw [herror] at hvalue
          refine hvalue ?_
          cases left.outcome now instants with
          | error => rfl
          | value v => cases v <;> rfl
      exact counts_difference (ihl hnegates.1 hoperands.1) (ihr hnegates.2.1 hoperands.2)
        (left.ofKind_outcome now instants) (right.ofKind_outcome now instants) hnegates.2.2 hvalue
  | timeSince x ih =>
      have hx : x.outcome now instants ≠ .error := by
        intro herror
        rw [outcome, herror] at hvalue
        exact hvalue rfl
      exact counts_since (ih hnegates hx) hvalue

theorem saturatedSince_fits {x : Int} (hfits : FitsInt64 (now - x)) :
    saturatedSince now x = now - x := by
  rw [fitsInt64_iff] at hfits
  rw [saturatedSince, if_neg (by omega), if_neg (by omega)]

theorem isDuration_ne_isInstant : IsDuration ≠ IsInstant := by
  intro h
  have hboth : IsInstant (.value (.duration 0)) := h ▸ .inr ⟨0, rfl⟩
  obtain hboth | ⟨n, hboth⟩ := hboth <;> cases hboth

section Sufficient

variable [Double.Rounding] {instants : String → Int} {t : Temporal} {op : CmpOp}

/-- An instant compares with a constant as in CEL where its shift, if it has one, is within an
int64. -/
theorem Temporal.comparesAsCel_timestamp (c : TimestampLiteral) (hnegates : t.Negates now instants)
    (hvalue : t.outcome now instants ≠ .error) (hkind : (t.kept now instants).ofKind = IsInstant)
    (hfolded : t.kept now instants ≠ .foreign)
    (hshift : ∀ x d, t.kept now instants = .shifted x d →
      FitsInt64 (x - countedNanos (t.outcome now instants))) :
    ComparesAsCel now instants op t (.timestamp c) := by
  refine ⟨⟨hvalue, by rintro ⟨⟩⟩, ⟨hfolded, by rintro ⟨⟩⟩, ?_⟩
  have hcounts := t.counts_outcome hnegates hvalue
  have hc : (Temporal.timestamp c).kept now instants = .instant c.nanos := rfl
  have hn : countedNanos ((Temporal.timestamp c).outcome now instants) = c.nanos := rfl
  dsimp only
  rw [hc, hn]
  generalize countedNanos (t.outcome now instants) = n at *
  cases hkept : t.kept now instants with
  | instant m =>
      rw [hkept] at hcounts
      obtain rfl : m = n := hcounts
      rfl
  | stored x =>
      rw [hkept] at hcounts
      obtain rfl : x = n := hcounts
      rfl
  | shifted x d =>
      rw [hkept] at hcounts
      obtain rfl : d = int64 (n - x) := hcounts
      have hback : int64 (-int64 (n - x)) = x - n := by
        have hfits := hshift x _ hkept
        rw [← hfits, int64, int64, Int.bmod_neg_bmod, int64]
        congr 1
        omega
      dsimp only [Kept.compared]
      rw [hback, Int.sub_sub_self]
  | duration m =>
      rw [hkept] at hkind
      exact absurd hkind isDuration_ne_isInstant
  | since x =>
      rw [hkept] at hkind
      exact absurd hkind isDuration_ne_isInstant
  | foreign => exact absurd hkept hfolded

/-- A duration compares with a constant as in CEL where, if it leads up to now, it is not
saturated and the constant has a negation. -/
theorem Temporal.comparesAsCel_duration (c : DurationLiteral) (hnegates : t.Negates now instants)
    (hvalue : t.outcome now instants ≠ .error) (hkind : (t.kept now instants).ofKind = IsDuration)
    (hfolded : t.kept now instants ≠ .foreign)
    (hsince : ∀ x, t.kept now instants = .since x → FitsInt64 (now - x) ∧ c.nanos ≠ int64Min) :
    ComparesAsCel now instants op t (.duration c) := by
  refine ⟨⟨hvalue, by rintro ⟨⟩⟩, ⟨hfolded, by rintro ⟨⟩⟩, ?_⟩
  have hcounts := t.counts_outcome hnegates hvalue
  have hc : (Temporal.duration c).kept now instants = .duration c.nanos := rfl
  have hn : countedNanos ((Temporal.duration c).outcome now instants) = c.nanos := rfl
  dsimp only
  rw [hc, hn]
  generalize countedNanos (t.outcome now instants) = n at *
  cases hkept : t.kept now instants with
  | duration m =>
      rw [hkept] at hcounts
      obtain ⟨rfl, -⟩ := hcounts
      rfl
  | since x =>
      rw [hkept] at hcounts
      obtain rfl : n = saturatedSince now x := hcounts
      obtain ⟨hfits, hc⟩ := hsince x hkept
      dsimp only [Kept.compared]
      rw [neg_fits c.fits hc, Int.neg_neg, saturatedSince_fits hfits]
  | instant m =>
      rw [hkept] at hkind
      exact absurd hkind.symm isDuration_ne_isInstant
  | stored x =>
      rw [hkept] at hkind
      exact absurd hkind.symm isDuration_ne_isInstant
  | shifted x d =>
      rw [hkept] at hkind
      exact absurd hkind.symm isDuration_ne_isInstant
  | foreign => exact absurd hkept hfolded

end Sufficient

end Exact

/-! Two shifts of 2000000 hours, the sum of which is no int64. -/

section Runs

variable [Double.Rounding] {m : Mapper} {opts : Options} {now : Int} {fuel s : Nat}

omit [Double.Rounding] in
theorem bind_run {α β : Type} {x : Translation α} {f : α → Translation β} {a : α} {s s' : Nat}
    (h : x s = .ok (a, s')) : (x >>= f) s = f a s' := by
  show (x s >>= fun r => f r.1 r.2) = _
  rw [h]
  rfl

omit [Double.Rounding] in
theorem unaryValue_run {b : Builder} {operator : PlanOperator} {operand : Node}
    {lower : Node → Val → Except Failure Val} {v w : Val}
    (hoperand : b.value operand m s = .ok (v, s)) (hlower : lower operand v = .ok w) :
    b.unaryValue operator [operand] m lower s = .ok (w, s) := by
  rw [Builder.unaryValue, bind_run hoperand, hlower]
  rfl

theorem value_duration (literal : DurationLiteral) :
    (builder opts now (fuel + 2)).value (Temporal.duration literal).node m s =
      .ok (.durationConst literal.nanos, s) := by
  show (builder opts now (fuel + 1)).unaryValue .duration [.value (.string literal.text)] m
    (fun _ v => parseDurationValue v) s = _
  exact unaryValue_run rfl literal.spells

theorem value_timestamp (literal : TimestampLiteral) :
    (builder opts now (fuel + 2)).value (Temporal.timestamp literal).node m s =
      .ok (.time literal.nanos, s) := by
  show (builder opts now (fuel + 1)).unaryValue .timestamp [.value (.string literal.text)] m
    (fun operand v => parseTimestamp v (isTemporalEntry m operand)) s = _
  exact unaryValue_run rfl literal.spells

theorem value_add {l r : Temporal} {vl vr v : Val}
    (hl : (builder opts now fuel).value l.node m s = .ok (vl, s))
    (hr : (builder opts now fuel).value r.node m s = .ok (vr, s))
    (hsum : temporalArith .add vl vr = some (.ok v)) :
    (builder opts now (fuel + 1)).value (Temporal.add l r).node m s = .ok (v, s) := by
  show (builder opts now fuel).arithmetic .add .add [l.node, r.node] m s = _
  rw [Builder.arithmetic, bind_run hl, bind_run hr, hsum, isVariable_nodes]
  rfl

theorem predicate_comparison {operator : PlanOperator} {op : CmpOp} {l r : Temporal} {vl vr : Val}
    {e : Expr} (hop : comparisonOps operator = some op)
    (hl : (builder opts now fuel).value l.node m s = .ok (vl, s))
    (hr : (builder opts now fuel).value r.node m s = .ok (vr, s))
    (hcompare : compare now op vl vr = .ok e) :
    (builder opts now (fuel + 1)).predicate (.expression operator [l.node, r.node]) m false s =
      .ok (e, s) := by
  show (builder opts now fuel).predicateStep (.expression operator [l.node, r.node]) m false s = _
  rw [predicateStep_unlifted hop l.unlifted_node r.unlifted_node,
    Temporal.comparisonPredicate_node, Builder.columnFirstComparison, Temporal.bareTemporal_none,
    pure_bind]
  dsimp only
  rw [Temporal.omittedNullOperand_node, if_neg Bool.false_ne_true, bind_run hl, bind_run hr,
    builder_now, hcompare]
  rfl

theorem build_eq_ok {cond : Node} {e : Expr}
    (hname : startsWithText opts.rootTable aliasPrefix = false)
    (hnull : assertNoNullOperands (guardedMapper m) opts.nullRepresentation cond = .ok ())
    (hrun : (builder opts now fuel).predicate cond (rootMapper (guardedMapper m) opts.rootTable)
      false 0 = .ok (e, s)) :
    build fuel now cond m opts = .ok e := by
  unfold build
  rw [hname, if_neg Bool.false_ne_true, hnull]
  dsimp only [bind, Except.bind]
  rw [hrun]
  rfl

end Runs

def reviewEntry : Entry where
  relation := none
  scalarRelation := none
  column := "at"
  qualifier := ""
  valueType := .timestamp
  nullConvention := .omitted

def reviewMapper : Mapper where
  resolve name := if name = "R.attr.at" then some reviewEntry else none

def reviewOptions : Options where
  rootTable := "documents"
  nullRepresentation := .omitted

def reviewRoot : Mapper :=
  rootMapper (guardedMapper reviewMapper) "documents"

def reviewColumn : Column :=
  elementColumn "documents" { reviewEntry with qualifier := "documents" }

theorem longShift_parsed : GoTime.parseDuration "2000000h" = some 7200000000000000000 := by
  decide

def longShift : DurationLiteral where
  text := "2000000h"
  nanos := 7200000000000000000
  spells := by
    rw [parseDurationValue, longShift_parsed]

def nextCentury : TimestampLiteral where
  text := "2100-01-01T00:00:00Z"
  nanos := 4102444800000000000
  spells := rfl

/-- `timestamp(R.attr.at) + duration("2000000h") + duration("2000000h")`. -/
def twiceShifted : Temporal :=
  .add (.add (.attr "R.attr.at") (.duration longShift)) (.duration longShift)

theorem comparesAsCel_timestamp_once :
    Temporal.ComparesAsCel 0 (fun _ => 0) .lt (.add (.attr "R.attr.at") (.duration longShift))
      (.timestamp nextCentury) :=
  Temporal.comparesAsCel_timestamp nextCentury ⟨trivial, trivial⟩ (by rintro ⟨⟩) rfl (by rintro ⟨⟩)
    (by rintro _ _ ⟨⟩; rfl)

theorem comparesAsCel_duration_since :
    Temporal.ComparesAsCel 0 (fun _ => 0) .lt (.timeSince (.attr "R.attr.at"))
      (.duration longShift) :=
  Temporal.comparesAsCel_duration longShift trivial (by rintro ⟨⟩) rfl (by rintro ⟨⟩)
    (by rintro _ ⟨⟩; exact ⟨rfl, by decide⟩)

/-- A row of the first day of 2000. -/
def reviewRow : RowEnv := fun _ _ => .time 946684800000000000

def reviewInstants (_ : String) : Int := 946684800000000000

theorem twiceShifted_stored : twiceShifted.Stored reviewRoot reviewRow reviewInstants := by
  refine ⟨⟨fun entry hentry => ?_, trivial⟩, trivial⟩
  obtain rfl := Option.some.inj hentry
  exact ⟨rfl, fun _ => rfl⟩

/-- The constant that two shifts lead to. -/
def wrappedBound : Expr :=
  .cmp .lt (.column reviewColumn) (.lit (.time 8149188873709551616))

theorem twiceShifted_lowered :
    (builder reviewOptions 0 5).predicate
        (.expression .lt [twiceShifted.node, (Temporal.timestamp nextCentury).node]) reviewRoot
        false 0 = .ok (wrappedBound, 0) := by
  have hattr : (builder reviewOptions 0 2).value (Temporal.attr "R.attr.at").node reviewRoot 0 =
      .ok (.expr (.column reviewColumn), 0) := rfl
  have honce : (builder reviewOptions 0 3).value
      (Temporal.add (.attr "R.attr.at") (.duration longShift)).node reviewRoot 0 =
        .ok (.timestampShift (.column reviewColumn) 7200000000000000000, 0) :=
    value_add hattr (value_duration longShift) rfl
  have htwice : (builder reviewOptions 0 4).value twiceShifted.node reviewRoot 0 =
      .ok (.timestampShift (.column reviewColumn) (-4046744073709551616), 0) :=
    value_add honce (value_duration longShift) rfl
  exact predicate_comparison rfl htwice (value_timestamp nextCentury) rfl

/-- The instant lies in 2456, and the lowered comparison with 2100 is TRUE. -/
theorem twiceShifted_wraps :
    build 5 0 (.expression .lt [twiceShifted.node, (Temporal.timestamp nextCentury).node])
        reviewMapper reviewOptions = .ok wrappedBound ∧
      comparisonOutcome .lt (twiceShifted.outcome 0 reviewInstants)
        ((Temporal.timestamp nextCentury).outcome 0 reviewInstants) = .value (.bool false) ∧
      ∀ engine db, wrappedBound.truth engine db reviewRow = .yes := by
  refine ⟨?_, rfl, fun engine db => ?_⟩
  · exact build_eq_ok rfl rfl twiceShifted_lowered
  · rw [wrappedBound, Expr.truth_cmp]
    show Truth.ofBool (ComparisonOperator.test (.finite 946684800000000000)
      (.finite 8149188873709551616) .lt) = .yes
    norm_num [ComparisonOperator.test]

theorem temporal_comparison_agrees_iff_wraps :
    (∀ engine db, wrappedBound.truth engine db reviewRow =
        (comparisonOutcome .lt (twiceShifted.outcome 0 reviewInstants)
          ((Temporal.timestamp nextCentury).outcome 0 reviewInstants)).asBoolean.polarised false) ↔
      Temporal.ComparesAsCel 0 reviewInstants .lt twiceShifted (.timestamp nextCentury) :=
  temporal_comparison_agrees_iff rfl twiceShifted_stored trivial twiceShifted_lowered

end QueryPlanAdapters.Go
