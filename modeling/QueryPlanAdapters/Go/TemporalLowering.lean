import QueryPlanAdapters.Go.Temporals
import QueryPlanAdapters.Go.DivisionAgreement

/-!
# Go: lowering instants and durations

The translator holds of a temporal expression what Go's arithmetic keeps of it, over every row
that stores the instants of its columns. An operator over two instants is handed to the
database.
-/

namespace QueryPlanAdapters.Go

open Sql

/-! ## Wrapping -/

/-- Whether a number is an int64. -/
def FitsInt64 (n : Int) : Prop :=
  int64 n = n

theorem fitsInt64_iff {n : Int} : FitsInt64 n ↔ int64Min ≤ n ∧ n ≤ int64Max := by
  rw [FitsInt64, int64, Int.bmod_eq_iff (by decide), int64Min, int64Max]
  omega

theorem fitsInt64_int64 (n : Int) : FitsInt64 (int64 n) :=
  Int.bmod_bmod

theorem fitsInt64_saturatedSince (now timestamp : Int) :
    FitsInt64 (saturatedSince now timestamp) := by
  rw [fitsInt64_iff, saturatedSince]
  have h : int64Min ≤ int64Max := by decide
  split
  · omega
  · split <;> omega

theorem fitsInt64_parseDuration [Double.Rounding] {text : String} {nanos : Int}
    (h : GoTime.parseDuration text = some nanos) : FitsInt64 nanos := by
  rw [GoTime.parseDuration] at h
  dsimp only at h
  split at h
  · obtain rfl := Option.some.inj h
    rfl
  · split at h
    · cases h
    · obtain ⟨d, -, h⟩ := Option.bind_eq_some_iff.mp h
      split at h
      · obtain rfl := Option.some.inj h
        exact fitsInt64_int64 _
      · split at h
        · cases h
        · obtain rfl := Option.some.inj h
          exact fitsInt64_int64 _

theorem DurationLiteral.fits [Double.Rounding] (literal : DurationLiteral) :
    FitsInt64 literal.nanos := by
  have hspells := literal.spells
  rw [parseDurationValue] at hspells
  split at hspells
  next nanos hnanos =>
    obtain rfl := Val.durationConst.inj (Except.ok.inj hspells)
    exact fitsInt64_parseDuration hnanos
  next => cases hspells

/-! ## Lowered values -/

/-- What the translator holds of an expression that Go's arithmetic keeps. -/
inductive Holds (env : RowEnv) : Kept → Val → Prop
  | instant (n : Int) : Holds env (.instant n) (.time n)
  | duration {d : Int} (hfits : FitsInt64 d) : Holds env (.duration d) (.durationConst d)
  | column {c : Column} {x : Int} (htype : c.type = .timestamp)
      (hstored : env c.qualifier c.name = .time x) :
      Holds env (.stored x) (.expr (.column c))
  | shifted {c : Column} {x : Int} (d : Int) (htype : c.type = .timestamp)
      (hstored : env c.qualifier c.name = .time x) :
      Holds env (.shifted x d) (.timestampShift (.column c) d)
  | since {c : Column} {x : Int} (htype : c.type = .timestamp)
      (hstored : env c.qualifier c.name = .time x) :
      Holds env (.since x) (.timeSince (.column c))
  | foreign (op : ArithOp) {l r : Expr} (hl : l.scalarKind = none) (hr : r.scalarKind = none) :
      Holds env .foreign (.expr (.arith op l r))

section Lowered

variable {env : RowEnv} {k k' : Kept} {l r v : Val} {d : Int}

variable {op : ArithOp} {out : Except Failure Val}

theorem holds_shiftBy (h : Holds env k v) (hfits : FitsInt64 d) :
    (shiftBy d v).Returns (Holds env (k.shiftBy d)) := by
  cases h with
  | instant n =>
      rw [shiftBy]
      split
      · exact Except.returns_ok.mpr (.instant (n + d))
      · exact Except.returns_throw _
  | duration => exact Except.returns_ok.mpr (.duration (fitsInt64_int64 _))
  | column htype hstored =>
      rw [shiftBy, isTimestampAttribute, if_pos (decide_eq_true htype), Kept.shiftBy, hfits]
      exact Except.returns_ok.mpr (.shifted d htype hstored)
  | shifted a htype hstored => exact Except.returns_ok.mpr (.shifted (int64 (a + d)) htype hstored)
  | since htype hstored => exact Except.returns_throw _
  | foreign op hl hr => exact Except.returns_throw _

/-- What `+` and `-` make of a temporal operand. -/
theorem temporalArith_cases (h : temporalArith op l r = some out) :
    (∃ d, r = .durationConst d ∧ op = .add ∧ out = shiftBy d l) ∨
      (∃ d, r = .durationConst d ∧ op = .sub ∧ out = shiftBy (int64 (-d)) l) ∨
      (∃ d, l = .durationConst d ∧ op = .add ∧ (∀ d', r ≠ .durationConst d') ∧ out = shiftBy d r) ∨
      out = errorf temporalArithMessage [] := by
  unfold temporalArith at h
  split at h
  · cases h
  · obtain rfl := Option.some.inj h
    split
    · exact .inr (.inl ⟨_, rfl, rfl, rfl⟩)
    · exact .inl ⟨_, rfl, rfl, rfl⟩
    next hother => exact .inr (.inr (.inl ⟨_, rfl, rfl, hother, rfl⟩))
    · exact .inr (.inr (.inr rfl))

theorem holds_add (hl : Holds env k l) (hr : Holds env k' r)
    (hout : temporalArith .add l r = some out) : out.Returns (Holds env (k.sum k')) := by
  obtain ⟨d, rfl, -, rfl⟩ | ⟨d, -, hop, -⟩ | ⟨d, rfl, -, hother, rfl⟩ | rfl := temporalArith_cases hout
  · cases hr with
    | duration hfits => exact holds_shiftBy hl hfits
  · cases hop
  · have hsum : k.sum k' = k'.shiftBy d := by
      cases hl
      cases hr with
      | @duration d' hfits => exact absurd rfl (hother d')
      | _ => rfl
    rw [hsum]
    cases hl with
    | duration hfits => exact holds_shiftBy hr hfits
  · exact Except.returns_throw _

theorem holds_sub (hl : Holds env k l) (hr : Holds env k' r)
    (hout : temporalArith .sub l r = some out) : out.Returns (Holds env (k.difference k')) := by
  obtain ⟨d, -, hop, -⟩ | ⟨d, rfl, -, rfl⟩ | ⟨d, -, hop, -⟩ | rfl := temporalArith_cases hout
  · cases hop
  · cases hr
    exact holds_shiftBy hl (fitsInt64_int64 _)
  · cases hop
  · exact Except.returns_throw _

theorem not_isTemporal_of_temporalArith (h : temporalArith op l r = none) :
    isTemporal l = false ∧ isTemporal r = false := by
  unfold temporalArith at h
  split at h
  next hplain => simpa using hplain
  next => cases h

/-- A bound instant, or an expression that SQL compares as it stands. -/
inductive PlainOperand : Val → Expr → Prop
  | time (n : Int) : PlainOperand (.time n) (.lit (.time n))
  | expr {x : Expr} (hkind : x.scalarKind = none) (hcase : isCase x = false)
      (hstring : isStringOperand (.expr x) = false) : PlainOperand (.expr x) x

/-- What is not held back is compared as it stands. -/
theorem Holds.plain (h : Holds env k v) (hplain : isTemporal v = false) :
    ∃ x, PlainOperand v x := by
  cases h with
  | instant n => exact ⟨_, .time n⟩
  | column htype hstored =>
      refine ⟨_, .expr ?_ rfl ?_⟩
      · rw [Expr.scalarKind, Column.scalarKind, htype]
      · simp [isStringOperand, htype]
  | foreign op hl hr =>
      refine ⟨_, .expr ?_ rfl rfl⟩
      rw [Expr.scalarKind, hl, hr]
      rfl
  | _ => cases hplain

theorem PlainOperand.isStringOperand {x : Expr} (h : PlainOperand v x) :
    isStringOperand v = false := by
  cases h with
  | time n => rfl
  | expr hkind hcase hstring => exact hstring

theorem PlainOperand.scalarKind {x : Expr} (h : PlainOperand v x) :
    v.scalarKind = none ∧ x.scalarKind = none := by
  cases h with
  | time n => exact ⟨rfl, rfl⟩
  | expr hkind hcase hstring => exact ⟨hkind, hkind⟩

/-- An operator over two instants is left to the database. -/
theorem holds_numericArith [Double.Rounding] (hl : Holds env k l) (hr : Holds env k' r)
    (hplain : temporalArith op l r = none) (hop : op = .add ∨ op = .sub) :
    (numericArith op l r).Returns (Holds env .foreign) := by
  obtain ⟨hltemporal, hrtemporal⟩ := not_isTemporal_of_temporalArith hplain
  obtain ⟨x, hx⟩ := hl.plain hltemporal
  obtain ⟨y, hy⟩ := hr.plain hrtemporal
  have hlowered : numericArith op l r = .ok (.expr (.arith op x y)) := by
    obtain rfl | rfl := hop <;> cases hx <;> cases hy <;> rfl
  rw [hlowered]
  exact Except.returns_ok.mpr (.foreign op hx.scalarKind.2 hy.scalarKind.2)

theorem holds_addValue [Double.Rounding] (hl : Holds env k l) (hr : Holds env k' r)
    (hplain : temporalArith .add l r = none) : (addValue l r).Returns (Holds env .foreign) := by
  obtain ⟨hltemporal, hrtemporal⟩ := not_isTemporal_of_temporalArith hplain
  obtain ⟨x, hx⟩ := hl.plain hltemporal
  obtain ⟨y, hy⟩ := hr.plain hrtemporal
  have hlist : ∀ values, l ≠ .constant (.array values) := by
    rintro values rfl
    cases hl
  rw [addValue_of_not_array r hlist, hx.isStringOperand, hy.isStringOperand, Bool.or_self, if_neg Bool.false_ne_true]
  split
  · exact Except.returns_throw _
  · exact holds_numericArith hl hr hplain (.inl rfl)

/-- When an operator over two instants is left to the database, none of them is a duration. -/
theorem kept_foreign (hl : Holds env k l) (hr : Holds env k' r)
    (hplain : temporalArith op l r = none) :
    k.sum k' = .foreign ∧ k.difference k' = .foreign := by
  obtain ⟨hltemporal, hrtemporal⟩ := not_isTemporal_of_temporalArith hplain
  cases hl <;> cases hltemporal <;> cases hr <;> cases hrtemporal <;> exact ⟨rfl, rfl⟩

end Lowered

/-! ## Lowering an expression -/

namespace Temporal

variable [Double.Rounding]

/-- Whether the attributes are columns, and those that hold instants have them in the row. -/
def Stored (m : Mapper) (env : RowEnv) (instants : String → Int) : Temporal → Prop
  | timestamp _ | duration _ => True
  | attr reference => ∀ entry, m.resolve reference = some entry → entry.isColumn = true ∧
      (entry.valueType = .timestamp →
        env entry.qualifier entry.column = .time (instants reference))
  | add left right | sub left right =>
      left.Stored m env instants ∧ right.Stored m env instants
  | timeSince x => x.Stored m env instants

end Temporal

section Lowering

variable [Double.Rounding] {m : Mapper} {env : RowEnv} {instants : String → Int} {opts : Options}
  {now : Int} {v : Val}

theorem holds_timeSince (x : Temporal) (h : Holds env (x.kept now instants) v) :
    (timeSince now x.node v).Returns (Holds env ((x.kept now instants).timeSince now)) := by
  generalize hkept : x.kept now instants = k at h
  cases h with
  | instant n => exact Except.returns_ok.mpr (.duration (fitsInt64_saturatedSince now n))
  | column htype hstored =>
      unfold timeSince
      split
      next hv => cases hv
      next hv hnode =>
        obtain rfl := Val.expr.inj hv
        exact Except.returns_ok.mpr (.since htype hstored)
      next => exact Except.returns_throw _
  | foreign op hl hr =>
      cases x with
      | timestamp => cases hkept
      | attr => cases hkept
      | _ => exact Except.returns_throw _
  | _ => exact Except.returns_throw _

theorem yields_literal (v : Literal) (fuel s : Nat) :
    Yields ((builder opts now fuel).value (.value v) m) s fun w _ => w = .constant v := by
  cases fuel with
  | zero => exact Yields.throw _
  | succ fuel => exact Yields.pure rfl

omit [Double.Rounding] in
/-- A function of one operand lowers what the operand is lowered to. -/
theorem yields_unaryValue {b : Builder} {operator : PlanOperator} {operand : Node}
    {lower : Node → Val → Except Failure Val} {P Q : Val → Prop} {s : Nat}
    (hoperand : Yields (b.value operand m) s fun v _ => P v)
    (hlower : ∀ v, P v → (lower operand v).Returns Q) :
    Yields (b.unaryValue operator [operand] m lower) s fun v _ => Q v :=
  hoperand.bind fun v _ hv => (Yields.lift (hlower v hv)).imp fun _ _ h => h.1

/-- An attribute, which `timestamp()` unwraps where it is stored as an instant. -/
theorem yields_stored {reference : String} (hstored : (Temporal.attr reference).Stored m env instants)
    (fuel s : Nat) :
    Yields ((builder opts now fuel).value (.var reference) m) s fun v _ =>
      (parseTimestamp v (isTemporalEntry m (.var reference))).Returns
        (Holds env (.stored (instants reference))) := by
  cases fuel with
  | zero => exact Yields.throw _
  | succ fuel =>
      show Yields (resolveVariable reference m) s _
      cases hentry : m.resolve reference with
      | none =>
          rw [resolveVariable, hentry]
          exact yields_errorf _ _
      | some entry =>
          obtain ⟨hcolumn, hinstant⟩ := hstored entry hentry
          rw [resolveVariable_column hentry hcolumn, isTemporalEntry, hentry, Option.any_some]
          refine Yields.pure ?_
          by_cases htype : entry.valueType = .timestamp
          · rw [decide_eq_true htype]
            exact Except.returns_ok.mpr (.column htype (hinstant htype))
          · rw [decide_eq_false htype]
            exact Except.returns_throw _

theorem yields_arithmetic_temporal {b : Builder} (operator : PlanOperator) {op : ArithOp}
    {left right : Node} {kl kr k : Kept} {s : Nat}
    (hvariable : (left.isVariable || right.isVariable) = false) (hop : op = .add ∨ op = .sub)
    (hl : ∀ s, Yields (b.value left m) s fun v _ => Holds env kl v)
    (hr : ∀ s, Yields (b.value right m) s fun v _ => Holds env kr v)
    (hk : k = if op = .add then kl.sum kr else kl.difference kr) :
    Yields (b.arithmetic operator op [left, right] m) s fun v _ => Holds env k v := by
  rw [Builder.arithmetic]
  refine (hl s).bind fun l s₁ hl => (hr s₁).bind fun r s₂ hr => ?_
  cases hshifted : temporalArith op l r with
  | some shifted =>
      have hreturns : shifted.Returns (Holds env k) := by
        obtain rfl | rfl := hop
        · rw [hk]
          exact holds_add hl hr hshifted
        · rw [hk]
          exact holds_sub hl hr hshifted
      have hrefused : (left.isVariable || right.isVariable) = false := hvariable
      obtain rfl | rfl := hop
      · refine (Yields.lift hreturns).bind fun v s₃ hv => ?_
        rw [hrefused]
        exact Yields.pure hv.1
      · refine (Yields.lift hreturns).bind fun v s₃ hv => ?_
        rw [hrefused]
        exact Yields.pure hv.1
  | none =>
      obtain ⟨hsum, hdifference⟩ := kept_foreign hl hr hshifted
      obtain rfl | rfl := hop
      · rw [hk, if_pos rfl, hsum]
        show Yields (liftM (addValue l r)) s₂ _
        exact (Yields.lift (holds_addValue hl hr hshifted)).imp fun _ _ h => h.1
      · rw [hk, if_neg (by rintro ⟨⟩), hdifference]
        show Yields (liftM (numericArith .sub l r)) s₂ _
        exact (Yields.lift (holds_numericArith hl hr hshifted (.inr rfl))).imp fun _ _ h => h.1

omit [Double.Rounding] in
theorem isVariable_nodes [Double.Rounding] (l r : Temporal) :
    (l.node.isVariable || r.node.isVariable) = false := by
  cases l <;> cases r <;> rfl

/-- What a temporal expression is lowered to holds what Go's arithmetic keeps of it. -/
theorem yields_temporal {t : Temporal} (hstored : t.Stored m env instants) (fuel s : Nat) :
    Yields ((builder opts now fuel).value t.node m) s fun v _ =>
      Holds env (t.kept now instants) v := by
  induction t generalizing fuel s with
  | timestamp literal =>
      cases fuel with
      | zero => exact Yields.throw _
      | succ fuel =>
          show Yields ((builder opts now fuel).unaryValue .timestamp [.value (.string literal.text)] m
            fun operand v => parseTimestamp v (isTemporalEntry m operand)) s _
          refine yields_unaryValue (yields_literal _ fuel s) ?_
          rintro v rfl
          rw [show isTemporalEntry m (.value (.string literal.text)) = false from rfl, literal.spells]
          exact Except.returns_ok.mpr (.instant literal.nanos)
  | duration literal =>
      cases fuel with
      | zero => exact Yields.throw _
      | succ fuel =>
          show Yields ((builder opts now fuel).unaryValue .duration [.value (.string literal.text)] m
            fun _ v => parseDurationValue v) s _
          refine yields_unaryValue (yields_literal _ fuel s) ?_
          rintro v rfl
          rw [literal.spells]
          exact Except.returns_ok.mpr (.duration literal.fits)
  | attr reference =>
      cases fuel with
      | zero => exact Yields.throw _
      | succ fuel =>
          show Yields ((builder opts now fuel).unaryValue .timestamp [.var reference] m
            fun operand v => parseTimestamp v (isTemporalEntry m operand)) s _
          exact yields_unaryValue (yields_stored hstored fuel s) fun v hv => hv
  | add left right ihl ihr =>
      cases fuel with
      | zero => exact Yields.throw _
      | succ fuel =>
          exact yields_arithmetic_temporal .add (isVariable_nodes left right) (.inl rfl) (ihl hstored.1 fuel) (ihr hstored.2 fuel) rfl
  | sub left right ihl ihr =>
      cases fuel with
      | zero => exact Yields.throw _
      | succ fuel =>
          exact yields_arithmetic_temporal .sub (isVariable_nodes left right) (.inr rfl) (ihl hstored.1 fuel) (ihr hstored.2 fuel) rfl
  | timeSince x ih =>
      cases fuel with
      | zero => exact Yields.throw _
      | succ fuel =>
          show Yields ((builder opts now fuel).unaryValue .timeSince [x.node] m
            fun operand v => timeSince (builder opts now fuel).now operand v) s _
          rw [builder_now]
          exact yields_unaryValue (ih hstored fuel s) fun v hv => holds_timeSince x hv

end Lowering

end QueryPlanAdapters.Go
