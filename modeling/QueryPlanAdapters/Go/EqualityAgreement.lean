import QueryPlanAdapters.Go.Equality

/-!
# Go: where an equality of scalars is CEL's

Which of an operand's two NULLs the definite equality, the NULL test and the distributed
comparison take it for decides where the answer is CEL's.
-/

namespace QueryPlanAdapters.Go

open Sql

/-! ## Where the answer is CEL's -/

section Answers

/-- Whether an equality of two operands as they stand is answered as CEL answers it, by
their values in the database and in CEL. -/
def AnswersEquality (engine : Engine) (m : Mapper) (sending : Sending) (l r : ScalarOperand)
    (x y : SqlValue) (o p : Outcome) : Prop :=
  if l.isNull && r.isNull then True
  else if l.isNull then p ≠ .error
  else if r.isNull then o ≠ .error
  else if kindsDiffer (l.kind m) (r.kind m) then
    ((x.isNull && !l.isExplicit m) || (y.isNull && !r.isExplicit m)) = true →
      o = .error ∨ p = .error
  else
    match x.isNull, y.isNull with
    | false, false =>
        engine.compare .eq x y = .ofBool ((sending.value x).valuesEqual (sending.value y))
    | true, false => l.isExplicit m = true ∨ o = .error
    | false, true => r.isExplicit m = true ∨ p = .error
    | true, true => l.isExplicit m = r.isExplicit m ∧
        (l.isExplicit m = true ∨ o = .error ∨ p = .error)

variable {engine : Engine} {db : Database} {m : Mapper} {truthOf : Node → Truth} {env : RowEnv}
  {sending : Sending} {l r op op' : ScalarOperand} {x y : SqlValue} {o p : Outcome}

theorem comparisonOutcome_eq_error :
    (comparisonOutcome .eq o p).asBoolean = .unknown ↔ o = .error ∨ p = .error := by
  cases o with
  | error => exact iff_of_true rfl (.inl rfl)
  | value v =>
      cases p with
      | error => exact iff_of_true rfl (.inr rfl)
      | value w =>
          have hdefinite : (comparisonOutcome .eq (.value v) (.value w)).asBoolean =
              .ofBool (v.valuesEqual w) := by
            simp [comparisonOutcome, ComparisonOperator.isOrdering, Outcome.asBoolean]
          rw [hdefinite]
          simp

theorem comparisonOutcome_eq_values (v w : Value) :
    (comparisonOutcome .eq (.value v) (.value w)).asBoolean = .ofBool (v.valuesEqual w) := by
  simp [comparisonOutcome, ComparisonOperator.isOrdering, Outcome.asBoolean]

theorem valuesEqual_null_value (y : SqlValue) :
    Value.null.valuesEqual (sending.value y) = y.isNull := by
  cases y <;> rfl

theorem valuesEqual_value_null (x : SqlValue) :
    (sending.value x).valuesEqual .null = x.isNull := by
  cases x <;> rfl

/-- A column that declares its NULL to be a null is never an error. -/
theorem outcome_explicit (h : op.isExplicit m = true) :
    op.outcome engine db m truthOf env sending =
      .value (sending.value (op.stored engine db m truthOf env)) := by
  cases op with
  | reference name =>
      rw [ScalarOperand.isExplicit, Option.any_eq_true] at h
      obtain ⟨entry, hentry, h⟩ := h
      obtain ⟨hcolumn, hexplicit⟩ : entry.isColumn = true ∧ entry.nullConvention = .explicit := by
        simpa using h
      have hscalar : entry.scalarRelation = none := (Entry.isColumn_iff.mp hcolumn).2
      rw [ScalarOperand.outcome, ScalarOperand.stored, ScalarOperand.readingOf, hentry,
        Option.map_some, Option.elim_some, Option.bind_some, Sending.read, Sending.stored, hscalar]
      show sending.outcome entry.nullConvention _ = _
      rw [Sending.outcome, hexplicit, if_neg (by simp [NullConvention.under])]
      rfl
  | _ => cases h

/-- Two operands of different types: unequal, save two explicit nulls. -/
theorem mixedTruth_iff (hx : Carries sending x o) (hy : Carries sending y p)
    (hlexplicit : l.isExplicit m = true → o = .value (sending.value x))
    (hrexplicit : r.isExplicit m = true → p = .value (sending.value y))
    (hkinds : x.isNull = false → y.isNull = false →
      (sending.value x).valuesEqual (sending.value y) = false) :
    (if (x.isNull && !l.isExplicit m) || (y.isNull && !r.isExplicit m) then Truth.unknown
      else .ofBool (x.isNull && y.isNull)) = (comparisonOutcome .eq o p).asBoolean ↔
        (((x.isNull && !l.isExplicit m) || (y.isNull && !r.isExplicit m)) = true →
          o = .error ∨ p = .error) := by
  cases hunknown : (x.isNull && !l.isExplicit m) || (y.isNull && !r.isExplicit m) with
  | true =>
      rw [if_pos rfl, eq_comm, comparisonOutcome_eq_error]
      simp
  | false =>
      refine iff_of_true ?_ nofun
      obtain ⟨hxknown, hyknown⟩ := Bool.or_eq_false_iff.mp hunknown
      have hvalue : ∀ {op : ScalarOperand} {x : SqlValue} {o : Outcome}, Carries sending x o →
          (op.isExplicit m = true → o = .value (sending.value x)) →
          (x.isNull && !op.isExplicit m) = false → o = .value (sending.value x) := by
        intro op x o hx hexplicit hknown
        cases hnull : x.isNull with
        | false => exact hx.present hnull
        | true =>
            rw [hnull, Bool.true_and, Bool.not_eq_false'] at hknown
            exact hexplicit hknown
      obtain rfl := hvalue hx hlexplicit hxknown
      obtain rfl := hvalue hy hrexplicit hyknown
      rw [if_neg Bool.false_ne_true, comparisonOutcome_eq_values]
      congr 1
      cases hxnull : x.isNull with
      | true =>
          rw [SqlValue.eq_null_of_isNull hxnull]
          exact (valuesEqual_null_value y).symm
      | false =>
          cases hynull : y.isNull with
          | true =>
              rw [SqlValue.eq_null_of_isNull hynull]
              exact ((valuesEqual_value_null x).trans hxnull).symm
          | false => exact (hkinds hxnull hynull).symm

/-- Two operands within one type, or of unknown types. -/
theorem plainTruth_iff (hx : Carries sending x o) (hy : Carries sending y p)
    (hlexplicit : l.isExplicit m = true → o = .value (sending.value x))
    (hrexplicit : r.isExplicit m = true → p = .value (sending.value y)) :
    (if l.isExplicit m && r.isExplicit m && x.isNull && y.isNull then Truth.yes
      else if (l.isExplicit m && x.isNull) || (r.isExplicit m && y.isNull) then .no
      else engine.compare .eq x y) = (comparisonOutcome .eq o p).asBoolean ↔
        match x.isNull, y.isNull with
        | false, false =>
            engine.compare .eq x y = .ofBool ((sending.value x).valuesEqual (sending.value y))
        | true, false => l.isExplicit m = true ∨ o = .error
        | false, true => r.isExplicit m = true ∨ p = .error
        | true, true => l.isExplicit m = r.isExplicit m ∧
            (l.isExplicit m = true ∨ o = .error ∨ p = .error) := by
  cases hxnull : x.isNull with
  | false =>
      obtain rfl := hx.present hxnull
      cases hynull : y.isNull with
      | false =>
          obtain rfl := hy.present hynull
          simp [comparisonOutcome_eq_values]
      | true =>
          obtain rfl := SqlValue.eq_null_of_isNull hynull
          cases hr : r.isExplicit m with
          | true =>
              obtain rfl := hrexplicit hr
              refine iff_of_true ?_ (.inl rfl)
              rw [comparisonOutcome_eq_values]
              simp only [Bool.and_false, Bool.false_eq_true, if_false, Bool.and_true, Bool.or_true,
                if_true]
              exact (congrArg Truth.ofBool ((valuesEqual_value_null x).trans hxnull)).symm
          | false =>
              rw [Engine.compare_null_right]
              simp only [Bool.and_false, Bool.false_and, Bool.or_self, Bool.false_eq_true, if_false]
              rw [eq_comm, comparisonOutcome_eq_error]
              simp
  | true =>
      obtain rfl := SqlValue.eq_null_of_isNull hxnull
      cases hynull : y.isNull with
      | false =>
          obtain rfl := hy.present hynull
          cases hl : l.isExplicit m with
          | true =>
              obtain rfl := hlexplicit hl
              refine iff_of_true ?_ (.inl rfl)
              rw [comparisonOutcome_eq_values]
              simp only [Bool.and_false, Bool.false_eq_true, if_false, Bool.and_true, Bool.or_false,
                if_true]
              exact (congrArg Truth.ofBool ((valuesEqual_null_value y).trans hynull)).symm
          | false =>
              rw [Engine.compare_null_left]
              simp only [Bool.and_false, Bool.false_and, Bool.or_self, Bool.false_eq_true, if_false]
              rw [eq_comm, comparisonOutcome_eq_error]
              simp
      | true =>
          obtain rfl := SqlValue.eq_null_of_isNull hynull
          cases hl : l.isExplicit m with
          | true =>
              obtain rfl := hlexplicit hl
              cases hr : r.isExplicit m with
              | true =>
                  obtain rfl := hrexplicit hr
                  exact iff_of_true rfl ⟨rfl, .inl rfl⟩
              | false =>
                  refine iff_of_false ?_ nofun
                  obtain rfl | rfl := hy.absent <;> nofun
          | false =>
              cases hr : r.isExplicit m with
              | true =>
                  obtain rfl := hrexplicit hr
                  refine iff_of_false ?_ nofun
                  obtain rfl | rfl := hx.absent <;> nofun
              | false =>
                  rw [Engine.compare_null_left]
                  simp only [Bool.and_true, Bool.and_false, Bool.or_self, Bool.false_eq_true,
                    if_false, true_and, false_or]
                  rw [eq_comm, comparisonOutcome_eq_error]

/-- Two operands as they stand. -/
theorem equalityTruth_iff (hx : Carries sending x o) (hy : Carries sending y p)
    (hlexplicit : l.isExplicit m = true → o = .value (sending.value x))
    (hrexplicit : r.isExplicit m = true → p = .value (sending.value y))
    (hlnull : l.isNull = true → o = .value .null) (hrnull : r.isNull = true → p = .value .null)
    (hkinds : kindsDiffer (l.kind m) (r.kind m) = true → x.isNull = false → y.isNull = false →
      (sending.value x).valuesEqual (sending.value y) = false) :
    equalityTruth engine (l.standing m) (r.standing m) x y = (comparisonOutcome .eq o p).asBoolean ↔
      AnswersEquality engine m sending l r x y o p := by
  rw [equalityTruth, AnswersEquality, l.standing_isNull, r.standing_isNull, l.standing_kind,
    r.standing_kind, l.standing_isExplicit, r.standing_isExplicit]
  cases hl : l.isNull with
  | true =>
      obtain rfl := hlnull hl
      cases hr : r.isNull with
      | true =>
          obtain rfl := hrnull hr
          exact iff_of_true rfl trivial
      | false =>
          simp only [Bool.and_false, Bool.false_eq_true, if_false, if_true]
          cases p with
          | error => exact iff_of_false (by simp [comparisonOutcome, Outcome.asBoolean]) (by simp)
          | value v =>
              refine iff_of_true ?_ (by rintro ⟨⟩)
              rw [comparisonOutcome_eq_values]
              obtain hv | ⟨-, hv⟩ := hy
              · obtain rfl := Outcome.value.inj hv
                rw [valuesEqual_null_value]
              · cases hv
  | false =>
      cases hr : r.isNull with
      | true =>
          obtain rfl := hrnull hr
          simp only [Bool.and_true, Bool.false_eq_true, if_false, if_true]
          cases o with
          | error => exact iff_of_false (by simp [comparisonOutcome, Outcome.asBoolean]) (by simp)
          | value v =>
              refine iff_of_true ?_ (by rintro ⟨⟩)
              rw [comparisonOutcome_eq_values]
              obtain hv | ⟨-, hv⟩ := hx
              · obtain rfl := Outcome.value.inj hv
                rw [valuesEqual_value_null]
              · cases hv
      | false =>
          simp only [Bool.and_false, Bool.false_eq_true, if_false]
          cases hdiffer : kindsDiffer (l.kind m) (r.kind m) with
          | true => exact mixedTruth_iff hx hy hlexplicit hrexplicit (hkinds hdiffer)
          | false => exact plainTruth_iff hx hy hlexplicit hrexplicit

/-- The chosen arm has the operand's value, and no arm is an error. -/
theorem chosen_values :
    (op.chosen m truthOf = none → op.outcome engine db m truthOf env sending = .error) ∧
      ∀ op', op.chosen m truthOf = some op' →
        op'.stored engine db m truthOf env = op.stored engine db m truthOf env ∧
          op'.outcome engine db m truthOf env sending =
            op.outcome engine db m truthOf env sending ∧
          (op.WellFormed m → op'.WellFormed m) ∧
          (op.Keeps engine db m truthOf env → op'.Keeps engine db m truthOf env) := by
  induction op with
  | ternary cond whenTrue whenFalse iht ihf =>
      rw [ScalarOperand.chosen]
      split
      next =>
        rw [ScalarOperand.outcome, ScalarOperand.stored, ScalarOperand.WellFormed,
          ScalarOperand.Keeps]
        cases truthOf cond with
        | yes =>
            refine ⟨iht.1, fun op' h => ?_⟩
            obtain ⟨hstored, houtcome, hform, hkeeps⟩ := iht.2 op' h
            exact ⟨hstored, houtcome, fun h => hform h.1, fun h => hkeeps (h.1 rfl)⟩
        | no =>
            refine ⟨ihf.1, fun op' h => ?_⟩
            obtain ⟨hstored, houtcome, hform, hkeeps⟩ := ihf.2 op' h
            exact ⟨hstored, houtcome, fun h => hform h.2, fun h => hkeeps (h.2 rfl)⟩
        | unknown => exact ⟨fun _ => rfl, by rintro _ ⟨⟩⟩
      next =>
        refine ⟨by rintro ⟨⟩, fun op' h => ?_⟩
        obtain rfl := Option.some.inj h
        exact ⟨rfl, rfl, id, id⟩
  | _ =>
      refine ⟨by rintro ⟨⟩, fun op' h => ?_⟩
      obtain rfl := Option.some.inj h
      exact ⟨rfl, rfl, id, id⟩

/-- An equality is answered as CEL answers it exactly where the arms that it compares are. -/
theorem loweredTruth_iff (hconcat : StandardConcat engine) (hlform : l.WellFormed m)
    (hrform : r.WellFormed m) (hlkeeps : l.Keeps engine db m truthOf env)
    (hrkeeps : r.Keeps engine db m truthOf env) :
    loweredTruth engine db m truthOf env l r =
        (comparisonOutcome .eq (l.outcome engine db m truthOf env sending)
          (r.outcome engine db m truthOf env sending)).asBoolean ↔
      ∀ l' r', compared m truthOf l r = some (l', r') →
        AnswersEquality engine m sending l' r' (l'.stored engine db m truthOf env)
          (r'.stored engine db m truthOf env) (l'.outcome engine db m truthOf env sending)
          (r'.outcome engine db m truthOf env sending) := by
  have hpair : ∀ {l r : ScalarOperand}, l.WellFormed m → r.WellFormed m →
      l.Keeps engine db m truthOf env → r.Keeps engine db m truthOf env →
        (equalityTruth engine (l.standing m) (r.standing m) (l.stored engine db m truthOf env)
            (r.stored engine db m truthOf env) =
          (comparisonOutcome .eq (l.outcome engine db m truthOf env sending)
            (r.outcome engine db m truthOf env sending)).asBoolean ↔
          AnswersEquality engine m sending l r (l.stored engine db m truthOf env)
            (r.stored engine db m truthOf env) (l.outcome engine db m truthOf env sending)
            (r.outcome engine db m truthOf env sending)) := by
    intro l r hlform hrform hlkeeps hrkeeps
    have hnull : ∀ {op : ScalarOperand}, op.isNull = true →
        op.outcome engine db m truthOf env sending = .value .null := by
      intro op h
      cases op with
      | literal v => cases v <;> first | rfl | cases h
      | _ => cases h
    apply equalityTruth_iff (ScalarOperand.carries_outcome hconcat hlform hlkeeps)
      (ScalarOperand.carries_outcome hconcat hrform hrkeeps) outcome_explicit outcome_explicit
      hnull hnull
    intro hdiffer hx hy
    cases hlk : l.kind m with
    | none => rw [hlk] at hdiffer; cases hdiffer
    | some lk =>
        cases hrk : r.kind m with
        | none => rw [hlk, hrk] at hdiffer; cases hdiffer
        | some rk =>
            have hne : lk ≠ rk := by
              rw [hlk, hrk] at hdiffer
              simpa [kindsDiffer] using hdiffer
            exact ScalarOperand.valuesEqual_of_kinds hne
              (ScalarOperand.kind_holds hconcat hlform hlkeeps hlk)
              (ScalarOperand.kind_holds hconcat hrform hrkeeps hrk) hx hy
  rw [loweredTruth, compared]
  obtain ⟨hlnone, hlsome⟩ := @chosen_values engine db m truthOf env sending l
  obtain ⟨hrnone, hrsome⟩ := @chosen_values engine db m truthOf env sending r
  cases hl : l.chosen m truthOf with
  | none =>
      rw [hlnone hl]
      exact iff_of_true rfl (by rintro _ _ ⟨⟩)
  | some l' =>
      obtain ⟨hlstored, hloutcome, hlform', hlkeeps'⟩ := hlsome l' hl
      rw [← hloutcome, Option.bind_some]
      cases htern : l'.isTernary with
      | true =>
          rw [if_pos rfl, Option.elim_some]
          refine (hpair (hlform' hlform) hrform (hlkeeps' hlkeeps) hrkeeps).trans ?_
          constructor
          · intro h l'' r'' heq
            obtain ⟨rfl, rfl⟩ := Prod.mk.inj (Option.some.inj heq)
            exact h
          · intro h
            exact h l' r rfl
      | false =>
          rw [if_neg Bool.false_ne_true]
          cases hr : r.chosen m truthOf with
          | none =>
              rw [hrnone hr]
              refine iff_of_true ?_ (by rintro _ _ ⟨⟩)
              rw [eq_comm, Option.map_none, Option.elim_none, comparisonOutcome_eq_error]
              exact .inr rfl
          | some r' =>
              obtain ⟨hrstored, hroutcome, hrform', hrkeeps'⟩ := hrsome r' hr
              rw [← hroutcome, Option.map_some, Option.elim_some]
              refine (hpair (hlform' hlform) (hrform' hrform) (hlkeeps' hlkeeps)
                (hrkeeps' hrkeeps)).trans ?_
              constructor
              · intro h l'' r'' heq
                obtain ⟨rfl, rfl⟩ := Prod.mk.inj (Option.some.inj heq)
                exact h
              · intro h
                exact h l' r' rfl

end Answers

/-! ## The translation -/

section Nodes

variable {m : Mapper} {op l r : ScalarOperand}

theorem mapLiteralLookup_none [Double.Rounding] {b : Builder} (op : CmpOp)
    (l r : ScalarOperand) : b.mapLiteralLookup op l.node r.node m = pure none := by
  cases l <;> cases r <;> rfl

theorem yieldsTimestamp_node (op : ScalarOperand) : yieldsTimestamp op.node = false := by
  induction op with
  | concat left right ihl ihr => exact ihl
  | _ => rfl

theorem bareTemporal_none [Double.Rounding] (op : CmpOp) (l r : ScalarOperand) :
    Builder.bareTemporalAgainstTimestamp op l.node r.node m = pure none := by
  have hother : ∀ (name : String) (o : ScalarOperand),
      Builder.bareTemporalAgainstTimestamp op (.var name) o.node m = pure none := by
    intro name o
    show (if !yieldsTimestamp o.node then pure none else _) = pure none
    rw [yieldsTimestamp_node]
    rfl
  cases l with
  | reference name => exact hother name r
  | _ =>
      cases r with
      | reference name => exact hother name _
      | _ => rfl

/-- The operands of a comparison, the attribute before a literal. -/
def oriented (l r : ScalarOperand) : ScalarOperand × ScalarOperand :=
  match l, r with
  | .literal v, .reference name => (.reference name, .literal v)
  | l, r => (l, r)

/-- Whether an attribute whose NULL is missing is compared with null. -/
def testsOmitted (m : Mapper) (l r : ScalarOperand) : Bool :=
  match l, r with
  | .reference name, .literal .null => (m.resolve name).any (·.nullConvention = .omitted)
  | _, _ => false

theorem omittedNullOperand_nodes {op : CmpOp} (hop : op.isOrdering = false)
    (l r : ScalarOperand) : omittedNullOperand op l.node r.node m = testsOmitted m l r := by
  unfold omittedNullOperand
  rw [hop, Bool.not_false, Bool.true_and]
  cases l with
  | reference name =>
      cases r with
      | literal v => cases v <;> rfl
      | _ => rfl
  | _ => cases r <;> rfl

end Nodes

section Translation

variable [Double.Rounding] {engine : Engine} {db : Database} {m : Mapper} {truthOf : Node → Truth}
  {n : Nat} {env : RowEnv} {opts : Options} {now : Int} {op : CmpOp} {l r : ScalarOperand}

/-- What the equality of two operands, the attribute first, is lowered to. -/
def orientedTruth (engine : Engine) (db : Database) (m : Mapper) (truthOf : Node → Truth)
    (env : RowEnv) (l r : ScalarOperand) : Truth :=
  if testsOmitted m l r then
    if (l.stored engine db m truthOf env).isNull then .unknown else .no
  else loweredTruth engine db m truthOf env l r

theorem yields_columnFirst_scalars (hlform : l.WellFormed m) (hrform : r.WellFormed m)
    (halias : m.avoidsAliases n)
    (hlconds : ∀ cond ∈ l.conditions, LowersCondition engine db m truthOf n env opts now cond)
    (hrconds : ∀ cond ∈ r.conditions, LowersCondition engine db m truthOf n env opts now cond)
    (hop : op.isOrdering = false) (hnegated : StandardInequality engine) (fuel : Nat) {s : Nat}
    (hs : n ≤ s) (negated : Bool) :
    Yields ((builder opts now fuel).columnFirstComparison op l.node r.node m negated) s
      fun e s' => s ≤ s' ∧ ∀ env', SameRows n env env' → e.truth engine db env' =
        ((orientedTruth engine db m truthOf env l r).polarised (op = .ne)).polarised negated := by
  rw [Builder.columnFirstComparison, bareTemporal_none, pure_bind]
  dsimp only
  rw [omittedNullOperand_nodes hop, orientedTruth]
  cases htests : testsOmitted m l r with
  | true =>
      rw [if_pos rfl, if_pos rfl]
      refine (yields_value hlform halias hlconds fuel hs).bind fun lv s₁ h => ?_
      obtain ⟨hle, le, hl, rfl⟩ := h
      rw [asExpr_val hl hlform]
      refine Yields.pure ⟨hle, fun env' hrows => ?_⟩
      rw [truth_negate, Truth.polarised_inj, truth_omittedNullComparison,
        hl.eval_eq halias hrows]
      cases (l.stored engine db m truthOf env).isNull with
      | true => exact (Truth.polarised_unknown _).symm
      | false => cases op <;> rfl
  | false =>
      rw [if_neg Bool.false_ne_true, if_neg Bool.false_ne_true]
      refine (yields_value hlform halias hlconds fuel hs).bind fun lv s₁ h => ?_
      obtain ⟨hle, le, hl, rfl⟩ := h
      refine (yields_value hrform halias hrconds fuel (hs.trans hle)).bind fun rv s₂ h => ?_
      obtain ⟨hle', re, hr, rfl⟩ := h
      rw [builder_now]
      refine (Yields.lift (P := fun e => compare now op (l.val le) (r.val re) = .ok e)
        fun e he => he).bind fun e s₃ h => ?_
      obtain ⟨hcompare, rfl⟩ := h
      refine Yields.pure ⟨hle.trans hle', fun env' hrows => ?_⟩
      rw [truth_negate, Truth.polarised_inj]
      exact truth_compare hl hr hlform hrform halias hrows hop hnegated hcompare

/-- An equality is lowered with the attribute first, where a literal stands before one. -/
theorem comparisonPredicate_scalars {b : Builder} (hop : op.isOrdering = false) (negated : Bool) :
    b.comparisonPredicate op l.node r.node m negated =
      if comparesBareTemporals m l.node r.node then
        errorf ("bare temporal attributes compare RFC 3339 strings in CEL; stored timestamps " ++
          "lose the original spelling; use timestamp() on both operands") []
      else b.columnFirstComparison op (oriented l r).1.node (oriented l r).2.node m negated := by
  have hmirrored : op.mirrored = op := by
    cases op <;> first | rfl | cases hop
  rw [Builder.comparisonPredicate, mapLiteralLookup_none, pure_bind, hmirrored]
  cases l <;> cases r <;> rfl

/-- Where an equality of scalars is answered as CEL answers it: where an attribute whose NULL
is missing is compared with null, and where the arms that are compared are answered so. -/
def EqualityAnswered (engine : Engine) (db : Database) (m : Mapper) (truthOf : Node → Truth)
    (env : RowEnv) (sending : Sending) (l r : ScalarOperand) : Prop :=
  testsOmitted m l r = true ∨
    ∀ l' r', compared m truthOf l r = some (l', r') →
      AnswersEquality engine m sending l' r' (l'.stored engine db m truthOf env)
        (r'.stored engine db m truthOf env) (l'.outcome engine db m truthOf env sending)
        (r'.outcome engine db m truthOf env sending)

omit [Double.Rounding] in
theorem testsOmitted_iff (h : testsOmitted m l r = true) :
    ∃ name entry, l = .reference name ∧ r = .literal .null ∧ m.resolve name = some entry ∧
      entry.nullConvention = .omitted := by
  unfold testsOmitted at h
  split at h
  next name =>
    rw [Option.any_eq_true] at h
    obtain ⟨entry, hentry, homitted⟩ := h
    exact ⟨name, entry, rfl, rfl, hentry, by simpa using homitted⟩
  next => cases h

omit [Double.Rounding] in
/-- A missing attribute has no null to be sent. -/
theorem outcome_omitted {sending : Sending} {name : String} {entry : Entry}
    (hentry : m.resolve name = some entry) (homitted : entry.nullConvention = .omitted)
    (hnull : ((ScalarOperand.reference name).stored engine db m truthOf env).isNull = true) :
    (ScalarOperand.reference name).outcome engine db m truthOf env sending = .error := by
  rw [ScalarOperand.stored, ScalarOperand.readingOf, hentry, Option.map_some,
    Option.bind_some] at hnull
  rw [ScalarOperand.outcome, ScalarOperand.readingOf, hentry, Option.map_some, Option.elim_some,
    Sending.read]
  cases hx : Sending.stored engine db { entry := entry, row := env entry.qualifier } with
  | none => rfl
  | some x =>
      rw [hx, Option.getD_some] at hnull
      rw [Option.elim_some, Sending.outcome, homitted, hnull]
      rfl

omit [Double.Rounding] in
theorem orientedTruth_iff {sending : Sending} (hconcat : StandardConcat engine)
    (hlform : l.WellFormed m) (hrform : r.WellFormed m)
    (hlkeeps : l.Keeps engine db m truthOf env) (hrkeeps : r.Keeps engine db m truthOf env) :
    orientedTruth engine db m truthOf env l r =
        (comparisonOutcome .eq (l.outcome engine db m truthOf env sending)
          (r.outcome engine db m truthOf env sending)).asBoolean ↔
      EqualityAnswered engine db m truthOf env sending l r := by
  rw [orientedTruth, EqualityAnswered]
  cases htests : testsOmitted m l r with
  | true =>
      obtain ⟨name, entry, rfl, rfl, hentry, homitted⟩ := testsOmitted_iff htests
      refine iff_of_true ?_ (.inl rfl)
      rw [if_pos rfl]
      cases hnull : ((ScalarOperand.reference name).stored engine db m truthOf env).isNull with
      | true =>
          rw [outcome_omitted hentry homitted hnull]
          rfl
      | false =>
          have hcarries : Carries sending _ _ :=
            ScalarOperand.carries_outcome hconcat hlform hlkeeps
          rw [hcarries.present hnull]
          show Truth.no = (comparisonOutcome .eq _ (.value .null)).asBoolean
          rw [comparisonOutcome_eq_values, valuesEqual_value_null, hnull]
          rfl
  | false =>
      rw [if_neg Bool.false_ne_true]
      simpa using loweredTruth_iff hconcat hlform hrform hlkeeps hrkeeps

/-- An equality of scalars is TRUE, FALSE or NULL on a row as CEL evaluates it to true,
false or an error exactly where its NULLs stand for what it takes them for. -/
theorem equality_agrees_iff {operator : PlanOperator} {fuel s s' : Nat} {negated : Bool} {e : Expr}
    {spell : Int → String} (hop : comparisonOps operator = some op)
    (hequality : op.isOrdering = false) (hconcat : StandardConcat engine)
    (hnegated : StandardInequality engine) (halias : m.avoidsAliases n) (hs : n ≤ s)
    (hlform : l.WellFormed m) (hrform : r.WellFormed m)
    (hlkeeps : l.Keeps engine db m truthOf env) (hrkeeps : r.Keeps engine db m truthOf env)
    (hlconds : ∀ cond ∈ l.conditions, LowersCondition engine db m truthOf n env opts now cond)
    (hrconds : ∀ cond ∈ r.conditions, LowersCondition engine db m truthOf n env opts now cond)
    (hrun : (builder opts now fuel).predicate (.expression operator [l.node, r.node]) m negated s =
      .ok (e, s')) :
    e.truth engine db env =
        (comparisonOutcome op
          (l.outcome engine db m truthOf env ⟨opts.nullRepresentation, spell⟩)
          (r.outcome engine db m truthOf env ⟨opts.nullRepresentation, spell⟩)).asBoolean.polarised
          negated ↔
      EqualityAnswered engine db m truthOf env ⟨opts.nullRepresentation, spell⟩
        (oriented l r).1 (oriented l r).2 := by
  have horiented : ∀ P : ScalarOperand → Prop, P l → P r →
      P (oriented l r).1 ∧ P (oriented l r).2 := by
    intro P hl hr
    unfold oriented
    split
    · exact ⟨hr, hl⟩
    · exact ⟨hl, hr⟩
  obtain ⟨hform, hform'⟩ := horiented (·.WellFormed m) hlform hrform
  obtain ⟨hkeeps, hkeeps'⟩ := horiented (·.Keeps engine db m truthOf env) hlkeeps hrkeeps
  obtain ⟨hconds, hconds'⟩ := horiented (fun o => ∀ cond ∈ o.conditions,
    LowersCondition engine db m truthOf n env opts now cond) hlconds hrconds
  have hlowered : Yields ((builder opts now fuel).predicate
      (.expression operator [l.node, r.node]) m negated) s fun e s' => s ≤ s' ∧
        ∀ env', SameRows n env env' → e.truth engine db env' =
          ((orientedTruth engine db m truthOf env (oriented l r).1 (oriented l r).2).polarised
            (op = .ne)).polarised negated := by
    refine yields_of_step (fun fuel => ?_) fuel
    rw [predicateStep_unlifted hop (unlifted_node hlform) (unlifted_node hrform),
      comparisonPredicate_scalars hequality]
    split
    · exact yields_errorf _ _
    · exact yields_columnFirst_scalars hform hform' halias hconds hconds' hequality hnegated fuel
        hs negated
  have hswap : ∀ o p, (comparisonOutcome op o p).asBoolean = (comparisonOutcome op p o).asBoolean := by
    intro o p
    have hmirrored : op.mirrored = op := by
      cases op <;> first | rfl | cases hequality
    rw [← comparisonOutcome_mirrored op p o, hmirrored]
  have hcel : (comparisonOutcome op
      (l.outcome engine db m truthOf env ⟨opts.nullRepresentation, spell⟩)
      (r.outcome engine db m truthOf env ⟨opts.nullRepresentation, spell⟩)).asBoolean =
        (comparisonOutcome .eq
          ((oriented l r).1.outcome engine db m truthOf env ⟨opts.nullRepresentation, spell⟩)
          ((oriented l r).2.outcome engine db m truthOf env
            ⟨opts.nullRepresentation, spell⟩)).asBoolean.polarised (op = .ne) := by
    have hpolarised : ∀ o p, (comparisonOutcome op o p).asBoolean =
        (comparisonOutcome .eq o p).asBoolean.polarised (op = .ne) := by
      intro o p
      cases op with
      | eq => rfl
      | ne => exact comparisonOutcome_ne o p
      | _ => cases hequality
    rw [← hpolarised]
    unfold oriented
    split
    · exact hswap _ _
    · rfl
  rw [(hlowered.of_run hrun).2 env (SameRows.refl n env), hcel, Truth.polarised_inj,
    Truth.polarised_inj]
  exact orientedTruth_iff hconcat hform hform' hkeeps hkeeps'

end Translation

/-! A document that has no owner. -/

def ownerRelation : Relation :=
  { tagsRelation with table := "users", sourceColumn := "owner_id", targetColumn := "id" }

def ownerNameEntry : Entry :=
  { nameEntry with scalarRelation := some ownerRelation, nullConvention := .unset }

def ownerMapper : Mapper where
  resolve reference := if reference = "R.attr.owner.name" then some ownerNameEntry else none

def ownerRoot : Mapper :=
  rootMapper (guardedMapper ownerMapper) "documents"

def ownerIsNull : Node :=
  .expression .eq [.var "R.attr.owner.name", .value .null]

def ownerOutcome : Outcome :=
  (ScalarOperand.reference "R.attr.owner.name").outcome concatEngine (fun _ => []) ownerRoot
    (fun _ => .unknown) (fun _ => taggedRow .null) ⟨.explicit, fun _ => ""⟩

/-- The test for a null selects the document, on which CEL has an error. -/
theorem absentOwner_selected :
    ∃ e, build 4 0 ownerIsNull ownerMapper tagsOptions = .ok e ∧
      e.truth concatEngine (fun _ => []) (fun _ => taggedRow .null) = .yes ∧
        (comparisonOutcome .eq ownerOutcome (.value .null)).asBoolean = .unknown :=
  ⟨_, rfl, rfl, rfl⟩

theorem equality_agrees_iff_owner : ∃ e s,
    (builder tagsOptions 0 4).predicate ownerIsNull ownerRoot true 0 = .ok (e, s) ∧
      (e.truth concatEngine (fun _ => []) (fun _ => taggedRow .null) =
          (comparisonOutcome .eq ownerOutcome (.value .null)).asBoolean.polarised true ↔
        EqualityAnswered concatEngine (fun _ => []) ownerRoot (fun _ => .unknown)
          (fun _ => taggedRow .null) ⟨.explicit, fun _ => ""⟩ (.reference "R.attr.owner.name")
          (.literal .null)) :=
  ⟨_, _, rfl, @equality_agrees_iff _ concatEngine (fun _ => []) ownerRoot (fun _ => .unknown) 0
    (fun _ => taggedRow .null) tagsOptions 0 .eq (.reference "R.attr.owner.name") (.literal .null)
    .eq 4 0 _ true _ (fun _ => "") rfl rfl concatEngine_standard (fun _ _ => rfl)
    (avoidsAliases_rootMapper (by decide) 0) le_rfl trivial rfl
    (fun reading hreading x hx => by
      obtain rfl := Option.some.inj hreading
      cases hx)
    trivial nofun nofun rfl⟩

end QueryPlanAdapters.Go
