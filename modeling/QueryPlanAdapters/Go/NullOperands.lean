import QueryPlanAdapters.Go.ScalarContainer

/-!
# Go: null literals against omitted attributes

A NULL column that sends no attribute is CEL's error under every comparison. A null
literal is refused up front where the scan sees the attribute it is compared with, and an
equality that names the attribute renders the error. Neither sees an attribute that is
indexed, and the scan does not see one that a lambda binds.
-/

namespace QueryPlanAdapters.Go

open Sql

/-! ## References -/

/-- An attribute, as the member `m.k` or as the entry `m["k"]` of a map. -/
inductive AttributeReference where
  | dotted (reference : String)
  | indexed (container key : String)

namespace AttributeReference

def node : AttributeReference → Node
  | dotted reference => .var reference
  | indexed container key => .expression .index [.var container, .value (.string key)]

/-- The reference that the mapper resolves. -/
def name : AttributeReference → String
  | dotted reference => reference
  | indexed container key => container ++ "." ++ key

def isIndexed : AttributeReference → Bool
  | dotted _ => false
  | indexed _ _ => true

/-- The attribute against a literal, in either order. -/
def against (ref : AttributeReference) (operator : PlanOperator) (v : Literal)
    (literalFirst : Bool) : Node :=
  .expression operator (if literalFirst then [.value v, ref.node] else [ref.node, .value v])

/-- Whether the lowering keeps the error of a missing attribute against a null. A bare null is
tested with IS NULL where the attribute is indexed, and so is a null member, save that an
indexed attribute is bound as a member itself. -/
def keepsError (ref : AttributeReference) (operator : PlanOperator) (v : Literal)
    (literalFirst : Bool) : Bool :=
  if operator = .in then (literalFirst && ref.isIndexed) || !(memberItems v).any isNullLiteral
  else !ref.isIndexed || !isNullLiteral v

end AttributeReference

/-! ## Comparisons of values -/

section Values

variable {engine : Engine} {db : Database} {env : RowEnv} {m : Mapper} {truthOf : Node → Truth}
  {n : Nat} {name : String} {e out : Expr} {c : Literal} {op : CmpOp} {l r : Val}

/-- A missing value against a literal that carries a null. -/
theorem truth_comparePlain_carriesNull (heval : e.eval engine db env = .null)
    (hexplicit : explicitNullColumn e = none) (hop : op.isOrdering = false)
    (hnull : carriesNull c = true)
    (hoperands : l = .expr e ∧ r = .constant c ∨ l = .constant c ∧ r = .expr e)
    (h : comparePlain op l r = .ok out) :
    out.truth engine db env = if isNullLiteral c then .ofBool (op = .eq) else .unknown := by
  cases c with
  | null =>
      have htest : out = .isNull e (op = .ne) := by
        have hplain : ∀ {k : Option ScalarKind}, e.scalarKind = k →
            comparePlain op l r = .ok (.isNull e (op = .ne)) := by
          intro k hk
          obtain ⟨rfl, rfl⟩ | ⟨rfl, rfl⟩ := hoperands <;> cases k <;>
            simp [comparePlain, compareMixedTypes, Val.scalarKind, hk, isListLiteral,
              nullComparison, hop, isNil, asExpr, bind, Except.bind, pure, Except.pure]
        exact (Except.ok.inj ((hplain rfl).symm.trans h)).symm
      rw [htest, Expr.truth_isNull, heval]
      cases op <;> first | rfl | cases hop
  | array items =>
      have hlist : isNullLiteral (.array items) = false := rfl
      rw [hlist, if_neg Bool.false_ne_true]
      have hmixed : ∃ mixed, compareMixedTypes op l r = some mixed := by
        cases hcompare : compareMixedTypes op l r with
        | some mixed => exact ⟨mixed, rfl⟩
        | none =>
            rw [comparePlain.eq_def, hcompare] at h
            obtain ⟨rfl, rfl⟩ | ⟨rfl, rfl⟩ := hoperands <;> cases h
      obtain ⟨mixed, hmixed⟩ := hmixed
      rw [comparePlain.eq_def, hmixed] at h
      obtain rfl := Except.ok.inj h
      have hpresent : ∀ result, (whenPresent result (.expr e)).truth engine db env = .unknown := by
        intro result
        rw [whenPresent, hexplicit, Option.isSome_none, if_neg Bool.false_ne_true,
          Expr.truth_case_singleton, Expr.truth_isNull, heval]
        rfl
      unfold compareMixedTypes at hmixed
      split at hmixed
      · split at hmixed
        · cases hmixed
        · rw [hop, if_neg Bool.false_ne_true] at hmixed
          obtain rfl := Option.some.inj hmixed
          obtain ⟨rfl, rfl⟩ | ⟨rfl, rfl⟩ := hoperands
          · exact hpresent _
          · exact hpresent _
      · cases hmixed
  | object fields =>
      have hplain : ∃ failure, comparePlain op l r = .error failure := by
        have hkind : (Val.constant (.object fields)).scalarKind = none := rfl
        have hmixed : compareMixedTypes op l r = none := by
          obtain ⟨rfl, rfl⟩ | ⟨rfl, rfl⟩ := hoperands
          · rw [compareMixedTypes, hkind]
            cases (Val.expr e).scalarKind <;> rfl
          · rw [compareMixedTypes, hkind]
        rw [comparePlain.eq_def, hmixed]
        obtain ⟨rfl, rfl⟩ | ⟨rfl, rfl⟩ := hoperands <;>
          simp [isListLiteral, nullComparison, isNil, foldComparison, asExpr, bind, Except.bind,
            errorf, throw, throwThe, MonadExceptOf.throw]
      obtain ⟨failure, hfailure⟩ := hplain
      rw [hfailure] at h
      cases h
  | _ => cases hnull

theorem memberItems_ne_nil (h : carriesNull c = true) : memberItems c ≠ [] := by
  cases c with
  | array items =>
      rintro rfl
      cases h
  | _ => nofun

/-- A missing value is UNKNOWN as a needle unless a member is null. -/
theorem truth_membership_carriesNull (heval : e.eval engine db env = .null)
    (hexplicit : explicitNullColumn e = none) (hnull : carriesNull c = true)
    (h : membership (.expr e) (.constant c) = .ok out) :
    out.truth engine db env = .unknown ↔ (memberItems c).any isNullLiteral = false := by
  have hitems : membership (.expr e) (.constant c) = .ok (loweredMembership e (memberItems c)) :=
    membership_items rfl c
  rw [hitems] at h
  obtain rfl := Except.ok.inj h
  rw [truth_membership_unknown_iff heval, hexplicit, MembersUnknown]
  have hmissing : SqlValue.null.isNull = true := rfl
  rw [if_pos hmissing]
  constructor
  · rintro ⟨-, -, hmembers⟩
    exact hmembers
  · intro hmembers
    exact ⟨rfl, memberItems_ne_nil hnull, hmembers⟩

/-- A null needle is not told from an attribute that is bound as a member. -/
theorem truth_membership_attribute (h : membership (.constant c) (.expr e) = .ok out)
    (hnull : carriesNull c = true) : out.truth engine db env = .unknown := by
  cases c with
  | null =>
      refine (membership_attribute_unknown_iff (v := .constant .null)
        (e := .lit (.constant .null)) (x := .null) rfl rfl h).mpr ?_
      have hkind : (Expr.lit (.constant .null)).scalarKind = none := by
        rw [Expr.scalarKind]
        rfl
      rw [AttributeUnknown, hkind]
      intro _
      rfl
  | array items => cases h
  | object fields => cases h
  | _ => cases hnull

end Values

/-! ## The translation -/

section Translation

variable [Double.Rounding] {engine : Engine} {db : Database} {m : Mapper} {n : Nat} {env : RowEnv}
  {opts : Options} {now : Int} {ref : AttributeReference} {entry : Entry} {v : Literal}

/-- An expression that is no CASE is compared with a literal as it stands. -/
theorem compare_literal {e : Expr} (hcase : isCase e = false) (op : CmpOp) (c : Literal) :
    compare now op (.expr e) (.constant c) = comparePlain op (.expr e) (.constant c) ∧
      compare now op (.constant c) (.expr e) = comparePlain op (.constant c) (.expr e) := by
  cases e with
  | case whens els => cases hcase
  | _ => exact ⟨rfl, rfl⟩

/-- An attribute that is missing from a row is lowered to a NULL that is no null. -/
theorem yields_missing (halias : m.avoidsAliases n) (hentry : m.resolve ref.name = some entry)
    (homitted : entry.nullConvention = .omitted)
    (hmissing : (Sending.stored engine db { entry := entry, row := env entry.qualifier }).getD .null =
      .null) (fuel : Nat) {s : Nat} (hs : n ≤ s) :
    Yields ((builder opts now fuel).value ref.node m) s fun v _ =>
      ∃ e, v = .expr e ∧ e.eval engine db env = .null ∧ explicitNullColumn e = none ∧
        isCase e = false := by
  have hreference : Yields ((builder opts now fuel).value ref.node m) s fun v s' => s ≤ s' ∧
      ∃ e, LoweredTo engine db m (fun _ => .unknown) n env (.reference ref.name) e ∧ v = .expr e := by
    cases ref with
    | dotted reference => exact yields_reference halias reference fuel hs
    | indexed container key =>
        cases fuel with
        | zero => exact Yields.throw _
        | succ fuel =>
            show Yields (Builder.index [.var container, .value (.string key)] m) s _
            rw [Builder.index]
            split
            · exact @yields_reference _ engine db m _ n env opts now halias (container ++ "." ++ key) 1
                s hs
            · exact yields_errorf _ _
  refine hreference.imp fun v s' h => ?_
  obtain ⟨-, e, hlowered, rfl⟩ := h
  refine ⟨e, rfl, ?_, ?_, ?_⟩
  · rw [hlowered.eval_eq halias (SameRows.refl n env), ScalarOperand.stored,
      ScalarOperand.readingOf, hentry]
    exact hmissing
  · have hexplicit : (explicitNullColumn e).isSome =
        (ScalarOperand.reference ref.name).isExplicit m := hlowered.explicit
    rw [ScalarOperand.isExplicit, hentry, Option.any_some, homitted] at hexplicit
    simpa using hexplicit
  · exact isCase_eq hlowered

omit [Double.Rounding] in
/-- The operands of a comparison with a literal are rewritten by nothing. -/
theorem against_operands (ref : AttributeReference) (operator : PlanOperator) (v : Literal)
    (literalFirst : Bool) : ∃ left right,
      (if literalFirst then [.value v, ref.node] else [ref.node, .value v]) = [left, right] ∧
        liftListTernary (.expression operator [left, right]) = none ∧
          emptyListComparison operator left right = none := by
  have hset : emptySetFunction ref.node = none := by cases ref <;> rfl
  cases literalFirst with
  | true =>
      refine ⟨.value v, ref.node, rfl, ?_, emptyListComparison_eq_none operator rfl hset⟩
      cases ref <;> rfl
  | false =>
      refine ⟨ref.node, .value v, rfl, ?_, emptyListComparison_eq_none operator hset rfl⟩
      cases ref <;> rfl

/-- What a comparison with a literal is lowered to. -/
theorem predicateStep_against {b : Builder} {operator : PlanOperator} {op : CmpOp}
    (hcomparison : comparisonOps operator = some op) (hop : op.isOrdering = false)
    (literalFirst negated : Bool) :
    b.predicateStep (ref.against operator v literalFirst) m negated =
      match ref with
      | .dotted reference => b.columnFirstComparison op (.var reference) (.value v) m negated
      | .indexed _ _ =>
          if literalFirst then b.columnFirstComparison op (.value v) ref.node m negated
          else b.columnFirstComparison op ref.node (.value v) m negated := by
  obtain ⟨left, right, hoperands, hlift, hempty⟩ := against_operands ref operator v literalFirst
  have hbinary : b.predicateStep (ref.against operator v literalFirst) m negated =
      b.comparisonPredicate op left right m negated := by
    have hstep : b.predicateStep (ref.against operator v literalFirst) m negated =
        b.binaryPredicate operator [left, right] m negated := by
      rw [AttributeReference.against, hoperands]
      cases operator <;> first | rfl | cases hcomparison
    rw [hstep]
    simp only [Builder.binaryPredicate, hlift, hempty, hcomparison]
  have hmirrored : op.mirrored = op := by cases op <;> first | rfl | cases hop
  rw [hbinary]
  cases literalFirst with
  | true =>
      obtain ⟨rfl, rfl⟩ : Operand.value v = left ∧ ref.node = right := by
        simpa using hoperands
      cases ref with
      | dotted reference =>
          show b.columnFirstComparison op.mirrored (.var reference) (.value v) m negated = _
          rw [hmirrored]
      | indexed container key => rfl
  | false =>
      obtain ⟨rfl, rfl⟩ : ref.node = left ∧ Operand.value v = right := by
        simpa using hoperands
      cases ref <;> rfl

section Missing

variable {op : CmpOp}

variable (halias : m.avoidsAliases n) (hentry : m.resolve ref.name = some entry)
  (homitted : entry.nullConvention = .omitted)
  (hmissing : (Sending.stored engine db { entry := entry, row := env entry.qualifier }).getD .null =
    .null)
  (hnull : carriesNull v = true)

include halias hentry homitted hmissing hnull

/-- A comparison of the two values that is not rendered otherwise. -/
theorem yields_compared (hop : op.isOrdering = false) (literalFirst negated : Bool) (fuel : Nat)
    {s : Nat} (hs : n ≤ s) :
    Yields (do
        let l ← (builder opts now fuel).value (if literalFirst then .value v else ref.node) m
        let r ← (builder opts now fuel).value (if literalFirst then ref.node else .value v) m
        return negate (← compare now op l r) negated) s fun e _ =>
      (e.truth engine db env = .unknown ↔ isNullLiteral v = false) := by
  have hcompared : ∀ {e l r out}, e.eval engine db env = .null → explicitNullColumn e = none →
      isCase e = false → (l = .expr e ∧ r = .constant v ∨ l = .constant v ∧ r = .expr e) →
      compare now op l r = .ok out →
        ((negate out negated).truth engine db env = .unknown ↔ isNullLiteral v = false) := by
    intro e l r out heval hexplicit hcase hoperands h
    have hplain : compare now op l r = comparePlain op l r := by
      obtain ⟨rfl, rfl⟩ | ⟨rfl, rfl⟩ := hoperands
      · exact (compare_literal hcase op v).1
      · exact (compare_literal hcase op v).2
    rw [hplain] at h
    rw [truth_negate, Truth.polarised_eq_unknown_iff,
      truth_comparePlain_carriesNull heval hexplicit hop hnull hoperands h]
    cases isNullLiteral v with
    | true => cases op <;> simp
    | false => simp
  cases literalFirst with
  | true =>
      refine (yields_value_literal v).bind fun l s₁ hl => ?_
      obtain ⟨rfl, rfl⟩ := hl
      refine (yields_missing halias hentry homitted hmissing fuel hs).bind fun r s₂ hr => ?_
      obtain ⟨e, rfl, heval, hexplicit, hcase⟩ := hr
      refine (Yields.lift fun out hout => hout).bind fun out s₃ hout => ?_
      exact Yields.pure (hcompared heval hexplicit hcase (.inr ⟨rfl, rfl⟩) hout.1)
  | false =>
      refine (yields_missing halias hentry homitted hmissing fuel hs).bind fun l s₁ hl => ?_
      obtain ⟨e, rfl, heval, hexplicit, hcase⟩ := hl
      refine (yields_value_literal v).bind fun r s₂ hr => ?_
      obtain ⟨rfl, rfl⟩ := hr
      refine (Yields.lift fun out hout => hout).bind fun out s₃ hout => ?_
      exact Yields.pure (hcompared heval hexplicit hcase (.inl ⟨rfl, rfl⟩) hout.1)

/-- An equality names the attribute or indexes it. -/
theorem yields_equality {operator : PlanOperator} (hcomparison : comparisonOps operator = some op)
    (hop : op.isOrdering = false) (literalFirst negated : Bool) (fuel : Nat) {s : Nat}
    (hs : n ≤ s) :
    Yields ((builder opts now fuel).predicate (ref.against operator v literalFirst) m negated) s
      fun e _ => (e.truth engine db env = .unknown ↔
        (!ref.isIndexed || !isNullLiteral v) = true) := by
  refine yields_of_step (fun fuel => ?_) fuel
  rw [predicateStep_against hcomparison hop]
  have hcompared := fun literalFirst => @yields_compared _ engine db m n env opts now ref entry v op
    halias hentry homitted hmissing hnull hop literalFirst negated fuel s hs
  cases ref with
  | dotted reference =>
      have hbare : Builder.bareTemporalAgainstTimestamp op (.var reference) (.value v) m =
          pure none := rfl
      have homittedNull : omittedNullOperand op (.var reference) (.value v) m = isNullLiteral v := by
        have hdeclared : (m.resolve reference).any (·.nullConvention = .omitted) = true := by
          rw [show m.resolve reference = some entry from hentry, Option.any_some, homitted]
          rfl
        cases v with
        | null => simp [omittedNullOperand, hop, hdeclared, isNullLiteral]
        | _ => simp [omittedNullOperand, isNullLiteral]
      simp only [Builder.columnFirstComparison, hbare, pure_bind, homittedNull, builder_now]
      cases hnullLiteral : isNullLiteral v with
      | true =>
          rw [if_pos rfl]
          refine (yields_missing halias hentry homitted hmissing fuel hs).bind fun l s₁ hl => ?_
          obtain ⟨e, rfl, heval, -, -⟩ := hl
          refine Yields.pure ?_
          rw [truth_negate, truth_omittedNullComparison, heval]
          exact iff_of_true (Truth.polarised_unknown _) rfl
      | false =>
          rw [if_neg Bool.false_ne_true]
          refine (hcompared false).imp fun e s' he => ?_
          rw [he, hnullLiteral]
          exact iff_of_true rfl rfl
  | indexed container key =>
      have hplain : ∀ literalFirst : Bool,
          (if literalFirst then
            (builder opts now fuel).columnFirstComparison op (.value v)
              (AttributeReference.indexed container key).node m negated
          else (builder opts now fuel).columnFirstComparison op
              (AttributeReference.indexed container key).node (.value v) m negated) = do
            let l ← (builder opts now fuel).value
              (if literalFirst then .value v
                else (AttributeReference.indexed container key).node) m
            let r ← (builder opts now fuel).value
              (if literalFirst then (AttributeReference.indexed container key).node
                else .value v) m
            return negate (← compare now op l r) negated := by
        intro literalFirst
        cases literalFirst <;> simp [Builder.columnFirstComparison, AttributeReference.node,
          Builder.bareTemporalAgainstTimestamp, Operand.isVariable, omittedNullOperand, builder_now]
      show Yields (if literalFirst then _ else _) s _
      rw [hplain]
      refine (hcompared literalFirst).imp fun e s' he => ?_
      rw [he]
      cases isNullLiteral v <;> simp [AttributeReference.isIndexed]

/-- A membership tests the attribute, save where it is indexed and the container. -/
theorem yields_membership (hrelation : entry.relation = none) (literalFirst negated : Bool)
    (fuel : Nat) {s : Nat} (hs : n ≤ s) :
    Yields ((builder opts now fuel).predicate (ref.against .in v literalFirst) m negated) s
      fun e _ => (e.truth engine db env = .unknown ↔
        ((literalFirst && ref.isIndexed) || !(memberItems v).any isNullLiteral) = true) := by
  refine yields_of_step (fun fuel => ?_) fuel
  obtain ⟨left, right, hoperands, hlift, hempty⟩ := against_operands ref .in v literalFirst
  have hscalar : relationFor m ref.node = none := by
    cases ref with
    | dotted reference =>
        rw [AttributeReference.node, relationFor, show m.resolve reference = some entry from hentry,
          Option.bind_some, hrelation]
        rfl
    | indexed container key => rfl
  have hneedle : Yields ((builder opts now fuel).membershipInValue ref.node (.value v) m negated) s
      fun e _ => (e.truth engine db env = .unknown ↔ (memberItems v).any isNullLiteral = false) := by
    refine yields_membershipInValue
      (yields_missing halias hentry homitted hmissing fuel hs) fun l s₁ hl => ?_
    obtain ⟨e, rfl, heval, hexplicit, -⟩ := hl
    refine (yields_value_literal v).imp fun r s₂ hr => ?_
    obtain ⟨rfl, rfl⟩ := hr
    refine ⟨.inl ⟨v, rfl⟩, fun out hout => ?_⟩
    rw [truth_negate, Truth.polarised_eq_unknown_iff]
    exact truth_membership_carriesNull heval hexplicit hnull hout
  have hstep : (builder opts now fuel).predicateStep (ref.against .in v literalFirst) m negated =
      (builder opts now fuel).membershipPredicate left right m negated := by
    rw [AttributeReference.against, hoperands]
    show (builder opts now fuel).binaryPredicate .in [left, right] m negated = _
    simp only [Builder.binaryPredicate, hlift, hempty, comparisonOps]
  have hhaystack : concatenatedHaystack m right = none := by
    cases literalFirst with
    | true =>
        obtain ⟨-, rfl⟩ : Operand.value v = left ∧ ref.node = right := by simpa using hoperands
        cases ref <;> rfl
    | false =>
        obtain ⟨-, rfl⟩ : ref.node = left ∧ Operand.value v = right := by simpa using hoperands
        rfl
  rw [hstep, Builder.membershipPredicate, hhaystack]
  cases literalFirst with
  | false =>
      obtain ⟨rfl, rfl⟩ : ref.node = left ∧ Operand.value v = right := by simpa using hoperands
      have hvalue : ref.node.isValue = false := by cases ref <;> rfl
      have hliteral : relationFor m (.value v) = none := rfl
      simp only [hscalar, hliteral, hvalue, Bool.false_and, Bool.false_eq_true, if_false]
      refine hneedle.imp fun e s' he => ?_
      simpa using he
  | true =>
      obtain ⟨rfl, rfl⟩ : Operand.value v = left ∧ ref.node = right := by simpa using hoperands
      have hliteral : relationFor m (.value v) = none := rfl
      have hvalue : (Operand.value v : Node).isValue = true := rfl
      simp only [hscalar, hliteral, hvalue, Bool.true_and]
      cases ref with
      | dotted reference =>
          refine hneedle.imp fun e s' he => ?_
          simpa [AttributeReference.isIndexed] using he
      | indexed container key =>
          refine yields_membershipInValue (yields_value_literal v) fun l s₁ hl => ?_
          obtain ⟨rfl, rfl⟩ := hl
          refine (yields_missing halias hentry homitted hmissing fuel hs).imp fun r s₂ hr => ?_
          obtain ⟨e, rfl, heval, hexplicit, -⟩ := hr
          refine ⟨.inr ⟨e, rfl⟩, fun out hout => ?_⟩
          rw [truth_negate, Truth.polarised_eq_unknown_iff, truth_membership_attribute hout hnull]
          exact iff_of_true rfl rfl

end Missing

/-- Against a literal that carries a null, the row that misses the attribute is NULL exactly
where the lowering keeps the error. The mapper is the root one or any lambda's. -/
theorem omittedNull_unknown_iff {operator : PlanOperator} {literalFirst negated : Bool}
    {fuel s s' : Nat} {e : Expr} (halias : m.avoidsAliases n) (hs : n ≤ s)
    (hoperator : operator = .eq ∨ operator = .ne ∨ operator = .in)
    (hentry : m.resolve ref.name = some entry) (hrelation : entry.relation = none)
    (homitted : entry.nullConvention = .omitted)
    (hmissing : (Sending.stored engine db { entry := entry, row := env entry.qualifier }).getD .null =
      .null)
    (hnull : carriesNull v = true)
    (hrun : (builder opts now fuel).predicate (ref.against operator v literalFirst) m negated s =
      .ok (e, s')) :
    e.truth engine db env = .unknown ↔ ref.keepsError operator v literalFirst = true := by
  obtain rfl | rfl | rfl := hoperator
  · exact (yields_equality halias hentry homitted hmissing hnull rfl rfl literalFirst negated fuel
      hs).of_run hrun
  · exact (yields_equality halias hentry homitted hmissing hnull rfl rfl literalFirst negated fuel
      hs).of_run hrun
  · exact (yields_membership halias hentry homitted hmissing hnull hrelation literalFirst negated
      fuel hs).of_run hrun

end Translation

/-! A document whose status is missing, and one with a tag whose name is. -/

def indexedStatus : AttributeReference :=
  .indexed "R.attr" "status"

def unnamedTagsMapper : Mapper where
  resolve reference :=
    (tagsMapper.resolve reference).map fun entry =>
      { entry with
        relation := some { tagsRelation with
          fields := [("name", { nameEntry with nullConvention := .omitted })] } }

def unnamedTag : Node :=
  .expression .exists [.var "R.attr.tags", .expression .lambda
    [(AttributeReference.dotted "t.name").against .in (.array [.null]) false, .var "t"]]

/-- The missing status and the missing name are selected as nulls. -/
theorem missingAttributes_selected :
    (∃ e, build 4 0 (indexedStatus.against .eq .null false) statusMapper tagsOptions = .ok e ∧
        e.truth .bare (fun _ => []) (statusRow .null) = .yes) ∧
      ∃ e, build 5 0 unnamedTag unnamedTagsMapper tagsOptions = .ok e ∧
        e.truth .bare tagsDatabase (fun _ => taggedRow .null) = .yes :=
  ⟨⟨_, rfl, by decide⟩, _, rfl, by decide⟩

theorem omittedNull_unknown_iff_status : ∃ e s,
    (builder tagsOptions 0 4).predicate (indexedStatus.against .ne .null true)
        (rootMapper (guardedMapper statusMapper) "documents") true 0 = .ok (e, s) ∧
      (e.truth .bare (fun _ => []) (statusRow .null) = .unknown ↔
        indexedStatus.keepsError .ne .null true = true) :=
  ⟨_, _, rfl, @omittedNull_unknown_iff _ .bare (fun _ => [])
    (rootMapper (guardedMapper statusMapper) "documents") 0 (statusRow .null) tagsOptions 0
    indexedStatus _ .null .ne true true 4 0 _ _ (avoidsAliases_rootMapper (by decide) 0) le_rfl
    (.inr (.inl rfl)) rfl rfl rfl rfl rfl rfl⟩

end QueryPlanAdapters.Go
