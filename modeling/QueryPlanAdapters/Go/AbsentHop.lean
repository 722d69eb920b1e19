import QueryPlanAdapters.Go.Skeleton
import QueryPlanAdapters.Go.Hops

/-!
# Go: conditions over a chain with an absent hop

CEL raises on a path through a row that is not there, so a condition over a chain
has to be NULL for a parent that some hop has no row for. Each lowering builds its
own subqueries and its own guard; the theorem below says for which conditions the
result is that NULL.
-/

namespace QueryPlanAdapters.Go

open Sql

/-! ## The conditions -/

/-- The macros over a relation that yield a boolean. -/
inductive Quantifier where
  | «exists» | all | existsOne

def Quantifier.operator : Quantifier → PlanOperator
  | .exists => .exists
  | .all => .all
  | .existsOne => .existsOne

/-- How a plan spells a comparison. -/
def comparisonOperator : CmpOp → PlanOperator
  | .eq => .eq
  | .ne => .ne
  | .lt => .lt
  | .le => .le
  | .gt => .gt
  | .ge => .ge

/-- The macros over a relation that yield a collection. -/
def collectionOperator (isMap : Bool) : PlanOperator :=
  if isMap then .map else .filter

/-- Two operands, in the order the policy has them. -/
def inOrder {α : Type} (first : Bool) (x other : α) : List α :=
  if first then [x, other] else [other, x]

/-- The conditions whose collection operand is a stored collection. -/
inductive CollectionCondition where
  | quantified (quantifier : Quantifier) (lambda : Node)
  | member (needle : Node)
  | intersects (other : Node) (first : Bool)
  | projectionIntersects (lambda other : Node) (first : Bool)
  | subset (super : Node)
  | sizeCompared (op : CmpOp) (v : Literal) (first : Bool)
  | filterSizeCompared (lambda : Node) (op : CmpOp) (v : Literal) (first : Bool)
  | memberOfResult (isMap : Bool) (lambda needle : Node)

namespace CollectionCondition

/-- The condition as the plan ships it. -/
def node (collection : String) : CollectionCondition → Node
  | quantified quantifier lambda => .expression quantifier.operator [.var collection, lambda]
  | member needle => .expression .in [needle, .var collection]
  | intersects other first => .expression .hasIntersection (inOrder first (.var collection) other)
  | projectionIntersects lambda other first =>
      .expression .hasIntersection
        (inOrder first (.expression .map [.var collection, lambda]) other)
  | subset super => .expression .isSubset [.var collection, super]
  | sizeCompared op v first =>
      .expression (comparisonOperator op)
        (inOrder first (.expression .size [.var collection]) (.value v))
  | filterSizeCompared lambda op v first =>
      .expression (comparisonOperator op)
        (inOrder first (.expression .size [.expression .filter [.var collection, lambda]]) (.value v))
  | memberOfResult isMap lambda needle =>
      .expression .in [needle, .expression (collectionOperator isMap) [.var collection, lambda]]

/-- Whether a comparison with a literal is lowered to a NULL test. -/
def testsNull (op : CmpOp) (v : Literal) : Bool :=
  isNullLiteral v && !op.isOrdering

/-- Whether the lowering of a condition is NULL for a parent that some hop has no row
for. An intersection with a projection has no guard, nor has the size of a filter(),
which counts no rows then; and a NULL test of a guarded size is definite. -/
def guarded (engine : Engine) : CollectionCondition → Prop
  | projectionIntersects _ _ _ => False
  | sizeCompared op v _ => testsNull op v = false
  | filterSizeCompared _ op v first =>
      testsNull op v = false ∧
        (if first then engine.compare op (.number (.finite 0)) (Val.constant v).bound
          else engine.compare op (Val.constant v).bound (.number (.finite 0))) = .unknown
  | _ => True

end CollectionCondition

open CollectionCondition

/-! ## Comparisons of a CASE without kinds -/

/-- What a comparison of a CASE with a literal is lowered to. -/
def comparedCase (first : Bool) (op : CmpOp) (x : Expr) (v : Literal) : Expr :=
  if testsNull op v then .isNull x (op = .ne)
  else if first then .cmp op x (.lit (.constant v))
  else .cmp op (.lit (.constant v)) x

section Comparisons

variable {whens : List (Expr × Expr)} {els : Option Expr}

theorem returns_comparePlain_case (h : caseArmKinds whens els = []) (op : CmpOp) (v : Literal) :
    (comparePlain op (.expr (.case whens els)) (.constant v)).Returns
        (· = comparedCase true op (.case whens els) v) ∧
      (comparePlain op (.constant v) (.expr (.case whens els))).Returns
        (· = comparedCase false op (.case whens els) v) := by
  have hkind : (Val.expr (.case whens els)).scalarKind = none := by
    rw [caseArmKinds] at h
    simp [Val.scalarKind, Expr.scalarKind, h]
  cases v <;> cases hop : op.isOrdering <;>
    simp [comparePlain, compareMixedTypes, hkind, isListLiteral, nullComparison, isNil,
      foldComparison, asExpr, assertNoMixedNullConventions, definiteEquality, explicitNullColumn,
      comparedCase, testsNull, isNullLiteral, hop, errorf, bind, Except.bind, pure, Except.pure,
      throw, throwThe, MonadExceptOf.throw]

variable [Double.Rounding]

/-- A CASE without kinds is compared whole with a literal, in either order. -/
theorem returns_compare_case (h : caseArmKinds whens els = []) (now : Int) (op : CmpOp)
    (v : Literal) :
    (compare now op (.expr (.case whens els)) (.constant v)).Returns
        (· = comparedCase true op (.case whens els) v) ∧
      (compare now op (.constant v) (.expr (.case whens els))).Returns
        (· = comparedCase false op (.case whens els) v) := by
  have hplain := returns_comparePlain_case h op v
  simpa [compare, isTemporal, distribute, compareArms, compareLeaf, isIeee, applyComparison,
    compareNumberText, compareRight, distributeMixedCase, h, isCase] using hplain

end Comparisons

/-! ## NULL under a guard -/

/-- The expression is NULL wherever some hop of the chain has no row for the parent. -/
def NullWhenAbsent (rel : Relation) (parent : String) (e : Expr) : Prop :=
  ∀ (engine : Engine) (db : Database) env,
    hopsPresent engine db rel (env parent) = false → e.eval engine db env = .null

section Null

variable {rel : Relation} {parent : String} {e : Expr}

theorem NullWhenAbsent.negate (h : NullWhenAbsent rel parent e) (negated : Bool) :
    NullWhenAbsent rel parent (negate e negated) :=
  fun engine db env habsent => eval_negate_null (h engine db env habsent) negated

/-- Any CASE of one arm that is NULL. -/
theorem NullWhenAbsent.case (h : NullWhenAbsent rel parent e) (cond : Expr) :
    NullWhenAbsent rel parent (.case [(cond, e)] none) := by
  intro engine db env habsent
  rw [Expr.eval_case_singleton, h engine db env habsent, ite_self]

/-- A ternary both of whose branches are NULL. -/
theorem NullWhenAbsent.guardedCase {whenFalse : Expr} (cond : Expr)
    (h : NullWhenAbsent rel parent e) (hfalse : NullWhenAbsent rel parent whenFalse) :
    NullWhenAbsent rel parent (guardedCase cond e whenFalse) := by
  intro engine db env habsent
  simp only [Go.guardedCase, Expr.eval_case, takenArm_cons, takenArm_nil, selected_none,
    h engine db env habsent, hfalse engine db env habsent]
  split
  · rfl
  · split <;> rfl

end Null

/-- A compared size is NULL where the comparison is one with a NULL, or of two kinds
that the engine leaves UNKNOWN. -/
theorem eval_comparedCase_null {engine : Engine} {db : Database} {env : RowEnv} {x : Expr}
    {size : SqlValue} (hsize : x.eval engine db env = size) (first : Bool) (op : CmpOp)
    (v : Literal) (negated : Bool) :
    (negate (comparedCase first op x v) negated).eval engine db env = .null ↔
      testsNull op v = false ∧
        (if first then engine.compare op size (Val.constant v).bound
          else engine.compare op (Val.constant v).bound size) = .unknown := by
  rw [eval_negate_eq_null_iff]
  · cases hnull : testsNull op v with
    | true => simp [comparedCase, hnull]
    | false => cases first <;> simp [comparedCase, hnull, hsize]
  · cases hnull : testsNull op v with
    | true => simp [comparedCase, hnull, Expr.eval_isNull, Expr.truth]
    | false => cases first <;> simp [comparedCase, hnull, Expr.eval_cmp, Expr.truth]

section Lowering

variable {m : Mapper} {collection : String} {entry : Entry} {rel : Relation} {b : Builder}
  {s : Nat}

variable {fuel : Nat}

theorem relationFor_var (hentry : m.resolve collection = some entry)
    (hrel : entry.relation = some rel) :
    relationFor m (.var collection) = some (rel, entry.qualifier) := by
  simp [relationFor, hentry, hrel]

/-- A macro over the chain. -/
theorem yields_relationMacro_absent (hentry : m.resolve collection = some entry)
    (hrel : entry.relation = some rel) (hvia : rel.via ≠ [])
    (hparent : ∀ k, entry.qualifier ≠ aliasOf k) (quantifier : Quantifier) (lambda : Node)
    (negated : Bool) :
    Yields (b.relationMacro quantifier.operator collection lambda m negated) s fun e _ =>
      NullWhenAbsent rel entry.qualifier e := by
  rw [Builder.relationMacro]
  refine (Yields.trivial _ _).bind fun parts s₁ _ => ?_
  refine (Yields.lift (returns_requireRelation hentry hrel)).bind fun target s₂ htarget => ?_
  obtain ⟨rfl, rfl⟩ := htarget
  refine (Yields.trivial _ _).bind fun aliasName s₃ _ => ?_
  refine (Yields.trivial _ _).bind fun body s₄ _ => ?_
  refine (Yields.trivial _ _).bind fun scope s₅ _ => ?_
  cases quantifier with
  | «exists» => exact yields_triStateExists hvia hparent aliasName body _ negated
  | all => exact yields_triStateExists hvia hparent aliasName body _ negated
  | existsOne =>
      refine (yields_requireHops hvia hparent _).bind fun guarded s₆ h => ?_
      obtain ⟨g, -, hnull⟩ := h
      exact Yields.pure (NullWhenAbsent.negate hnull negated)

theorem liftOperands_pair (needle : Node) {haystack : Node} (h : liftOperands [haystack] = none) :
    liftOperands [needle, haystack] = none ∨ ∃ cond whenTrue whenFalse,
      liftOperands [needle, haystack] =
        some (cond, [whenTrue, haystack], [whenFalse, haystack]) := by
  rw [liftOperands_cons, h]
  split
  · exact .inr ⟨_, _, _, rfl⟩
  · exact .inl rfl

/-- A collection held back over the chain, which reaches no row where some hop has none
for the parent. -/
def HeldBack (rel : Relation) (parent : String) (isMap : Bool) (v : Val) : Prop :=
  ∃ (scope : Scope) (body : Expr) (element : Option Expr),
    v = .deferredCollection scope.source scope.correlate body element rel parent isMap ∧
      ∀ (engine : Engine) (db : Database) env,
        hopsPresent engine db rel (env parent) = false → scope.rows engine db env = []

/-- A filter() or map() of the chain is held back. -/
theorem yields_deferredCollection_absent (hentry : m.resolve collection = some entry)
    (hrel : entry.relation = some rel) (hvia : rel.via ≠ [])
    (hparent : ∀ k, entry.qualifier ≠ aliasOf k) (isMap : Bool) (lambda : Node) :
    Yields (b.deferredCollection isMap [.var collection, lambda] m) s fun v _ =>
      HeldBack rel entry.qualifier isMap v := by
  rw [Builder.deferredCollection]
  refine (Yields.lift (returns_requireRelation hentry hrel)).bind fun target s₁ htarget => ?_
  obtain ⟨rfl, rfl⟩ := htarget
  refine (Yields.trivial _ _).bind fun parts s₂ _ => ?_
  refine (yields_newAlias s₂).bind fun aliasName s₃ hnew => ?_
  obtain ⟨rfl, rfl⟩ := hnew
  have hscope : ∀ body s', Yields (do
      let s ← relationScope rel (aliasOf (s₂ + 1)) entry.qualifier
      return Val.deferredCollection s.source s.correlate body
        (rel.field.map fun field => .column (elementColumn (aliasOf (s₂ + 1)) field)) rel
        entry.qualifier isMap) s' fun v _ => HeldBack rel entry.qualifier isMap v := by
    intro body s'
    refine (yields_relationScope hvia hparent _).bind fun scope s'' hrows => ?_
    exact Yields.pure ⟨scope, body, _, rfl, hrows⟩
  cases isMap with
  | false => exact (Yields.trivial _ _).bind fun body s₄ _ => hscope body s₄
  | true =>
      refine (Yields.trivial _ _).bind fun v s₄ _ => ?_
      exact (Yields.trivial _ _).bind fun body s₅ _ => hscope body s₅

/-- A size that is lowered to a CASE without kinds, which has the given value wherever
some hop of the chain has no row for the parent. -/
def SizeWhenAbsent (rel : Relation) (parent : String) (size : SqlValue) (v : Val) : Prop :=
  ∃ whens els, v = .expr (.case whens els) ∧ caseArmKinds whens els = [] ∧
    ∀ (engine : Engine) (db : Database) env,
      hopsPresent engine db rel (env parent) = false →
        (Expr.case whens els).eval engine db env = size

theorem yields_size_absent (hentry : m.resolve collection = some entry)
    (hrel : entry.relation = some rel) (hvia : rel.via ≠ [])
    (hparent : ∀ k, entry.qualifier ≠ aliasOf k) :
    Yields (b.size [.var collection] m) s fun v _ => SizeWhenAbsent rel entry.qualifier .null v := by
  rw [Builder.size]
  simp only [relationFor_var hentry hrel]
  refine (yields_newAlias s).bind fun aliasName s₁ hnew => ?_
  refine (Yields.trivial _ _).bind fun scope s₂ _ => ?_
  refine (yields_requireHops hvia hparent _).bind fun guarded s₃ h => ?_
  obtain ⟨g, rfl, hnull⟩ := h
  exact Yields.pure ⟨_, _, rfl, rfl, hnull⟩

/-- Only a literal list has an intersection, whichever side it stands on. -/
theorem yields_hasIntersection {x : Node} {negated : Bool} {Q : Expr → Nat → Prop}
    (hx : x.isValue = false)
    (h : ∀ v, Yields (b.hasIntersection [.value v, x] m negated) s Q) (other : Node)
    (first : Bool) : Yields (b.hasIntersection (inOrder first x other) m negated) s Q := by
  have hswap : ∀ v, b.hasIntersection [x, .value v] m negated =
      b.hasIntersection [.value v, x] m negated := by
    intro v
    cases x with
    | value => cases hx
    | _ => rfl
  cases other with
  | value v =>
      cases first with
      | false => exact h v
      | true => exact (hswap v).symm ▸ h v
  | _ =>
      cases x with
      | value => cases hx
      | _ => cases first <;> exact yields_errorf _ _

theorem yields_isSubset_absent (hentry : m.resolve collection = some entry)
    (hrel : entry.relation = some rel) (hvia : rel.via ≠ [])
    (hparent : ∀ k, entry.qualifier ≠ aliasOf k) (super : Node) (negated : Bool) :
    Yields (Builder.isSubset [.var collection, super] m negated) s fun e _ =>
      NullWhenAbsent rel entry.qualifier e := by
  simp only [Builder.isSubset, relationFor_var hentry hrel]
  cases super with
  | value v =>
      cases v with
      | array items =>
          dsimp only
          split
          · exact yields_errorf _ _
          · refine (Yields.trivial _ _).bind fun aliasName s₁ _ => ?_
            refine (Yields.trivial _ _).bind fun body s₂ _ => ?_
            exact yields_triStateExists hvia hparent _ _ _ _
      | _ => exact yields_errorf _ _
  | _ => exact yields_errorf _ _

theorem yields_intersects_absent (hentry : m.resolve collection = some entry)
    (hrel : entry.relation = some rel) (hvia : rel.via ≠ [])
    (hparent : ∀ k, entry.qualifier ≠ aliasOf k) (other : Node) (first negated : Bool) :
    Yields (b.hasIntersection (inOrder first (.var collection) other) m negated) s fun e _ =>
      NullWhenAbsent rel entry.qualifier e := by
  apply yields_hasIntersection rfl
  intro v
  cases v with
  | array items =>
      simp only [Builder.hasIntersection, Operand.isValue, if_true, relationFor_var hentry hrel]
      split
      · exact yields_errorf _ _
      · refine (Yields.trivial _ _).bind fun aliasName s₁ _ => ?_
        refine (Yields.trivial _ _).bind fun body s₂ _ => ?_
        exact yields_triStateExists hvia hparent _ _ _ _
  | _ => exact yields_errorf _ _

variable [Double.Rounding]

/-- Membership in the chain. -/
theorem yields_membershipOverRelation_absent (hvia : rel.via ≠ []) {parent : String}
    (hparent : ∀ k, parent ≠ aliasOf k) (needle : Node) (negated : Bool) :
    Yields (b.membershipOverRelation needle rel parent m negated) s fun e _ =>
      NullWhenAbsent rel parent e := by
  rw [Builder.membershipOverRelation]
  split
  · exact yields_errorf _ _
  · refine (Yields.trivial _ _).bind fun needleValue s₁ _ => ?_
    refine (Yields.trivial _ _).bind fun aliasName s₂ _ => ?_
    refine (Yields.trivial _ _).bind fun body s₃ _ => ?_
    refine (yields_triStateExists hvia hparent _ _ _ _).bind fun result s₄ hnull => ?_
    cases needleValue with
    | expr x =>
        apply Yields.pure
        split
        · exact NullWhenAbsent.case hnull _
        · exact hnull
    | _ => exact Yields.pure hnull

/-- Membership in a filter() or map() of the chain. -/
theorem yields_membershipInDeferred_absent (hvia : rel.via ≠ []) {parent : String}
    (hparent : ∀ k, parent ≠ aliasOf k) (needle : Val) (scope : Scope) (body : Expr)
    (element : Option Expr) (isMap : Bool) :
    Yields (b.membershipInDeferred needle scope body element rel parent isMap) s fun e _ =>
      NullWhenAbsent rel parent e := by
  rw [Builder.membershipInDeferred.eq_def]
  have hguarded : ∀ (e : Expr) s', Yields (requireHops rel parent e) s' fun e _ =>
      NullWhenAbsent rel parent e := by
    intro e s'
    refine (yields_requireHops hvia hparent e).imp fun guarded s'' h => ?_
    obtain ⟨g, -, hnull⟩ := h
    exact hnull
  -- The three scalar needles share one lowering.
  split
  any_goals exact yields_errorf _ _
  all_goals
    split
    · exact (Yields.trivial _ _).bind fun equal s₁ _ => hguarded _ s₁
    · split
      · exact yields_errorf _ _
      · exact (Yields.trivial _ _).bind fun equal s₁ _ => hguarded _ s₁

/-- A needle that is a ternary of lists is lifted over the membership, which stays one in
both branches. -/
theorem yields_predicate_in {haystack : Node} {Q : Expr → Prop} {opts : Options} {now : Int}
    (hlift : liftOperands [haystack] = none)
    (hguarded : ∀ cond whenTrue whenFalse, Q whenTrue → Q whenFalse →
      Q (guardedCase cond whenTrue whenFalse))
    (hmember : ∀ fuel needle negated s,
      Yields ((builder opts now fuel).membershipPredicate needle haystack m negated) s
        fun e _ => Q e)
    (fuel : Nat) (needle : Node) (negated : Bool) (s : Nat) :
    Yields ((builder opts now fuel).predicate (.expression .in [needle, haystack]) m negated) s
      fun e _ => Q e := by
  induction fuel generalizing needle s with
  | zero => exact Yields.throw _
  | succ fuel ih =>
      show Yields ((builder opts now fuel).binaryPredicate .in [needle, haystack] m negated) s _
      obtain hnone | ⟨cond, whenTrue, whenFalse, hsome⟩ := liftOperands_pair needle hlift
      · have hempty : emptyListComparison .in needle haystack = none := by
          simp [emptyListComparison]
        simp only [Builder.binaryPredicate, liftListTernary, hnone, Option.map_none, hempty,
          comparisonOps]
        exact hmember fuel needle negated s
      · simp only [Builder.binaryPredicate, liftListTernary, hsome, Option.map_some]
        refine (Yields.trivial _ _).bind fun condExpr s₁ _ => ?_
        refine (ih whenTrue s₁).bind fun trueExpr s₂ htrue => ?_
        refine (ih whenFalse s₂).bind fun falseExpr s₃ hfalse => ?_
        exact Yields.pure (hguarded _ _ _ htrue hfalse)

theorem yields_value_deferred {opts : Options} {now : Int}
    (hentry : m.resolve collection = some entry) (hrel : entry.relation = some rel)
    (hvia : rel.via ≠ []) (hparent : ∀ k, entry.qualifier ≠ aliasOf k) (isMap : Bool)
    (lambda : Node) :
    Yields ((builder opts now fuel).value
        (.expression (collectionOperator isMap) [.var collection, lambda]) m) s fun v _ =>
      HeldBack rel entry.qualifier isMap v := by
  cases fuel with
  | zero => exact Yields.throw _
  | succ fuel =>
      have hstep : (builder opts now (fuel + 1)).value
          (.expression (collectionOperator isMap) [.var collection, lambda]) m =
            (builder opts now fuel).deferredCollection isMap [.var collection, lambda] m := by
        cases isMap <;> rfl
      rw [hstep]
      exact yields_deferredCollection_absent hentry hrel hvia hparent isMap lambda

/-- `in` a filter() or map() of the chain. -/
theorem yields_membershipInValue_absent {opts : Options} {now : Int}
    (hentry : m.resolve collection = some entry) (hrel : entry.relation = some rel)
    (hvia : rel.via ≠ []) (hparent : ∀ k, entry.qualifier ≠ aliasOf k) (isMap : Bool)
    (lambda needle : Node) (negated : Bool) :
    Yields ((builder opts now fuel).membershipInValue needle
        (.expression (collectionOperator isMap) [.var collection, lambda]) m negated) s fun e _ =>
      NullWhenAbsent rel entry.qualifier e := by
  rw [Builder.membershipInValue]
  refine (Yields.trivial _ _).bind fun l s₁ _ => ?_
  refine (yields_value_deferred hentry hrel hvia hparent isMap lambda).bind fun v s₂ hv => ?_
  obtain ⟨scope, body, element, rfl, -⟩ := hv
  refine (yields_membershipInDeferred_absent hvia hparent _ _ _ _ _).bind fun e s₃ hnull => ?_
  exact Yields.pure (NullWhenAbsent.negate hnull negated)

/-! ### Sizes and set functions -/

/-- A size compared with a literal, whose lowering folds nothing. -/
theorem predicateStep_sizeCompared {op : CmpOp} {left right : Node} {negated : Bool}
    (hlift : liftOperands [left, right] = none)
    (hempty : emptyListComparison (comparisonOperator op) left right = none)
    (hlookup : b.mapLiteralLookup op left right m = pure none)
    (hleft : left.isVariable = false) (hright : right.isVariable = false) :
    b.predicateStep (.expression (comparisonOperator op) [left, right]) m negated = do
      let l ← b.value left m
      let r ← b.value right m
      return negate (← compare b.now op l r) negated := by
  have hstep : b.predicateStep (.expression (comparisonOperator op) [left, right]) m negated =
      b.binaryPredicate (comparisonOperator op) [left, right] m negated := by
    cases op <;> rfl
  have hbinary : b.binaryPredicate (comparisonOperator op) [left, right] m negated =
      b.comparisonPredicate op left right m negated := by
    have hop : comparisonOps (comparisonOperator op) = some op := by cases op <;> rfl
    simp only [Builder.binaryPredicate, liftListTernary, hlift, Option.map_none, hempty, hop]
  have hbare : comparesBareTemporals m left right = false := by
    cases left with
    | var => cases hleft
    | _ => rfl
  have htemporal : Builder.bareTemporalAgainstTimestamp op left right m = pure none := by
    cases right with
    | var => cases hright
    | _ => simp [Builder.bareTemporalAgainstTimestamp, hleft]
  have homitted : omittedNullOperand op left right m = false := by
    cases left with
    | var => cases hleft
    | _ => simp [omittedNullOperand]
  rw [hstep, hbinary, Builder.comparisonPredicate, hlookup, pure_bind]
  simp only [hbare, hright, Bool.and_false, Bool.false_eq_true, if_false]
  rw [Builder.columnFirstComparison, htemporal, pure_bind]
  simp only [homitted, Bool.false_eq_true, if_false]

/-- The size of a filter() counts no rows. -/
theorem yields_filterSize_absent {opts : Options} {now : Int}
    (hentry : m.resolve collection = some entry) (hrel : entry.relation = some rel)
    (hvia : rel.via ≠ []) (hparent : ∀ k, entry.qualifier ≠ aliasOf k) (lambda : Node) :
    Yields ((builder opts now fuel).size [.expression .filter [.var collection, lambda]] m) s
      fun v _ => SizeWhenAbsent rel entry.qualifier (.number (.finite 0)) v := by
  refine (yields_value_deferred hentry hrel hvia hparent false lambda).bind fun v s₁ hv => ?_
  obtain ⟨scope, body, element, rfl, hrows⟩ := hv
  refine Yields.pure ⟨_, _, rfl, rfl, ?_⟩
  intro engine db env habsent
  simp [Expr.eval_case_else, hrows engine db env habsent]

/-- An intersection with a projection is FALSE for a parent without rows. -/
theorem yields_projectionIntersects_absent {opts : Options} {now : Int}
    (hentry : m.resolve collection = some entry) (hrel : entry.relation = some rel)
    (hvia : rel.via ≠ []) (hparent : ∀ k, entry.qualifier ≠ aliasOf k) (lambda other : Node)
    (first negated : Bool) :
    Yields ((builder opts now fuel).hasIntersection
        (inOrder first (.expression .map [.var collection, lambda]) other) m negated) s fun e _ =>
      ∀ (engine : Engine) (db : Database) env,
        hopsPresent engine db rel (env entry.qualifier) = false →
          e.truth engine db env = Truth.no.polarised negated := by
  apply yields_hasIntersection rfl
  intro v
  cases v with
  | array items =>
      simp only [Builder.hasIntersection, Operand.isValue, if_true, relationFor]
      refine (yields_value_deferred hentry hrel hvia hparent true lambda).bind fun v s₁ hv => ?_
      obtain ⟨scope, body, element, rfl, hrows⟩ := hv
      refine (Yields.trivial _ _).bind fun member s₂ _ => ?_
      apply Yields.pure
      intro engine db env habsent
      rw [truth_negate, deferredWitness, Expr.truth_case_pair]
      simp [hrows engine db env habsent]
  | _ => exact yields_errorf _ _

/-- A size compared with a literal is NULL exactly where the comparison of its value is. -/
theorem yields_sizeCompared_absent {opts : Options} {now : Int} {size : SqlValue} {operand : Node}
    (hsize : ∀ fuel s, Yields ((builder opts now fuel).size [operand] m) s fun v _ =>
      SizeWhenAbsent rel entry.qualifier size v) (fuel : Nat) (op : CmpOp) (v : Literal)
    (first negated : Bool) (s : Nat) :
    Yields ((builder opts now fuel).predicate (.expression (comparisonOperator op)
        (inOrder first (.expression .size [operand]) (.value v))) m negated) s fun e _ =>
      ∀ (engine : Engine) (db : Database) env,
        hopsPresent engine db rel (env entry.qualifier) = false →
          (e.eval engine db env = .null ↔ testsNull op v = false ∧
            (if first then engine.compare op size (Val.constant v).bound
              else engine.compare op (Val.constant v).bound size) = .unknown) := by
  have hvalue : ∀ fuel s, Yields ((builder opts now fuel).value (.expression .size [operand]) m) s
      fun v _ => SizeWhenAbsent rel entry.qualifier size v := by
    intro fuel s
    cases fuel with
    | zero => exact Yields.throw _
    | succ fuel => exact hsize fuel s
  refine yields_of_step (fun fuel => ?_) fuel
  have hempty : ∀ left right : Node, (left = .expression .size [operand] ∧ right = .value v ∨
      left = .value v ∧ right = .expression .size [operand]) →
      emptyListComparison (comparisonOperator op) left right = none := by
    rintro _ _ (⟨rfl, rfl⟩ | ⟨rfl, rfl⟩) <;>
      cases op <;> simp [emptyListComparison, comparisonOperator, emptySetFunction, Operand.isExpression]
  cases first with
  | true =>
      rw [inOrder, if_pos rfl, predicateStep_sizeCompared rfl (hempty _ _ (.inl ⟨rfl, rfl⟩)) rfl rfl
        rfl]
      refine (hvalue fuel s).bind fun l s₁ hl => ?_
      obtain ⟨whens, els, rfl, hkinds, heval⟩ := hl
      refine (yields_value_literal v).bind fun r s₂ hr => ?_
      obtain ⟨rfl, rfl⟩ := hr
      refine (Yields.lift (returns_compare_case hkinds _ op v).1).bind fun e s₃ he => ?_
      obtain ⟨rfl, rfl⟩ := he
      apply Yields.pure
      intro engine db env habsent
      exact eval_comparedCase_null (heval engine db env habsent) true op v negated
  | false =>
      rw [inOrder, if_neg (by decide), predicateStep_sizeCompared rfl
        (hempty _ _ (.inr ⟨rfl, rfl⟩)) rfl rfl rfl]
      refine (yields_value_literal v).bind fun l s₁ hl => ?_
      obtain ⟨rfl, rfl⟩ := hl
      refine (hvalue fuel s₁).bind fun r s₂ hr => ?_
      obtain ⟨whens, els, rfl, hkinds, heval⟩ := hr
      refine (Yields.lift (returns_compare_case hkinds _ op v).2).bind fun e s₃ he => ?_
      obtain ⟨rfl, rfl⟩ := he
      apply Yields.pure
      intro engine db env habsent
      exact eval_comparedCase_null (heval engine db env habsent) false op v negated

/-- A collection held back equals no element of a stored one: it is refused. -/
theorem returns_elementMatches_deferred (now : Int) (column : Column) (nullSafe isMap : Bool)
    (source : List FromItem) (correlate body : Expr) (element : Option Expr) (rel : Relation)
    (parent : String) :
    (elementMatches now column
      (.deferredCollection source correlate body element rel parent isMap) nullSafe).Returns
        fun _ => False := by
  cases column.scalarKind with
  | none | some =>
      simp [elementMatches, compare, isTemporal, distribute, compareArms, compareLeaf, isIeee,
        applyComparison, compareNumberText, distributeMixedCase, isCase, compareRight, comparePlain,
        compareMixedTypes, Val.scalarKind, isListLiteral, nullComparison, isNil, foldComparison, asExpr,
        errorf, bind, Except.bind, throw, throwThe, MonadExceptOf.throw]

theorem yields_membershipPredicate_absent {opts : Options} {now : Int}
    (hentry : m.resolve collection = some entry) (hrel : entry.relation = some rel)
    (hvia : rel.via ≠ []) (hparent : ∀ k, entry.qualifier ≠ aliasOf k) (isMap : Bool)
    (lambda needle : Node) (negated : Bool) :
    Yields ((builder opts now fuel).membershipPredicate needle
        (.expression (collectionOperator isMap) [.var collection, lambda]) m negated) s fun e _ =>
      NullWhenAbsent rel entry.qualifier e := by
  have hplain : concatenatedHaystack m
      (.expression (collectionOperator isMap) [.var collection, lambda]) = none := by
    cases isMap <;> rfl
  simp only [Builder.membershipPredicate, hplain, relationFor]
  split
  · rename_i heq
    cases heq
  · rename_i other parent _ _
    rw [Builder.membershipOverRelation]
    split
    · exact yields_errorf _ _
    · refine (yields_value_deferred hentry hrel hvia hparent isMap lambda).bind fun v s₁ hv => ?_
      obtain ⟨scope, body, element, rfl, -⟩ := hv
      refine (Yields.trivial _ _).bind fun aliasName s₂ _ => ?_
      refine (Yields.lift (returns_elementMatches_deferred _ _ _ _ _ _ _ _ _ _)).bind
        fun x s₃ hx => ?_
      exact hx.1.elim
  · simp only [Operand.isVariable, Bool.and_false, Bool.false_eq_true, if_false]
    exact yields_membershipInValue_absent hentry hrel hvia hparent isMap lambda needle negated

end Lowering

/-! ## The conditions over an absent hop -/

section AbsentHop

variable [Double.Rounding] {opts : Options} {now : Int} {engine : Engine} {db : Database}

/-- For a row that some hop of the chain has no row for, the lowering of a condition over
the chain is NULL, under either polarity, exactly when the condition is a guarded one. -/
theorem collectionCondition_null_iff {parent : Mapper} {table collection : String} {entry : Entry}
    {rel : Relation} {negated : Bool} {fuel s s' : Nat} {e : Expr} {env : RowEnv}
    (htable : startsWithText table aliasPrefix = false)
    (hentry : (rootMapper (guardedMapper parent) table).resolve collection = some entry)
    (hrel : entry.relation = some rel) (hvia : rel.via ≠ []) (condition : CollectionCondition)
    (hrun : (builder opts now fuel).predicate (condition.node collection)
      (rootMapper (guardedMapper parent) table) negated s = .ok (e, s'))
    (habsent : hopsPresent engine db rel (env entry.qualifier) = false) :
    e.eval engine db env = .null ↔ condition.guarded engine := by
  have hparent : ∀ k, entry.qualifier ≠ aliasOf k := rootMapper_qualifier_ne htable hentry
  have hnull : ∀ {P : Prop}, P → NullWhenAbsent rel entry.qualifier e →
      (e.eval engine db env = .null ↔ P) :=
    fun hP h => iff_of_true (h engine db env habsent) hP
  have hstep : ∀ {Q : Expr → Prop}, (∀ fuel,
      Yields ((builder opts now fuel).predicateStep (condition.node collection)
        (rootMapper (guardedMapper parent) table) negated) s fun e _ => Q e) → Q e :=
    fun h => (yields_of_step h fuel).of_run hrun
  cases condition with
  | quantified quantifier lambda =>
      refine hnull trivial (hstep fun fuel => ?_)
      have hmacro : (builder opts now fuel).predicateStep
          (.expression quantifier.operator [.var collection, lambda])
          (rootMapper (guardedMapper parent) table) negated =
            (builder opts now fuel).relationMacro quantifier.operator collection lambda
              (rootMapper (guardedMapper parent) table) negated := by
        cases quantifier <;> rfl
      rw [CollectionCondition.node, hmacro]
      exact yields_relationMacro_absent hentry hrel hvia hparent quantifier lambda negated
  | member needle =>
      apply hnull trivial
      refine (yields_predicate_in rfl (fun cond _ _ => NullWhenAbsent.guardedCase cond)
        (fun fuel needle negated s => ?_) fuel needle negated s).of_run hrun
      simp only [Builder.membershipPredicate, concatenatedHaystack, relationFor_var hentry hrel]
      exact yields_membershipOverRelation_absent hvia hparent needle negated
  | intersects other first =>
      refine hnull trivial (hstep fun fuel => ?_)
      exact yields_intersects_absent hentry hrel hvia hparent other first negated
  | projectionIntersects lambda other first =>
      have htruth := hstep (fun fuel => yields_projectionIntersects_absent hentry hrel hvia hparent
        lambda other first negated) engine db env habsent
      refine iff_of_false (fun heval => ?_) not_false
      rw [Expr.truth, heval] at htruth
      cases negated <;> cases htruth
  | subset super =>
      refine hnull trivial (hstep fun fuel => ?_)
      exact yields_isSubset_absent hentry hrel hvia hparent super negated
  | sizeCompared op v first =>
      have hsize := (yields_sizeCompared_absent (fun fuel s =>
        yields_size_absent hentry hrel hvia hparent) fuel op v first negated s).of_run hrun
      simpa [guarded] using hsize engine db env habsent
  | filterSizeCompared lambda op v first =>
      have hsize := (yields_sizeCompared_absent (fun fuel s =>
        yields_filterSize_absent hentry hrel hvia hparent lambda) fuel op v first negated s).of_run
          hrun
      exact hsize engine db env habsent
  | memberOfResult isMap lambda needle =>
      apply hnull trivial
      refine (yields_predicate_in ?_ (fun cond _ _ => NullWhenAbsent.guardedCase cond)
        (fun fuel needle negated s => ?_) fuel needle negated s).of_run hrun
      · cases isMap <;> rfl
      · exact yields_membershipPredicate_absent hentry hrel hvia hparent isMap lambda needle negated

end AbsentHop

/-! Documents reach their tags through a join table, in which a document has no row. -/

def taggingHop : Hop where
  table := "taggings"
  childColumn := "tag_id"
  joinColumn := "tag_id"
  subqueryFilter := []

def chainedTags : Relation :=
  { tagsRelation with via := [taggingHop] }

def chainedTagsEntry : Entry :=
  { nameEntry with relation := some chainedTags, column := "", valueType := .default }

def chainedTagsMapper : Mapper where
  resolve reference := if reference = "R.attr.tags" then some chainedTagsEntry else none

/-- `R.attr.tags.map(t, t.name)`, intersected with `["draft"]`. -/
def draftProjection : CollectionCondition :=
  .projectionIntersects (.expression .lambda [.var "t.name", .var "t"])
    (.value (.array [.string "draft"])) true

def draftProjectionRun : Except Failure (Expr × Nat) :=
  (builder tagsOptions 0 4).predicate (draftProjection.node "R.attr.tags")
    (rootMapper (guardedMapper chainedTagsMapper) "documents") true 0

def draftProjectionExpr : Expr :=
  match draftProjectionRun with
  | .ok (e, _) => e
  | .error _ => .null

theorem collectionCondition_null_iff_draft :
    draftProjectionExpr.eval .bare (fun _ => []) (fun _ => taggedRow .null) = .null ↔
      draftProjection.guarded .bare :=
  @collectionCondition_null_iff _ tagsOptions 0 .bare (fun _ => []) chainedTagsMapper "documents"
    "R.attr.tags" { chainedTagsEntry with qualifier := "documents" } chainedTags true 4 0 2
    draftProjectionExpr (fun _ => taggedRow .null) (by decide) rfl rfl (by decide) draftProjection rfl
    rfl

/-- A document without a tagging is selected by the negated intersection. -/
theorem absentHop_selected :
    ∃ e s, draftProjectionRun = .ok (e, s) ∧
      hopsPresent .bare (fun _ => []) chainedTags (taggedRow .null) = false ∧
      e.eval .bare (fun _ => []) (fun _ => taggedRow .null) = .bool true :=
  ⟨_, _, rfl, rfl, rfl⟩

end QueryPlanAdapters.Go
