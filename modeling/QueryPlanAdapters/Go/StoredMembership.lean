import QueryPlanAdapters.Go.EqualityAgreement

/-!
# Go: membership in a stored list

`needle in R.attr.list` compares each element with the needle inside the subquery over
the relation. A needle that is an error is NULL there, so that the result is NULL where
an element reads it, where the chain of the relation has a hop without a row, and where
the guard outside the subquery tests the needle. Elsewhere the result is definite.
-/

namespace QueryPlanAdapters.Go

open Sql

/-! ## Folds over a relation -/

section Folds

variable {engine : Engine} {db : Database} {env : RowEnv} {rel : Relation} {parent : String}
  {n s : Nat} {body : Expr} {f : Row → Truth}

/-- Comparisons that are all FALSE or UNKNOWN. -/
theorem any_unknown_iff {α : Type} (hidden : α → Bool) (as : List α) :
    Truth.any (as.map fun a => if hidden a then .no else .unknown) = .unknown ↔
      (as.any fun a => !hidden a) = true := by
  have hyes : Truth.yes ∉ as.map fun a => if hidden a then Truth.no else .unknown := by
    intro h
    obtain ⟨a, -, ha⟩ := List.mem_map.mp h
    split at ha <;> cases ha
  rw [Truth.any_eq_ite, if_neg hyes, List.any_eq_true]
  simp only [List.mem_map, ite_eq_right_iff, Bool.not_eq_true', reduceCtorEq, imp_false,
    Bool.not_eq_true]
  constructor
  · intro h
    by_contra hnone
    rw [if_neg hnone] at h
    cases h
  · intro h
    rw [if_pos h]

/-- Whether a hop of the chain has no row for the parent. -/
def hopMissing (engine : Engine) (db : Database) (rel : Relation) (row : Row) : Bool :=
  !rel.via.isEmpty && !hopsPresent engine db rel row

theorem yields_requireHops_truth (hparent : ∀ k, s < k → parent ≠ aliasOf k) (e : Expr) :
    Yields (requireHops rel parent e) s fun guarded s' => s ≤ s' ∧
      ∀ (engine : Engine) (db : Database) env, guarded.truth engine db env =
        if hopMissing engine db rel (env parent) then .unknown else e.truth engine db env := by
  cases hvia : rel.via with
  | nil =>
      have hpresent : ∀ (engine : Engine) (db : Database) row,
          hopMissing engine db rel row = false := by
        intro engine db row
        rw [hopMissing, hvia]
        rfl
      rw [requireHops_direct hvia]
      refine Yields.pure ⟨le_rfl, fun engine db env => ?_⟩
      rw [hpresent, if_neg Bool.false_ne_true]
  | cons hop hops =>
      have hne : rel.via ≠ [] := by
        rw [hvia]
        nofun
      refine (yields_requireHops_guard hne hparent e).imp fun guarded s' h => ?_
      obtain ⟨hle, g, rfl, htruth⟩ := h
      refine ⟨hle, fun engine db env => ?_⟩
      rw [Expr.truth_case_singleton, htruth, hopMissing, hvia]
      cases hopsPresent engine db rel (env parent) <;> rfl

/-- A macro over a relation folds the rows that are reached, where the body's truth on a
row depends on the element alone. -/
theorem yields_triStateExists_reached (hparent : ∀ k, n ≤ k → parent ≠ aliasOf k) (hn : n ≤ s)
    (hbody : ∀ row : RowEnv, (∀ qualifier, (∀ k, n ≤ k → qualifier ≠ aliasOf k) →
      row qualifier = env qualifier) → body.truth engine db row = f (row (aliasOf n)))
    (sem : MacroSemantics) (negated : Bool) :
    Yields (triStateExists rel (aliasOf n) parent body sem negated) s fun e s' => s ≤ s' ∧
      e.truth engine db env =
        (if hopMissing engine db rel (env parent) then Truth.unknown
          else sem.fold ((reached engine db rel (env parent)).map f)).polarised negated := by
  rw [triStateExists]
  refine (yields_relationScope_reached hparent hn).bind fun scope s₁ h => ?_
  obtain ⟨hle, hrows⟩ := h
  obtain ⟨hreached, hkept⟩ := hrows engine db env
  have hguarded : ∀ k, s₁ < k → parent ≠ aliasOf k := fun k hk => hparent k (by omega)
  refine (yields_requireHops_truth hguarded _).bind fun guarded s₂ h => ?_
  obtain ⟨hle', htruth⟩ := h
  refine Yields.pure ⟨hle.trans hle', ?_⟩
  have htruths : scope.truths engine db body env = (reached engine db rel (env parent)).map f := by
    rw [Scope.truths, ← hreached, List.map_map]
    exact List.map_congr_left fun row hrow => hbody row (hkept row hrow)
  rw [truth_negate, htruth, truth_triState, htruths]

end Folds

/-! ## Elements and needles -/

/-- What a comparison asks of an element. -/
def elementStanding (field : Entry) : Standing where
  isNull := false
  kind := (elementColumn "" field).scalarKind
  isExplicit := field.nullConvention = .explicit

theorem stands_element (aliasName : String) (field : Entry) :
    Stands (elementStanding field) (.expr (.column (elementColumn aliasName field)))
      (.column (elementColumn aliasName field)) where
  expr := rfl
  shape := .inl rfl
  isNil_eq := rfl
  kind := rfl
  explicit := by
    cases hconvention : field.nullConvention <;>
      simp [explicitNullColumn, elementColumn, elementStanding, hconvention]

/-- Whether the equality of an element with a needle that is an error is FALSE: a null
element is unequal to it, unless they are compared as values of two types. -/
def hidesError (m : Mapper) (truthOf : Node → Truth) (needle : ScalarOperand) (field : Entry)
    (x : SqlValue) : Bool :=
  (elementStanding field).isExplicit && x.isNull && (needle.chosen m truthOf).any fun arm =>
    !kindsDiffer (elementStanding field).kind (arm.kind m)

section Needles

variable {engine : Engine} {db : Database} {m : Mapper} {truthOf : Node → Truth} {n : Nat}
  {env env' : RowEnv} {sending : Sending} {needle : ScalarOperand} {ne : Expr} {field : Entry}
  {x : SqlValue}

/-- The equality of an element with a needle. -/
def elementTruth (engine : Engine) (db : Database) (m : Mapper) (truthOf : Node → Truth)
    (env : RowEnv) (needle : ScalarOperand) (field : Entry) (x : SqlValue) : Truth :=
  (needle.chosen m truthOf).elim .unknown fun arm =>
    equalityTruth engine (elementStanding field) (arm.standing m) x
      (arm.stored engine db m truthOf env)

/-- Whether an operand is read from a column of the row itself. -/
def ScalarOperand.readsColumn (m : Mapper) : ScalarOperand → Bool
  | .reference name => (m.resolve name).any Entry.isColumn
  | _ => false

def ScalarOperand.isLiteral : ScalarOperand → Bool
  | .literal _ => true
  | _ => false

/-- The comparison of an element with a needle: a NULL test of a null literal, and of a
column the null-safe equality, unless neither's NULL is a null. -/
def elementCompared (engine : Engine) (db : Database) (opts : Options) (m : Mapper)
    (truthOf : Node → Truth) (env : RowEnv) (needle : ScalarOperand) (field : Entry)
    (x : SqlValue) : Truth :=
  if needle.isNull then .ofBool x.isNull
  else if needle.readsColumn m then
    if !needleOmitted opts needle.node m || field.nullConvention = .explicit then
      .ofBool (notDistinctFrom engine x (needle.stored engine db m truthOf env))
    else engine.compare .eq x (needle.stored engine db m truthOf env)
  else elementTruth engine db m truthOf env needle field x

/-- Whether a guard outside the subquery tests the needle. -/
def needleGuarded (opts : Options) (m : Mapper) (needle : ScalarOperand) : Bool :=
  !needle.isLiteral && needleOmitted opts needle.node m

theorem elementTruth_error (hconcat : StandardConcat engine) (hform : needle.WellFormed m)
    (hkeeps : needle.Keeps engine db m truthOf env)
    (herror : needle.outcome engine db m truthOf env sending = .error) :
    elementTruth engine db m truthOf env needle field x =
      if hidesError m truthOf needle field x then .no else .unknown := by
  obtain ⟨-, hsome⟩ := @chosen_values engine db m truthOf env sending needle
  rw [elementTruth, hidesError]
  cases hchosen : needle.chosen m truthOf with
  | none => rw [Option.any_none, Bool.and_false, Option.elim_none, if_neg Bool.false_ne_true]
  | some arm =>
      obtain ⟨-, houtcome, hform', hkeeps'⟩ := hsome arm hchosen
      have harm : arm.outcome engine db m truthOf env sending = .error := houtcome.trans herror
      have hstored : arm.stored engine db m truthOf env = .null := by
        have hcarries := @ScalarOperand.carries_outcome engine db m truthOf env sending hconcat arm
          (hform' hform) (hkeeps' hkeeps)
        rw [harm] at hcarries
        exact hcarries.error
      have hnull : arm.isNull = false := by
        cases arm with
        | literal v => cases harm
        | _ => rfl
      have hexplicit : arm.isExplicit m = false := by
        rw [← Bool.not_eq_true]
        intro h
        rw [outcome_explicit h] at harm
        cases harm
      rw [Option.elim_some, Option.any_some, equalityTruth, arm.standing_isNull, arm.standing_kind,
        arm.standing_isExplicit, hnull, hexplicit, hstored]
      have hcompare : engine.compare .eq x .null = .unknown := Engine.compare_null_right x
      cases kindsDiffer (elementStanding field).kind (arm.kind m) <;>
        cases (elementStanding field).isExplicit <;> cases x.isNull <;>
          simp [SqlValue.isNull, elementStanding, hcompare]

theorem isColumn_eq (h : LoweredTo engine db m truthOf n env needle ne) :
    isColumn ne = needle.readsColumn m := by
  cases h with
  | column hentry hcolumn =>
      rw [ScalarOperand.readsColumn, hentry, Option.any_some, hcolumn]
      rfl
  | hop hentry hhop heval =>
      rw [ScalarOperand.readsColumn, hentry, Option.any_some, hhop]
      rfl
  | _ => rfl

theorem compare_element [Double.Rounding] {now : Int} (element : Column)
    (hform : needle.WellFormed m) :
    compare now .eq (.expr (.column element)) (needle.val ne) =
      compareRight .eq (.expr (.column element)) (needle.val ne) := by
  have hscalars := @compare_scalars m (.reference "") needle .eq _ now trivial hform
    (.column element) ne
  have htext : compareNumberText .eq (.expr (.column element)) (needle.val ne) = none := by
    cases needle <;> rfl
  refine hscalars.trans ?_
  show applyComparison .eq (.expr (.column element)) (needle.val ne) = _
  rw [applyComparison, htext]
  rfl

/-- The predicate on an element compares it with the needle. -/
theorem truth_elementMatches [Double.Rounding] {opts : Options} {now : Int} {aliasName : String}
    {body : Expr} (hne : LoweredTo engine db m truthOf n env needle ne)
    (hform : needle.WellFormed m) (halias : m.avoidsAliases n) (hrows : SameRows n env env')
    (hnegated : StandardInequality engine)
    (h : elementMatches now (elementColumn aliasName field) (needle.val ne)
      (!needleOmitted opts needle.node m || field.nullConvention = .explicit) = .ok body) :
    body.truth engine db env' =
      elementCompared engine db opts m truthOf env needle field (env' aliasName field.column) := by
  have hcompared : ∀ {body : Expr},
      compare now .eq (.expr (.column (elementColumn aliasName field))) (needle.val ne) = .ok body →
        body.truth engine db env' =
          elementTruth engine db m truthOf env needle field (env' aliasName field.column) := by
    intro body hbody
    rw [compare_element _ hform] at hbody
    exact truth_compareRight (stands_element _ field) rfl hne hform halias hrows rfl hnegated hbody
  have heval := hne.eval_eq halias hrows
  have hcolumn := isColumn_eq hne
  rw [elementCompared, ← hcolumn]
  cases hne with
  | literal v =>
      cases v with
      | null =>
          obtain rfl := Except.ok.inj h
          rw [Expr.truth_isNull, Bool.xor_false]
          rfl
      | array items => cases hform
      | object fields => cases hform
      | _ => exact hcompared h
  | @column name entry hentry hstored =>
      obtain rfl := Except.ok.inj h
      rw [← heval]
      cases hsafe : (!needleOmitted opts (ScalarOperand.reference name).node m ||
        decide (field.nullConvention = .explicit)) with
      | true => rfl
      | false =>
          rw [if_neg Bool.false_ne_true, Expr.truth_cmp]
          rfl
  | _ => exact hcompared h

/-- A column whose NULL is an error is guarded. -/
theorem needleOmitted_of_error {opts : Options} {spell : Int → String}
    (hcolumn : needle.readsColumn m = true)
    (herror : needle.outcome engine db m truthOf env ⟨opts.nullRepresentation, spell⟩ = .error) :
    needleOmitted opts needle.node m = true := by
  cases needle with
  | reference name =>
      obtain ⟨entry, hentry, hstored⟩ := (Option.any_eq_true _ _).mp hcolumn
      have hscalar : entry.scalarRelation = none := (Entry.isColumn_iff.mp hstored).2
      rw [ScalarOperand.outcome, ScalarOperand.readingOf, hentry, Option.map_some,
        Option.elim_some, Sending.read, Sending.stored, hscalar] at herror
      show needleOmitted opts (.var name) m = true
      rw [needleOmitted, hentry, Option.elim_some]
      cases hconvention : entry.nullConvention with
      | omitted => rfl
      | explicit =>
          rw [hconvention, Option.elim_some, Sending.outcome, if_neg (by simp [NullConvention.under])]
            at herror
          cases herror
      | unset =>
          cases hfallback : opts.nullRepresentation with
          | omitted => rfl
          | explicit =>
              rw [hconvention, hfallback, Option.elim_some, Sending.outcome,
                if_neg (by simp [NullConvention.under])] at herror
              cases herror
  | _ => cases hcolumn

end Needles

/-! ## The translation -/

/-- Whether a membership in a stored list is NULL over a needle that is an error: the guard
tests the needle, a hop is missing, or an element reads it. -/
def readsError (engine : Engine) (db : Database) (opts : Options) (m : Mapper)
    (truthOf : Node → Truth) (needle : ScalarOperand) (rel : Relation) (field : Entry)
    (parent : Row) : Bool :=
  needleOmitted opts needle.node m || hopMissing engine db rel parent ||
    (reached engine db rel parent).any fun element =>
      !hidesError m truthOf needle field (element field.column)

section Translation

variable [Double.Rounding] {engine : Engine} {db : Database} {m : Mapper} {truthOf : Node → Truth}
  {n : Nat} {env : RowEnv} {opts : Options} {now : Int} {needle : ScalarOperand} {rel : Relation}
  {field : Entry} {spell : Int → String}

/-- What a membership in a stored list is lowered to. -/
def storedMembershipTruth (engine : Engine) (db : Database) (opts : Options) (m : Mapper)
    (truthOf : Node → Truth) (env : RowEnv) (needle : ScalarOperand) (rel : Relation)
    (field : Entry) (parent : Row) : Truth :=
  if needleGuarded opts m needle && (needle.stored engine db m truthOf env).isNull then .unknown
  else if hopMissing engine db rel parent then .unknown
  else Truth.any ((reached engine db rel parent).map fun element =>
    elementCompared engine db opts m truthOf env needle field (element field.column))

theorem yields_membershipOverRelation_truth {parent : String} {needle : ScalarOperand}
    (hnegated : StandardInequality engine) (halias : m.avoidsAliases n)
    (hparent : ∀ k, n < k → parent ≠ aliasOf k) (hfield : rel.field = some field)
    (hform : needle.WellFormed m)
    (hconds : ∀ cond ∈ needle.conditions, LowersCondition engine db m truthOf n env opts now cond)
    (fuel : Nat) {s : Nat} (hs : n ≤ s) (negated : Bool) :
    Yields ((builder opts now fuel).membershipOverRelation needle.node rel parent m negated) s
      fun e s' => s ≤ s' ∧ e.truth engine db env =
        (storedMembershipTruth engine db opts m truthOf env needle rel field
          (env parent)).polarised negated := by
  have hopts : (builder opts now fuel).opts = opts := by cases fuel <;> rfl
  rw [Builder.membershipOverRelation, hfield]
  refine (yields_value hform halias hconds fuel hs).bind fun v s₁ h => ?_
  obtain ⟨hle, ne, hne, rfl⟩ := h
  refine (yields_newAlias s₁).bind fun aliasName s₂ hnew => ?_
  obtain ⟨rfl, rfl⟩ := hnew
  rw [hopts, builder_now]
  refine (Yields.lift (P := fun body => elementMatches now (elementColumn (aliasOf (s₁ + 1)) field)
    (needle.val ne) _ = .ok body) fun body h => h).bind fun body s₂ h => ?_
  obtain ⟨hbody, rfl⟩ := h
  have hfresh : ∀ k, s₁ + 1 ≤ k → parent ≠ aliasOf k := fun k hk => hparent k (by omega)
  have helement : ∀ row : RowEnv, (∀ qualifier, (∀ k, s₁ + 1 ≤ k → qualifier ≠ aliasOf k) →
      row qualifier = env qualifier) → body.truth engine db row =
        elementCompared engine db opts m truthOf env needle field
          (row (aliasOf (s₁ + 1)) field.column) := by
    intro row hrow
    have hrows : SameRows n env row := fun qualifier hqualifier =>
      hrow qualifier fun k hk => hqualifier k (by omega)
    exact truth_elementMatches hne hform halias hrows hnegated hbody
  refine (yields_triStateExists_reached hfresh le_rfl (f := fun element =>
    elementCompared engine db opts m truthOf env needle field (element field.column)) helement _
      negated).bind fun result s₃ h => ?_
  obtain ⟨hle', htruth⟩ := h
  rw [fold_existsSemantics] at htruth
  have hplain : needleGuarded opts m needle = false → result.truth engine db env =
      (storedMembershipTruth engine db opts m truthOf env needle rel field
        (env parent)).polarised negated := by
    intro hguard
    rw [storedMembershipTruth, hguard, Bool.false_and, if_neg Bool.false_ne_true, htruth]
  cases hliteral : needle.isLiteral with
  | true =>
      obtain ⟨v, rfl⟩ : ∃ v, needle = .literal v := by
        cases needle with
        | literal v => exact ⟨v, rfl⟩
        | _ => cases hliteral
      exact Yields.pure ⟨by omega, hplain (by rw [needleGuarded, hliteral]; rfl)⟩
  | false =>
      have hval : needle.val ne = .expr ne := by
        cases needle with
        | literal v => cases hliteral
        | _ => rfl
      have hguarded : needleGuarded opts m needle = needleOmitted opts needle.node m := by
        rw [needleGuarded, hliteral]
        rfl
      rw [hval]
      refine Yields.pure ⟨by omega, ?_⟩
      split
      next homitted =>
        rw [homitted] at hguarded
        rw [Expr.truth_case_singleton, Expr.truth_isNull, hne.eval_eq halias (SameRows.refl n env),
          storedMembershipTruth, hguarded]
        cases (needle.stored engine db m truthOf env).isNull with
        | true => exact (Truth.polarised_unknown negated).symm
        | false => exact htruth
      next homitted =>
        rw [Bool.not_eq_true] at homitted
        exact hplain (hguarded.trans homitted)

omit [Double.Rounding] in
/-- Over a needle that is an error, the membership is NULL where something reads it. -/
theorem storedMembershipTruth_error {needle : ScalarOperand} {parent : Row}
    (hconcat : StandardConcat engine) (hform : needle.WellFormed m)
    (hkeeps : needle.Keeps engine db m truthOf env)
    (herror : needle.outcome engine db m truthOf env ⟨opts.nullRepresentation, spell⟩ = .error) :
    storedMembershipTruth engine db opts m truthOf env needle rel field parent = .unknown ↔
      readsError engine db opts m truthOf needle rel field parent = true := by
  have hstored : needle.stored engine db m truthOf env = .null := by
    have hcarries := @ScalarOperand.carries_outcome engine db m truthOf env
      ⟨opts.nullRepresentation, spell⟩ hconcat needle hform hkeeps
    rw [herror] at hcarries
    exact hcarries.error
  have hliteral : needle.isLiteral = false ∧ needle.isNull = false := by
    cases needle with
    | literal v => cases herror
    | _ => exact ⟨rfl, rfl⟩
  rw [storedMembershipTruth, readsError, needleGuarded, hliteral.1, hstored, Bool.not_false,
    Bool.true_and, SqlValue.isNull, Bool.and_true]
  cases hguard : needleOmitted opts needle.node m with
  | true => exact iff_of_true rfl rfl
  | false =>
      rw [if_neg Bool.false_ne_true, Bool.false_or]
      cases hopMissing engine db rel parent with
      | true => exact iff_of_true rfl rfl
      | false =>
          have hcolumn : needle.readsColumn m = false := by
            rw [← Bool.not_eq_true]
            intro hcolumn
            rw [needleOmitted_of_error hcolumn herror] at hguard
            cases hguard
          rw [if_neg Bool.false_ne_true, Bool.false_or, ← any_unknown_iff]
          simp only [elementCompared, hliteral.2, hcolumn, Bool.false_eq_true, if_false,
            elementTruth_error hconcat hform hkeeps herror]

theorem predicateStep_storedMembership {b : Builder} {collection : String} {entry : Entry}
    (hform : needle.WellFormed m) (hentry : m.resolve collection = some entry)
    (hrel : entry.relation = some rel) (negated : Bool) :
    b.predicateStep (.expression .in [needle.node, .var collection]) m negated =
      b.membershipOverRelation needle.node rel entry.qualifier m negated := by
  have hcollection : (ScalarOperand.reference collection).WellFormed m := trivial
  have hmembership : b.membershipPredicate needle.node (.var collection) m negated =
      b.membershipOverRelation needle.node rel entry.qualifier m negated := by
    rw [Builder.membershipPredicate, relationFor_var hentry hrel]
    rfl
  rw [← hmembership]
  show b.binaryPredicate .in [needle.node, (ScalarOperand.reference collection).node] m negated = _
  simp only [Builder.binaryPredicate,
    (unlifted_node hform).liftListTernary_none (unlifted_node hcollection),
    (unlifted_node hform).emptyListComparison_none (unlifted_node hcollection), comparisonOps]
  rfl

/-- Over a needle that is an error, a membership in a stored list and its negation are NULL
exactly where the guard tests the needle, a hop is missing, or an element reads it. -/
theorem storedMembership_null_iff {collection : String} {entry : Entry} {negated : Bool}
    {fuel s s' : Nat} {e : Expr} (hconcat : StandardConcat engine)
    (hnegated : StandardInequality engine) (halias : m.avoidsAliases n) (hs : n ≤ s)
    (hentry : m.resolve collection = some entry) (hrel : entry.relation = some rel)
    (hfield : rel.field = some field) (hform : needle.WellFormed m)
    (hkeeps : needle.Keeps engine db m truthOf env)
    (hconds : ∀ cond ∈ needle.conditions, LowersCondition engine db m truthOf n env opts now cond)
    (herror : needle.outcome engine db m truthOf env ⟨opts.nullRepresentation, spell⟩ = .error)
    (hrun : (builder opts now fuel).predicate (.expression .in [needle.node, .var collection]) m
      negated s = .ok (e, s')) :
    e.truth engine db env = .unknown ↔
      readsError engine db opts m truthOf needle rel field (env entry.qualifier) = true := by
  have hlowered : Yields ((builder opts now fuel).predicate
      (.expression .in [needle.node, .var collection]) m negated) s fun e _ =>
        e.truth engine db env = .unknown ↔
          readsError engine db opts m truthOf needle rel field (env entry.qualifier) = true := by
    refine yields_of_step (fun fuel => ?_) fuel
    rw [predicateStep_storedMembership hform hentry hrel]
    refine (yields_membershipOverRelation_truth hnegated halias
      (fun k hk => halias collection entry hentry k hk) hfield hform hconds fuel hs negated).imp
        fun e s' h => ?_
    rw [h.2, Truth.polarised_eq_unknown_iff]
    exact storedMembershipTruth_error hconcat hform hkeeps herror
  exact hlowered.of_run hrun

end Translation

/-! A document that has neither an owner nor tags. -/

def tagNamesRelation : Relation :=
  { tagsRelation with field := some nameEntry }

def tagNamesEntry : Entry :=
  { nameEntry with relation := some tagNamesRelation, column := "", valueType := .default }

def ownedMapper : Mapper where
  resolve reference :=
    if reference = "R.attr.tagNames" then some tagNamesEntry else ownerMapper.resolve reference

def ownedRoot : Mapper :=
  rootMapper (guardedMapper ownedMapper) "documents"

def ownerIsTag : Node :=
  .expression .in [.var "R.attr.owner.name", .var "R.attr.tagNames"]

/-- The negation of the membership selects the document, on which CEL has an error. -/
theorem absentOwner_notTagged :
    ∃ e, build 4 0 (.expression .not [ownerIsTag]) ownedMapper tagsOptions = .ok e ∧
      e.truth concatEngine (fun _ => []) (fun _ => taggedRow .null) = .yes ∧
        (ScalarOperand.reference "R.attr.owner.name").outcome concatEngine (fun _ => []) ownedRoot
          (fun _ => .unknown) (fun _ => taggedRow .null) ⟨.explicit, fun _ => ""⟩ = .error :=
  ⟨_, rfl, rfl, rfl⟩

theorem storedMembership_null_iff_owner : ∃ e s,
    (builder tagsOptions 0 4).predicate ownerIsTag ownedRoot true 0 = .ok (e, s) ∧
      (e.truth concatEngine (fun _ => []) (fun _ => taggedRow .null) = .unknown ↔
        readsError concatEngine (fun _ => []) tagsOptions ownedRoot (fun _ => .unknown)
          (.reference "R.attr.owner.name") tagNamesRelation nameEntry (taggedRow .null) = true) :=
  ⟨_, _, rfl, @storedMembership_null_iff _ concatEngine (fun _ => []) ownedRoot
    (fun _ => .unknown) 0 (fun _ => taggedRow .null) tagsOptions 0 (.reference "R.attr.owner.name")
    tagNamesRelation nameEntry (fun _ => "") "R.attr.tagNames"
    { tagNamesEntry with qualifier := "documents" } true 4 0 _ _ concatEngine_standard
    (fun _ _ => rfl) (avoidsAliases_rootMapper (by decide) 0) le_rfl rfl rfl rfl trivial
    (fun reading hreading x hx => by
      obtain rfl := Option.some.inj hreading
      cases hx)
    nofun rfl rfl⟩

end QueryPlanAdapters.Go
