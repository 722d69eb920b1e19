import QueryPlanAdapters.Go.Sending

/-!
# Go: membership in a literal list

`x in [v, …]` becomes an IN list of the members that `x` can equal, with a NULL test
for a null member. Over a column that keeps its declared type, the answer is CEL's
wherever the column is not NULL; over a NULL it depends on the convention and on the
members.
-/

namespace QueryPlanAdapters.Go

open Sql

variable {engine : Engine} {db : Database} {env : RowEnv}

/-! ## The value of a membership -/

/-- Whether a member is one SQL can compare with an operand of a kind. -/
def isComparableMember (kind : Option ScalarKind) (v : Literal) : Bool :=
  !isNullLiteral v && !isForeignMember kind (.constant v)

/-- What a membership of an expression in a literal list is lowered to. -/
def loweredMembership (e : Expr) (items : List Literal) : Expr :=
  let members := (items.filter (isComparableMember e.scalarKind)).map fun v =>
    Expr.lit (.constant v)
  let arms := membershipArms e members (items.any isNullLiteral)
  if arms.isEmpty then
    if items.any (fun v => !isNullLiteral v && isForeignMember e.scalarKind (.constant v)) &&
        (explicitNullColumn e).isNone then
      .case [(.isNull e true, .boolConst false)] none
    else .boolConst false
  else .or arms

theorem membership_scalar {x : Val} {e : Expr} (hexpr : asExpr x = .ok e)
    (hlist : isListLiteral x = false) (hscalar : x.scalarKind = e.scalarKind)
    (items : List Literal) :
    membership x (.constant (.array items)) = .ok (loweredMembership e items) := by
  have hnil : ∀ v : Literal, isNil (.constant v) = isNullLiteral v := by
    intro v
    cases v <;> rfl
  have hpresent : (items.map Val.constant).filter (!isNil ·) =
      (items.filter (!isNullLiteral ·)).map Val.constant := by
    rw [List.filter_map]
    simp only [Function.comp_def, hnil]
  have hmembers : ((items.map Val.constant).filter (!isNil ·)).filter
      (!isForeignMember e.scalarKind ·) =
        (items.filter (isComparableMember e.scalarKind)).map Val.constant := by
    rw [hpresent, List.filter_map, List.filter_filter]
    exact congrArg (List.map Val.constant) (List.filter_congr fun v _ => Bool.and_comm _ _)
  have hforeign : ((items.map Val.constant).filter (!isNil ·)).any
      (isForeignMember e.scalarKind) =
        items.any fun v => !isNullLiteral v && isForeignMember e.scalarKind (.constant v) := by
    rw [hpresent, List.any_map, List.any_filter]
    rfl
  have hnull : (items.map Val.constant).any isNil = items.any isNullLiteral := by
    rw [List.any_map]
    simp only [Function.comp_def, hnil]
  simp only [membership, hlist, Bool.false_eq_true, if_false, hexpr, hscalar, hmembers, hforeign,
    hnull, List.map_map, Function.comp_def, loweredMembership, bind, Except.bind, pure, Except.pure]
  split
  · split <;> rfl
  · rfl

theorem membership_expr (e : Expr) (items : List Literal) :
    membership (.expr e) (.constant (.array items)) = .ok (loweredMembership e items) :=
  membership_scalar rfl rfl rfl items

theorem eq_column_of_explicit {e : Expr} {col : Column} (h : explicitNullColumn e = some col) :
    e = .column col := by
  cases e with
  | column c =>
      rw [explicitNullColumn] at h
      split at h
      · rw [Option.some.inj h]
      · cases h
  | _ => cases h

theorem arms_isEmpty {e : Expr} {members : List Expr} {hasNull : Bool} :
    (membershipArms e members hasNull).isEmpty = true ↔ members = [] ∧ hasNull = false := by
  rw [membershipArms]
  cases hasNull <;> cases members <;> cases explicitNullColumn e <;> simp

/-- The arms of a membership: its list, guarded where a null is a value, and a NULL test. -/
theorem truth_arms (e : Expr) (members : List Expr) (hasNull : Bool) :
    (Expr.or (membershipArms e members hasNull)).truth engine db env =
      (if members.isEmpty then .no
        else if (explicitNullColumn e).isSome && !hasNull then
          (Truth.ofBool !(e.eval engine db env).isNull).and
            ((Expr.inList e members).truth engine db env)
        else (Expr.inList e members).truth engine db env).or
        (if hasNull then .ofBool (e.eval engine db env).isNull else .no) := by
  have hnull : ∀ arms : List Expr, (Expr.or (arms ++ if hasNull then [.isNull e false] else [])).truth
      engine db env = (Truth.any (arms.map fun x => x.truth engine db env)).or
        (if hasNull then .ofBool (e.eval engine db env).isNull else .no) := by
    intro arms
    rw [Expr.truth_combine, if_neg Bool.false_ne_true, List.map_append, Truth.any_append]
    cases hasNull <;> simp
  rw [membershipArms, hnull]
  congr 1
  cases members with
  | nil => rfl
  | cons v vs =>
      cases hcolumn : explicitNullColumn e with
      | none => simp
      | some col =>
          obtain rfl := eq_column_of_explicit hcolumn
          cases hasNull with
          | true => simp
          | false => simp

/-- Of a value that is present, the members the database compares decide. -/
theorem truth_membership_present {e : Expr} (items : List Literal)
    (hx : (e.eval engine db env).isNull = false) :
    (loweredMembership e items).truth engine db env =
      Truth.any ((items.filter (isComparableMember e.scalarKind)).map fun v =>
        engine.compare .eq (e.eval engine db env) (Val.constant v).bound) := by
  have hin : (Expr.inList e ((items.filter (isComparableMember e.scalarKind)).map fun v =>
      Expr.lit (.constant v))).truth engine db env =
        Truth.any ((items.filter (isComparableMember e.scalarKind)).map fun v =>
          engine.compare .eq (e.eval engine db env) (Val.constant v).bound) := by
    rw [Expr.truth_inList, List.map_map]
    rfl
  rw [loweredMembership]
  split
  next hempty =>
    obtain ⟨hmembers, -⟩ := arms_isEmpty.mp hempty
    rw [List.map_eq_nil_iff] at hmembers
    rw [hmembers]
    split
    · rw [Expr.truth_case_singleton, Expr.truth_isNull, hx]
      rfl
    · rfl
  next =>
    rw [truth_arms, hin, hx]
    cases hmembers : items.filter (isComparableMember e.scalarKind) with
    | nil => cases items.any isNullLiteral <;> rfl
    | cons v vs => cases items.any isNullLiteral <;> cases (explicitNullColumn e).isSome <;> simp

/-- Of a NULL, its convention and the null members decide. -/
theorem truth_membership_null {e : Expr} (items : List Literal)
    (hx : e.eval engine db env = .null) :
    (loweredMembership e items).truth engine db env =
      if items.any isNullLiteral then .yes
      else if (explicitNullColumn e).isSome || items.isEmpty then .no else .unknown := by
  have hin : ∀ members : List Expr, members ≠ [] →
      (Expr.inList e members).truth engine db env = .unknown := by
    intro members hne
    rw [Expr.truth_inList, hx]
    simp only [Engine.compare_null_left]
    cases members with
    | nil => contradiction
    | cons v vs =>
        rw [Truth.any_eq_ite, if_neg, if_pos]
        · simp
        · simp
  rw [loweredMembership]
  split
  next hempty =>
    obtain ⟨hmembers, hnull⟩ := arms_isEmpty.mp hempty
    rw [List.map_eq_nil_iff] at hmembers
    have hforeign : (items.any fun v => !isNullLiteral v &&
        isForeignMember e.scalarKind (.constant v)) = !items.isEmpty := by
      cases items with
      | nil => rfl
      | cons v vs =>
          rw [List.any_cons, Bool.or_eq_false_iff] at hnull
          have hkept := List.filter_eq_nil_iff.mp hmembers v List.mem_cons_self
          simp only [isComparableMember, hnull.1, Bool.not_false, Bool.true_and,
            Bool.not_eq_true', Bool.not_eq_false] at hkept
          simp [hnull.1, hkept]
    rw [hnull, if_neg Bool.false_ne_true, hforeign]
    cases items with
    | nil => simp
    | cons v vs => cases explicitNullColumn e <;> simp [hx]
  next hnonempty =>
    rw [truth_arms, hx]
    cases hnull : items.any isNullLiteral with
    | true => simp
    | false =>
        have hmembers : (items.filter (isComparableMember e.scalarKind)).map (fun v =>
            Expr.lit (.constant v)) ≠ [] := fun h => hnonempty (arms_isEmpty.mpr ⟨h, hnull⟩)
        have hitems : items.isEmpty = false := by
          cases items with
          | nil => exact absurd rfl hmembers
          | cons v vs => rfl
        rw [hin _ hmembers, if_neg (by simpa using hmembers), hitems]
        cases (explicitNullColumn e).isSome <;> rfl

/-! ## Membership of a typed column -/

/-- A literal that is neither a list nor a map. -/
def isScalarLiteral : Literal → Bool
  | .array _ | .object _ => false
  | _ => true

/-- A type that names one scalar kind. -/
def ValueType.isScalar : ValueType → Bool
  | .string | .number | .bool => true
  | .default | .timestamp => false

section Typed

variable {sending : Sending} {type : ValueType} {x : SqlValue} {c : Column} {v : Literal}

theorem ofPlan_array (items : List Literal) :
    Value.ofPlan (.array items) = .array (items.map Value.ofPlan) := by
  have hlist : ∀ items : List Literal, Value.ofPlanList items = items.map Value.ofPlan := by
    intro items
    induction items with
    | nil => rfl
    | cons item items ih =>
        rw [List.map_cons, ← ih]
        rfl
  rw [← hlist]
  rfl

/-- Membership of a value in a literal list. -/
theorem memberOutcome_literal (value : Value) (items : List Literal) :
    memberOutcome (.value value) (literalValue (.array items)) =
      .value (.bool (items.any fun v => value.valuesEqual (.ofPlan v))) := by
  rw [literalValue, ofPlan_array, memberOutcome, List.any_map]
  rfl

/-- A value of a scalar type, by the type. -/
theorem holds_scalar (htype : type.isScalar = true) (hholds : type.holds x = true)
    (hx : x.isNull = false) :
    (type = .string ∧ ∃ s, x = .text s) ∨ (type = .number ∧ ∃ d, x = .number d) ∨
      (type = .bool ∧ ∃ b, x = .bool b) := by
  cases type <;> cases x <;> simp [ValueType.isScalar, ValueType.holds, SqlValue.isNull] at htype hholds hx ⊢

/-- A member that is comparable with a typed column is compared as CEL compares it. -/
theorem compare_member (htype : c.type.isScalar = true) (hholds : c.type.holds x = true)
    (hx : x.isNull = false) (hcomparable : isComparableMember c.scalarKind v = true)
    (hv : isScalarLiteral v = true) :
    engine.compare .eq x (Val.constant v).bound =
      .ofBool ((sending.value x).valuesEqual (.ofPlan v)) := by
  obtain ⟨htype, s, rfl⟩ | ⟨htype, d, rfl⟩ | ⟨htype, b, rfl⟩ := holds_scalar htype hholds hx
  · rw [Column.scalarKind, htype] at hcomparable
    cases v with
    | string t => exact compare_eq_celCompare rfl .eq
    | array items => cases hv
    | object fields => cases hv
    | _ => cases hcomparable
  · rw [Column.scalarKind, htype] at hcomparable
    cases v with
    | number e => exact compare_eq_celCompare rfl .eq
    | array items => cases hv
    | object fields => cases hv
    | _ => cases hcomparable
  · rw [Column.scalarKind, htype] at hcomparable
    cases v with
    | bool t => exact compare_eq_celCompare rfl .eq
    | array items => cases hv
    | object fields => cases hv
    | _ => cases hcomparable

/-- Any other member is unequal to what the column holds. -/
theorem valuesEqual_member (htype : c.type.isScalar = true) (hholds : c.type.holds x = true)
    (hx : x.isNull = false) (hcomparable : isComparableMember c.scalarKind v = false) :
    (sending.value x).valuesEqual (.ofPlan v) = false := by
  obtain ⟨htype, s, rfl⟩ | ⟨htype, d, rfl⟩ | ⟨htype, b, rfl⟩ := holds_scalar htype hholds hx
  · rw [Column.scalarKind, htype] at hcomparable
    cases v with
    | string t => cases hcomparable
    | _ => rfl
  · rw [Column.scalarKind, htype] at hcomparable
    cases v with
    | number e => cases hcomparable
    | _ => rfl
  · rw [Column.scalarKind, htype] at hcomparable
    cases v with
    | bool t => cases hcomparable
    | _ => rfl

/-- Over a column that keeps its type, membership of what it holds is CEL's. -/
theorem truth_membership_typed {env : RowEnv} {items : List Literal}
    (htype : c.type.isScalar = true) (hholds : c.type.holds (env c.qualifier c.name) = true)
    (hx : (env c.qualifier c.name).isNull = false) (hitems : ∀ v ∈ items, isScalarLiteral v = true) :
    (loweredMembership (.column c) items).truth engine db env =
      .ofBool (items.any fun v =>
        (sending.value (env c.qualifier c.name)).valuesEqual (.ofPlan v)) := by
  have hpresent : ((Expr.column c).eval engine db env).isNull = false := hx
  rw [truth_membership_present items hpresent]
  show Truth.any ((items.filter (isComparableMember c.scalarKind)).map fun v =>
    engine.compare .eq (env c.qualifier c.name) (Val.constant v).bound) = _
  induction items with
  | nil => rfl
  | cons v vs ih =>
      obtain ⟨hv, hvs⟩ := List.forall_mem_cons.mp hitems
      rw [List.filter_cons, List.any_cons, ← Truth.or_ofBool, ← ih hvs]
      cases hcomparable : isComparableMember c.scalarKind v with
      | true =>
          rw [if_pos rfl, List.map_cons, Truth.any_cons,
            compare_member htype hholds hx hcomparable hv]
      | false =>
          rw [if_neg Bool.false_ne_true, valuesEqual_member htype hholds hx hcomparable]
          rfl

end Typed

/-! ## The translation -/

/-- When a NULL is answered as CEL answers it. -/
def answersNull (convention : NullConvention) (fallback : NullRepresentation)
    (items : List Literal) : Prop :=
  match convention, fallback with
  | .explicit, _ => True
  | .omitted, _ | .unset, .omitted => items ≠ [] ∧ items.any isNullLiteral = false
  | .unset, .explicit => items = [] ∨ items.any isNullLiteral = true

theorem valuesEqual_null (v : Literal) : Value.null.valuesEqual (.ofPlan v) = isNullLiteral v := by
  cases v <;> rfl

/-- A missing attribute is an error, which an empty list and a null member hide. -/
theorem missing_iff (items : List Literal) :
    ((if items.any isNullLiteral then Truth.yes
        else if (false || items.isEmpty) then .no else .unknown) =
      (memberOutcome .error (literalValue (.array items))).asBoolean) ↔
      (true = true → items ≠ [] ∧ items.any isNullLiteral = false) := by
  have herror : (memberOutcome .error (literalValue (.array items))).asBoolean = .unknown := rfl
  rw [herror]
  cases items.any isNullLiteral <;> cases items <;> simp

section Translation

variable [Double.Rounding] {opts : Options} {now : Int} {fuel : Nat} {m : Mapper}
  {reference : String} {entry : Entry} {items : List Literal} {negated : Bool} {s s' : Nat} {e : Expr}

/-- A membership of one leaf in another is lowered as it stands. -/
theorem predicateStep_membership {b : Builder} {left right : Node}
    (hleft : left.isExpression = false) (hright : right.isExpression = false) :
    b.predicateStep (.expression .in [left, right]) m negated =
      b.membershipPredicate left right m negated := by
  have hlift : liftListTernary (.expression .in [left, right]) = none := by
    cases left with
    | expression => cases hleft
    | _ =>
        cases right with
        | expression => cases hright
        | _ => rfl
  show b.binaryPredicate .in [left, right] m negated = _
  simp only [Builder.binaryPredicate, hlift, emptyListComparison_leaves .in hleft hright,
    comparisonOps]

theorem yields_membership_literal (hentry : m.resolve reference = some entry)
    (hcolumn : entry.isColumn = true) :
    Yields ((builder opts now fuel).predicate
        (.expression .in [.var reference, .value (.array items)]) m negated) s fun e _ =>
      e = negate (loweredMembership (.column (elementColumn entry.qualifier entry)) items)
        negated := by
  have hrelation : relationFor m (.var reference) = none := by
    obtain ⟨hnone, -⟩ := Entry.isColumn_iff.mp hcolumn
    simp [relationFor, hentry, hnone]
  refine yields_of_step (fun fuel => ?_) fuel
  rw [predicateStep_membership rfl rfl]
  have hvalue : (builder opts now fuel).membershipPredicate (.var reference)
      (.value (.array items)) m negated =
        (builder opts now fuel).membershipInValue (.var reference) (.value (.array items)) m
          negated := by
    rw [Builder.membershipPredicate, hrelation]
    rfl
  rw [hvalue]
  refine (yields_value_column hentry hcolumn).bind fun l s₁ hl => ?_
  obtain ⟨rfl, rfl⟩ := hl
  refine (yields_value_literal _).bind fun r s₂ hr => ?_
  obtain ⟨rfl, rfl⟩ := hr
  dsimp only
  rw [membership_expr]
  exact Yields.pure rfl

/-- The membership of a typed column in a list of scalars and nulls is CEL's, on every row
where the column is not NULL or its NULL is answered as CEL answers it, and on no other. -/
theorem membership_agrees_iff {spell : Int → String} (hentry : m.resolve reference = some entry)
    (hcolumn : entry.isColumn = true) (htype : entry.valueType.isScalar = true)
    (hitems : ∀ v ∈ items, isScalarLiteral v = true)
    (hholds : entry.valueType.holds (env entry.qualifier entry.column) = true)
    (hrun : (builder opts now fuel).predicate
      (.expression .in [.var reference, .value (.array items)]) m negated s = .ok (e, s')) :
    (e.truth engine db env =
        (memberOutcome
          (Sending.read ⟨opts.nullRepresentation, spell⟩ engine db
            { entry := entry, row := env entry.qualifier })
          (literalValue (.array items))).asBoolean.polarised negated) ↔
      ((env entry.qualifier entry.column).isNull = true →
        answersNull entry.nullConvention opts.nullRepresentation items) := by
  obtain rfl := (yields_membership_literal hentry hcolumn).of_run hrun
  have hscalar : entry.scalarRelation = none := (Entry.isColumn_iff.mp hcolumn).2
  have hread : Sending.read ⟨opts.nullRepresentation, spell⟩ engine db
      { entry := entry, row := env entry.qualifier } =
        Sending.outcome ⟨opts.nullRepresentation, spell⟩ entry.nullConvention
          (env entry.qualifier entry.column) := by
    rw [Sending.read, Sending.stored, hscalar]
    rfl
  rw [truth_negate, hread, Truth.polarised_inj]
  cases hx : (env entry.qualifier entry.column).isNull with
  | false =>
      have houtcome : Sending.outcome ⟨opts.nullRepresentation, spell⟩ entry.nullConvention
          (env entry.qualifier entry.column) =
            .value (Sending.value ⟨opts.nullRepresentation, spell⟩
              (env entry.qualifier entry.column)) := by
        rw [Sending.outcome, hx]
        rfl
      have htruth : (loweredMembership (.column (elementColumn entry.qualifier entry)) items).truth
          engine db env = .ofBool (items.any fun v =>
            (Sending.value ⟨opts.nullRepresentation, spell⟩
              (env entry.qualifier entry.column)).valuesEqual (.ofPlan v)) :=
        truth_membership_typed htype hholds hx hitems
      rw [houtcome, memberOutcome_literal]
      exact iff_of_true htruth (by rintro ⟨⟩)
  | true =>
      have hnull : (Expr.column (elementColumn entry.qualifier entry)).eval engine db env =
          .null := by
        show env entry.qualifier entry.column = .null
        cases h : env entry.qualifier entry.column <;> rw [h] at hx <;> first | rfl | cases hx
      have hexplicit : (explicitNullColumn (.column (elementColumn entry.qualifier entry))).isSome =
          (entry.nullConvention = .explicit : Bool) := by
        cases hconvention : entry.nullConvention <;>
          simp [explicitNullColumn, elementColumn, hconvention]
      rw [truth_membership_null items hnull, hexplicit]
      have hcolumn : env entry.qualifier entry.column = .null := hnull
      rw [hcolumn]
      cases hconvention : entry.nullConvention with
      | explicit =>
          have houtcome : Sending.outcome ⟨opts.nullRepresentation, spell⟩ .explicit .null =
              .value .null := rfl
          rw [houtcome, memberOutcome_literal]
          simp only [valuesEqual_null, answersNull, implies_true, iff_true]
          cases items.any isNullLiteral <;> rfl
      | omitted =>
          have houtcome : Sending.outcome ⟨opts.nullRepresentation, spell⟩ .omitted .null =
              .error := rfl
          rw [houtcome]
          exact missing_iff items
      | unset =>
          cases hfallback : opts.nullRepresentation with
          | omitted =>
              have houtcome : Sending.outcome ⟨.omitted, spell⟩ .unset .null = .error := rfl
              rw [houtcome]
              exact missing_iff items
          | explicit =>
              have houtcome : Sending.outcome ⟨.explicit, spell⟩ .unset .null = .value .null := rfl
              rw [houtcome, memberOutcome_literal]
              simp only [valuesEqual_null, answersNull]
              cases items.any isNullLiteral <;> cases items <;> simp [Outcome.asBoolean]

end Translation

/-! A document whose status is missing, outside of an empty list. -/

def statusMapper : Mapper where
  resolve reference :=
    if reference = "R.attr.status" then
      some { nameEntry with column := "status", nullConvention := .omitted }
    else none

def statusMembership (items : List Literal) : Node :=
  .expression .in [.var "R.attr.status", .value (.array items)]

def statusRow (status : SqlValue) : RowEnv := fun _ column =>
  if column = "status" then status else .null

def statusOutcome (status : SqlValue) : Outcome :=
  Sending.read ⟨.explicit, fun _ => ""⟩ .bare (fun _ => [])
    { entry := { nameEntry with column := "status", nullConvention := .omitted }
      row := statusRow status "documents" }

/-- The negation of the membership selects the row, on which CEL has an error. -/
theorem notInEmptyList_selected :
    build 3 0 (.expression .not [statusMembership []]) statusMapper tagsOptions =
        .ok (.boolConst true) ∧
      (Expr.boolConst true).truth .bare (fun _ => []) (statusRow .null) = .yes ∧
        (memberOutcome (statusOutcome .null) (literalValue (.array []))).asBoolean.not = .unknown :=
  ⟨rfl, rfl, rfl⟩

theorem membership_agrees_iff_status :
    ((loweredMembership (.column (elementColumn "documents"
          { nameEntry with column := "status", nullConvention := .omitted })) [.string "draft"]).truth
        .bare (fun _ => []) (statusRow .null) =
      (memberOutcome (statusOutcome .null)
        (literalValue (.array [.string "draft"]))).asBoolean.polarised false) ↔
    ((statusRow .null "documents" "status").isNull = true →
      answersNull .omitted .explicit [.string "draft"]) :=
  @membership_agrees_iff .bare (fun _ => []) (statusRow .null) _ tagsOptions 0 2
    (rootMapper (guardedMapper statusMapper) "documents") "R.attr.status"
    { nameEntry with column := "status", nullConvention := .omitted, qualifier := "documents" }
    [.string "draft"] false 0 0 _ (fun _ => "") rfl rfl rfl (by decide) rfl rfl

end QueryPlanAdapters.Go
