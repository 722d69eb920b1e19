import QueryPlanAdapters.Prisma.Translate
import QueryPlanAdapters.Logic.Exception
import QueryPlanAdapters.Sql.Comparison

/-!
# Prisma: a column compared with a column

A comparison of two columns is a field reference. What the mapper says of a NULL
chooses the filter of an equality: a column is missing from the request where it is
NULL, or it is declared explicit and its NULL is the value null. The equality of two
attributes is undecided as soon as one of them is missing.
-/

namespace QueryPlanAdapters.Prisma

open Sql

/-! ## The filter -/

/-- The Prisma model both columns of a comparison belong to: the relation's model inside
a lambda when both are element columns, otherwise the root model. -/
def fieldReferenceContainer (context : TranslationContext) (leftName : String)
    (left : ResolvedFieldReference) (rightName : String) (right : ResolvedFieldReference) :
    Except Refusal String :=
  let outside : Except Refusal String :=
    if !(left.relations.getD []).isEmpty || !(right.relations.getD []).isEmpty then
      unsupported ("Cannot compare columns across relations: " ++
        "Prisma field references only work between fields of the same model")
    else match truthy context.rootModel with
      | some model => .ok model
      | none =>
          throw (.error ("Field-to-field comparison requires the `model` option " ++
            "(the Prisma model name) to build a field reference"))
  match context.scopes.getLast? with
  | none => outside
  | some scope =>
      let start := scope.variableName ++ "."
      let leftInScope := startsWithText leftName start
      let rightInScope := startsWithText rightName start
      if leftInScope != rightInScope then
        unsupported ("Cannot compare a collection element column with an outer column (" ++
          leftName ++ " vs " ++ rightName ++
          "): Prisma field references only work between fields of the same model")
      else if leftInScope then
        match truthy scope.relationModel with
        | some model => .ok model
        | none =>
            throw (.error ("Field-to-field comparison inside a collection requires " ++
              "`relation.model` in the mapper"))
      else outside

/-- A NULL of the explicit column is unequal to any value of the other one. The self-equality
is UNKNOWN where the other column is NULL. -/
def mixedInequality (explicitField otherField container : String) : PrismaFilter :=
  .OR [
    .AND [
      .shorthand explicitField .null,
      .reference otherField .equals otherField container],
    .NOT (.reference explicitField .equals otherField container)]

/-- Two explicit nulls are equal. -/
def explicitEquality (leftField rightField container : String) : PrismaFilter :=
  .OR [
    .AND [.shorthand leftField .null, .shorthand rightField .null],
    .AND [
      .field leftField .not .null,
      .field rightField .not .null,
      .reference leftField .equals rightField container]]

/-- A column compared with a column, as a field reference. -/
def buildFieldToFieldFilter (context : TranslationContext) (operator : PlanOperator)
    (leftOperand : Node) (left : ResolvedFieldReference) (rightOperand : Node)
    (right : ResolvedFieldReference) : Except Refusal PrismaFilter :=
  match comparisonOperator operator, leftOperand, rightOperand with
  | none, _, _ => unsupported ("Unsupported operator: " ++ operator.name)
  | some operator, .var leftName, .var rightName => do
      let container ← fieldReferenceContainer context leftName left rightName right
      let leftField ← getLeafField left.path
      let rightField ← getLeafField right.path
      let leftExplicit := isExplicitNullReference left
      let rightExplicit := isExplicitNullReference right
      if !operator.isOrdering && leftExplicit != rightExplicit then
        let inequality :=
          if leftExplicit then mixedInequality leftField rightField container
          else mixedInequality rightField leftField container
        return if operator = .ne then inequality else .NOT inequality
      else if !operator.isOrdering && leftExplicit then
        let equality := explicitEquality leftField rightField container
        return if operator = .eq then equality else .NOT equality
      else if operator = .ne then
        return .NOT (.reference leftField .equals rightField container)
      else
        return .reference leftField (prismaOperator operator) rightField container
  | some _, _, _ => unsupported "Field-to-field comparison requires two named operands"

/-! ## What CEL says of two attributes -/

/-- The attribute a column stands for. A NULL is a missing attribute, or the value null where
it is declared explicit. -/
def readAttribute (fieldRef : ResolvedFieldReference) (x : SqlValue) : Option Value :=
  if x.isNull && !isExplicitNullReference fieldRef then none else some x.toCel

/-- CEL's comparison of two attributes, an error when one is missing. -/
def compareAttributes (op : ComparisonOperator) : Option Value → Option Value → Truth
  | some x, some y => x.compare op y
  | _, _ => .unknown

@[simp] theorem compareAttributes_none_left (op : ComparisonOperator) (y : Option Value) :
    compareAttributes op none y = .unknown := rfl

@[simp] theorem compareAttributes_none_right (op : ComparisonOperator) (x : Option Value) :
    compareAttributes op x none = .unknown := by
  cases x <;> rfl

/-- `!=` is the negation of `==`. -/
theorem compareAttributes_ne (x y : Option Value) :
    compareAttributes .ne x y = (compareAttributes .eq x y).not := by
  cases x <;> cases y <;> simp [compareAttributes, Value.compare]

theorem compareAttributes_eq_comm (x y : Option Value) :
    compareAttributes .eq x y = compareAttributes .eq y x := by
  cases x <;> cases y <;> simp [compareAttributes, Value.compare, Value.valuesEqual_comm]

/-- Whether two values are of columns of one type. Prisma takes no other field reference. -/
def ofOneType (x y : SqlValue) : Bool :=
  x.isNull || y.isNull || (x.sameTypeKeys y).isSome

theorem ofOneType_comm (x y : SqlValue) : ofOneType x y = ofOneType y x := by
  cases x <;> cases y <;> rfl

/-! ## The filter is CEL's equality -/

section Filters

variable {ρ : Type} {engine : Engine} {store : Store ρ} {r : ρ}

variable {x : SqlValue}

/-- Present values of one type compare as CEL compares them. -/
theorem compare_toCel {y : SqlValue} (hx : x.isNull = false) (hy : y.isNull = false)
    (htype : ofOneType x y = true) :
    engine.compare .eq x y = x.toCel.compare .eq y.toCel := by
  apply compare_eq_celCompare
  simpa [ofOneType, hx, hy] using htype

/-- A value other than NaN is equal to itself, and a NULL is not known to be. -/
theorem compare_self (hx : x ≠ .number .nan) :
    engine.compare .eq x x = if x.isNull then .unknown else .yes := by
  cases x with
  | null => rfl
  | bool b => cases b <;> rfl
  | number d => cases d <;> simp_all [Engine.compare, SqlValue.isNull, SqlValue.sameTypeKeys,
      ComparisonOperator.test, Double.eq]
  | text s => simp [Engine.compare, SqlValue.isNull, SqlValue.sameTypeKeys,
      ComparisonOperator.test, compareCodePoints_eq_zero_iff]
  | time t => simp [Engine.compare, SqlValue.isNull, SqlValue.sameTypeKeys,
      ComparisonOperator.test]

@[simp] theorem toCel_null : SqlValue.null.toCel = .null := rfl

/-- CEL's `==` of a null with a value. -/
theorem compare_null_toCel (h : x.isNull = false) : Value.null.compare .eq x.toCel = .no := by
  cases x <;> first | rfl | cases h

theorem compare_toCel_null (h : x.isNull = false) : x.toCel.compare .eq .null = .no := by
  cases x <;> first | rfl | cases h

theorem truth_isNull (field : String) :
    (PrismaFilter.shorthand field .null).truth engine store r =
      .ofBool (store.column r field).isNull := rfl

theorem truth_isNotNull (field : String) :
    (PrismaFilter.field field .not .null).truth engine store r =
      .ofBool !(store.column r field).isNull := rfl

variable {left right : ResolvedFieldReference} {leftField rightField : String}

/-- Where neither NULL is a value, the reference is undecided as soon as a column is NULL. -/
theorem truth_plainEquality (hleft : isExplicitNullReference left = false)
    (hright : isExplicitNullReference right = false)
    (htype : ofOneType (store.column r leftField) (store.column r rightField) = true)
    (container : String) :
    (PrismaFilter.reference leftField .equals rightField container).truth engine store r =
      compareAttributes .eq (readAttribute left (store.column r leftField))
        (readAttribute right (store.column r rightField)) := by
  rw [PrismaFilter.truth_reference, FieldOperator.comparison]
  cases hx : (store.column r leftField).isNull with
  | true => simp [SqlValue.eq_null_of_isNull hx, readAttribute, hleft]
  | false =>
      cases hy : (store.column r rightField).isNull with
      | true => simp [SqlValue.eq_null_of_isNull hy, readAttribute, hright]
      | false =>
          rw [compare_toCel hx hy htype]
          simp [readAttribute, hx, hy, compareAttributes]

theorem truth_explicitEquality (hleft : isExplicitNullReference left = true)
    (hright : isExplicitNullReference right = true)
    (htype : ofOneType (store.column r leftField) (store.column r rightField) = true)
    (container : String) :
    (explicitEquality leftField rightField container).truth engine store r =
      compareAttributes .eq (readAttribute left (store.column r leftField))
        (readAttribute right (store.column r rightField)) := by
  have hread : ∀ x y, compareAttributes .eq (readAttribute left x) (readAttribute right y) =
      x.toCel.compare .eq y.toCel := by
    intro x y
    simp [readAttribute, hleft, hright, compareAttributes]
  simp only [hread, explicitEquality, PrismaFilter.truth_OR, PrismaFilter.truth_AND,
    List.map_cons, List.map_nil, truth_isNull, truth_isNotNull, PrismaFilter.truth_reference,
    FieldOperator.comparison]
  cases hx : (store.column r leftField).isNull with
  | true =>
      rw [SqlValue.eq_null_of_isNull hx]
      cases hy : (store.column r rightField).isNull with
      | true =>
          rw [SqlValue.eq_null_of_isNull hy]
          rfl
      | false => simp [compare_null_toCel hy]
  | false =>
      cases hy : (store.column r rightField).isNull with
      | true =>
          rw [SqlValue.eq_null_of_isNull hy]
          simp [compare_toCel_null hx]
      | false => simp [compare_toCel hx hy htype]

/-- The self-equality carries the error of the other column into the arm of the null. -/
theorem truth_mixedInequality (hleft : isExplicitNullReference left = true)
    (hright : isExplicitNullReference right = false)
    (htype : ofOneType (store.column r leftField) (store.column r rightField) = true)
    (hnumber : store.column r rightField ≠ .number .nan) (container : String) :
    (mixedInequality leftField rightField container).truth engine store r =
      compareAttributes .ne (readAttribute left (store.column r leftField))
        (readAttribute right (store.column r rightField)) := by
  rw [compareAttributes_ne, mixedInequality]
  simp only [PrismaFilter.truth_OR, PrismaFilter.truth_AND,
    PrismaFilter.truth_NOT (show (PrismaFilter.reference leftField .equals rightField
      container).isEmpty = false from rfl),
    List.map_cons, List.map_nil, truth_isNull, PrismaFilter.truth_reference,
    FieldOperator.comparison, compare_self hnumber]
  cases hy : (store.column r rightField).isNull with
  | true =>
      cases hx : (store.column r leftField).isNull <;>
        simp [SqlValue.eq_null_of_isNull hy, readAttribute, hright, Truth.or]
  | false =>
      cases hx : (store.column r leftField).isNull with
      | true =>
          simp [SqlValue.eq_null_of_isNull hx, readAttribute, hleft, hy, compareAttributes,
            compare_null_toCel hy]
      | false =>
          simp [compare_toCel hx hy htype, readAttribute, hx, hy, compareAttributes]

end Filters

/-! ## Two-column equality -/

section Equality

variable {ρ : Type} {engine : Engine} {store : Store ρ} {r : ρ}

variable {op : ComparisonOperator}

/-- What a filter and its NOT are, from the filter alone. -/
theorem truth_and_truth_NOT {filter : PrismaFilter} {t : Truth} (hempty : filter.isEmpty = false)
    (h : filter.truth engine store r = t) :
    filter.truth engine store r = t ∧ (PrismaFilter.NOT filter).truth engine store r = t.not := by
  refine ⟨h, ?_⟩
  rw [PrismaFilter.truth_NOT hempty, h]

/-- An equality's filter serves `==`, and its NOT serves `!=`. -/
theorem equality_or_NOT {filter : PrismaFilter} {x y : Option Value}
    (hequality : op.isOrdering = false) (hempty : filter.isEmpty = false)
    (h : filter.truth engine store r = compareAttributes .eq x y) :
    (if op = .eq then filter else .NOT filter).truth engine store r =
      compareAttributes op x y := by
  cases op with
  | eq => exact h
  | ne => rw [if_neg (by decide), PrismaFilter.truth_NOT hempty, h, compareAttributes_ne]
  | lt | le | gt | ge => cases hequality

/-- An inequality's filter serves `!=`, and its NOT serves `==`. -/
theorem inequality_or_NOT {filter : PrismaFilter} {x y : Option Value}
    (hequality : op.isOrdering = false) (hempty : filter.isEmpty = false)
    (h : filter.truth engine store r = compareAttributes .ne x y) :
    (if op = .ne then filter else .NOT filter).truth engine store r =
      compareAttributes op x y := by
  cases op with
  | eq =>
      rw [if_neg (by decide), PrismaFilter.truth_NOT hempty, h, compareAttributes_ne,
        Truth.not_not]
  | ne => exact h
  | lt | le | gt | ge => cases hequality

theorem compareAttributes_comm (hequality : op.isOrdering = false)
    (x y : Option Value) : compareAttributes op x y = compareAttributes op y x := by
  cases op with
  | eq => exact compareAttributes_eq_comm x y
  | ne => rw [compareAttributes_ne, compareAttributes_ne, compareAttributes_eq_comm]
  | lt | le | gt | ge => cases hequality

/-- The filter of `==` or `!=` of two columns of one model is CEL's comparison of the two
attributes, and its NOT is the negation of that. -/
theorem buildFieldToFieldFilter_agrees (engine : Engine) (store : Store ρ) (r : ρ)
    {context : TranslationContext} {operator : PlanOperator} {op : ComparisonOperator}
    {leftName rightName leftField rightField container : String}
    {left right : ResolvedFieldReference}
    (hoperator : comparisonOperator operator = some op) (hequality : op.isOrdering = false)
    (hcontainer : fieldReferenceContainer context leftName left rightName right = .ok container)
    (hleft : getLeafField left.path = .ok leftField)
    (hright : getLeafField right.path = .ok rightField)
    (htype : ofOneType (store.column r leftField) (store.column r rightField) = true)
    (hleftNumber : store.column r leftField ≠ .number .nan)
    (hrightNumber : store.column r rightField ≠ .number .nan) :
    ∃ filter, buildFieldToFieldFilter context operator (.var leftName) left (.var rightName) right =
        .ok filter ∧
      filter.truth engine store r =
        compareAttributes op (readAttribute left (store.column r leftField))
          (readAttribute right (store.column r rightField)) ∧
      (PrismaFilter.NOT filter).truth engine store r =
        (compareAttributes op (readAttribute left (store.column r leftField))
          (readAttribute right (store.column r rightField))).not := by
  simp only [buildFieldToFieldFilter, hoperator, hcontainer, hleft, hright, hequality,
    Bool.not_false, Bool.true_and, bind, Except.bind, pure, Except.pure]
  cases hleftExplicit : isExplicitNullReference left with
  | true =>
      cases hrightExplicit : isExplicitNullReference right with
      | true =>
          refine ⟨_, rfl, truth_and_truth_NOT (by cases op <;> rfl) ?_⟩
          exact equality_or_NOT hequality rfl
            (truth_explicitEquality hleftExplicit hrightExplicit htype container)
      | false =>
          refine ⟨_, rfl, truth_and_truth_NOT (by cases op <;> rfl) ?_⟩
          exact inequality_or_NOT hequality rfl
            (truth_mixedInequality hleftExplicit hrightExplicit htype hrightNumber container)
  | false =>
      cases hrightExplicit : isExplicitNullReference right with
      | true =>
          refine ⟨_, rfl, truth_and_truth_NOT (by cases op <;> rfl) ?_⟩
          rw [compareAttributes_comm hequality]
          rw [ofOneType_comm] at htype
          exact inequality_or_NOT hequality rfl
            (truth_mixedInequality hrightExplicit hleftExplicit htype hleftNumber container)
      | false =>
          have hplain : (if op = .ne then
              (Except.ok (.NOT (.reference leftField .equals rightField container)) :
                Except Refusal PrismaFilter)
              else .ok (.reference leftField (prismaOperator op) rightField container)) =
              .ok (if op = .eq then .reference leftField .equals rightField container
                else .NOT (.reference leftField .equals rightField container)) := by
            cases op <;> first | rfl | cases hequality
          refine ⟨_, hplain, truth_and_truth_NOT (by cases op <;> rfl) ?_⟩
          exact equality_or_NOT hequality rfl
            (truth_plainEquality hleftExplicit hrightExplicit htype container)

end Equality

/-- A column of the root model. -/
def rootColumn (field : String) (representation : Option NullAttributeRepresentation) :
    ResolvedFieldReference where
  path := [field]
  nullable := none
  relations := none
  valueType := none
  nullAttributeRepresentation := representation

/-- The translation of a condition over the model `Resource`, outside of any lambda. -/
def resourceContext : TranslationContext where
  mapper := .object fun _ => none
  rootModel := some "Resource"
  nullRepresentation := .omitted
  scopes := []

/-- A record whose column `a` is NULL. -/
def nullAndText : Store Unit where
  column _ field := if field = "a" then .null else .text "x"
  related _ _ := []

/-- An explicit NULL is unequal to a text. -/
theorem buildFieldToFieldFilter_agrees_nullAndText :
    ∃ filter, buildFieldToFieldFilter resourceContext .ne (.var "request.resource.attr.a")
        (rootColumn "a" (some .explicit)) (.var "request.resource.attr.b") (rootColumn "b" none) =
        .ok filter ∧
      filter.truth Engine.bare nullAndText () = .yes ∧
      (PrismaFilter.NOT filter).truth Engine.bare nullAndText () = .no := by
  have hcontainer : fieldReferenceContainer resourceContext "request.resource.attr.a"
      (rootColumn "a" (some .explicit)) "request.resource.attr.b" (rootColumn "b" none) =
      .ok "Resource" := rfl
  have hleft : getLeafField (rootColumn "a" (some .explicit)).path = .ok "a" := rfl
  have hright : getLeafField (rootColumn "b" none).path = .ok "b" := rfl
  have hoperator : comparisonOperator .ne = some .ne := rfl
  exact buildFieldToFieldFilter_agrees Engine.bare nullAndText () hoperator rfl hcontainer hleft hright
    rfl (by decide) (by decide)

end QueryPlanAdapters.Prisma
