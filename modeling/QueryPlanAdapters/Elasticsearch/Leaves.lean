import QueryPlanAdapters.Elasticsearch.LeafTranslator
import QueryPlanAdapters.Logic.Exception

/-!
# Elasticsearch: the query of a leaf

A leaf of one field and one literal is accepted once the literal is finite and of a kind that
the operator takes, and its query is then settled by the operator, the literal and the field's
declared type.
-/

namespace QueryPlanAdapters.Elasticsearch

section Leaves

variable [JavaCharacter] {options : Options} {scope : Scope} {name field : String}
  {type : ScalarType} {polarity : Polarity} {query : Query} {literal : Literal}
  {operator normalized : PlanOperator} {variableFirst : Bool}

/-- A field and a literal, in either order. -/
def leafOperands (variableFirst : Bool) (name : String) (literal : Literal) : List Operand :=
  if variableFirst then [.var name, .value literal] else [.value literal, .var name]

/-- The query of a leaf, once its operands and its operator are settled. -/
def Options.settledLeaf (options : Options) (normalized : PlanOperator) (field : String)
    (value : Literal) (variableFirst : Bool) (operands : List Operand) (whenTrue : Bool) :
    Translation Query :=
  match value with
  | .null => nullLeafQuery normalized field variableFirst whenTrue
  | value => do
      match ← options.typeMismatchQuery normalized field value operands whenTrue with
      | some query => return query
      | none => options.membershipLeaf normalized field value variableFirst operands whenTrue

theorem plainLeaf_eq_ok (hfield : scope.field name = .ok field)
    (hnormalized : normalizeLeafOperator operator variableFirst = .ok normalized)
    (hfirst : normalized = .in → variableFirst = true)
    (h : options.plainLeaf operator (leafOperands variableFirst name literal) scope polarity =
      .ok query) :
    firstNonFinite (protoValueToJava literal) = none ∧
      rejectNonScalarOperand normalized (protoValueToJava literal) variableFirst = .ok () ∧
      options.settledLeaf normalized field (protoValueToJava literal) variableFirst
        (leafOperands variableFirst name literal) polarity.holds = .ok query := by
  obtain ⟨left, right, hoperands, hresolved⟩ : ∃ left right,
      leafOperands variableFirst name literal = [left, right] ∧ resolveComparison left right =
        (rejectNonFinite (protoValueToJava literal)).map fun _ =>
          ⟨name, protoValueToJava literal, variableFirst⟩ := by
    cases variableFirst <;> refine ⟨_, _, rfl, ?_⟩ <;>
      cases hfinite : rejectNonFinite (protoValueToJava literal) <;>
        simp [resolveComparison, resolveLeafOperand, hfinite, bind, Except.bind, pure, Except.pure,
          Except.map]
  rw [hoperands, Options.plainLeaf, hresolved] at h
  obtain ⟨comparison, hcomparison, h⟩ := Except.bind_eq_ok_iff.mp h
  obtain ⟨_, hfinite, rfl⟩ := Except.map_eq_ok_iff.mp hcomparison
  have hnone : firstNonFinite (protoValueToJava literal) = none := by
    rw [rejectNonFinite] at hfinite
    cases hnumber : firstNonFinite (protoValueToJava literal) with
    | none => rfl
    | some number => simp [hnumber, unsupported] at hfinite
  have hreversed : (normalized = .in && !variableFirst) = false := by
    cases variableFirst with
    | true => exact Bool.and_false _
    | false => simpa using hfirst
  rw [hfield] at h
  obtain ⟨_, hsame, h⟩ := Except.bind_eq_ok_iff.mp h
  obtain rfl := Except.ok.inj hsame
  rw [hnormalized] at h
  obtain ⟨_, hsame, h⟩ := Except.bind_eq_ok_iff.mp h
  obtain rfl := Except.ok.inj hsame
  rw [hreversed, Bool.false_and, if_neg Bool.false_ne_true, Bool.and_assoc, hreversed,
    Bool.and_false, if_neg Bool.false_ne_true] at h
  obtain ⟨hscalar, h⟩ := Except.bind_unit_eq_ok_iff.mp h
  refine ⟨hnone, hscalar, ?_⟩
  rw [hoperands]
  dsimp only at h
  generalize protoValueToJava literal = value at h ⊢
  cases value <;> exact h

/-! ## Memberships -/

/-- The query of a membership, by the elements that have the field's type. -/
def membershipQuery (field : String) (members : List Literal) (whenTrue : Bool) : Query :=
  if members.isEmpty then if whenTrue then .matchNone else .exists field
  else if whenTrue then .terms field members else .definedAndNot field (.terms field members)

/-- A null is an element that no query finds, and none is asked for where it would. -/
theorem settledLeaf_membership {operands : List Operand} {values : List Literal} {whenTrue : Bool}
    (hdeclared : options.scalarTypes.lookup field = some type)
    (hin : options.operatorOverrides .in = none) (hbare : hasTimestampWrapper operands = false)
    (h : options.settledLeaf .in field (.array values) true operands whenTrue = .ok query) :
    type ≠ .timestamp ∧ query = membershipQuery field (values.filter (inhabits type)) whenTrue := by
  simp only [Options.settledLeaf, Options.typeMismatchQuery, isScalarOperandOperator, Bool.not_false,
    Bool.or_true, if_true, Options.membershipLeaf, Options.typedMembers, Options.isOverridden, hin,
    Option.isSome_none, Bool.false_eq_true, if_false, Options.declaredElementType,
    Options.declaredType, hdeclared, hbare, Bool.and_true, bind, Except.bind] at h
  by_cases htype : type = .timestamp
  · simp [htype, bareTemporalComparison, unsupported] at h
  · refine ⟨htype, ?_⟩
    simp only [htype, decide_false, Bool.false_eq_true, if_false, pure, Except.pure] at h
    have hmembers : (values.filter fun v => rejectNullIntersection.isNull v || inhabits type v).filter
        (fun v => !rejectNullIntersection.isNull v) = values.filter (inhabits type) := by
      rw [List.filter_filter]
      refine List.filter_congr fun v _ => ?_
      cases v <;> cases type <;> rfl
    have hterms : ∀ members, options.applyOperator .in field (.array members) =
        .ok (.terms field members) := by
      intro members
      rw [Options.applyOperator, Options.operatorOrDefault, hin]
      rfl
    rw [membershipQuery, ← hmembers]
    generalize (values.filter fun v => rejectNullIntersection.isNull v || inhabits type v) = members
      at h
    cases hnull : members.any rejectNullIntersection.isNull with
    | false =>
        have hkept : members.filter (fun v => !rejectNullIntersection.isNull v) = members :=
          List.filter_eq_self.mpr (by simpa using hnull)
        rw [hkept]
        split at h
        next hempty =>
          rw [if_pos hempty]
          exact (Except.ok.inj h).symm
        next hempty =>
          rw [if_neg hempty]
          simp only [Options.finishLeaf, hnull, Bool.false_eq_true, if_false] at h
          cases whenTrue <;>
            simpa [Options.polarizedQuery, Options.positiveQuery, hterms, Options.negatedQuery, bind,
              Except.bind, pure, Except.pure, eq_comm] using h
    | true =>
        have hempty : members.isEmpty = false := by
          cases members with
          | nil => cases hnull
          | cons => rfl
        simp only [hempty, Bool.false_eq_true, if_false, Options.finishLeaf, hnull, if_true,
          Options.nullAwareMembershipQuery, hterms, bind, Except.bind, pure, Except.pure] at h
        cases whenTrue with
        | true => cases h
        | false =>
            rw [if_neg Bool.false_ne_true] at h
            split at h
            next hnone =>
              rw [if_pos hnone]
              exact (Except.ok.inj h).symm
            next hnone =>
              rw [if_neg hnone]
              exact (Except.ok.inj h).symm

omit [JavaCharacter] in
/-- The query of a membership matches the terms that an element equals, or does not. -/
theorem membershipQuery_matches {regexpMatches : String → String → Bool} {d : Document}
    {x : Option Term} (hx : d.terms field = x.toList) (members : List Literal) (whenTrue : Bool) :
    (membershipQuery field members whenTrue).matches regexpMatches d =
      x.any fun t => members.any (t.test .eq) == whenTrue := by
  rw [membershipQuery]
  cases x <;> cases members <;> cases whenTrue <;> simp [Query.matches, hx]

end Leaves

end QueryPlanAdapters.Elasticsearch
