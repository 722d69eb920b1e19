import QueryPlanAdapters.Go.Meaning
import Mathlib.Algebra.Order.BigOperators.Group.List

/-!
# Go: rewrites preserve meaning

A ternary is lifted above a strict function, whose error is the same wherever it comes
from. A membership in a concatenation becomes a disjunction, which absorbs an error that
the concatenation does not: the lists it concatenates have to be there. Each rewrite leads
to lighter nodes.
-/

namespace QueryPlanAdapters.Go

/-! ## Lifted ternaries -/

section Lifting

variable {functions : Functions} {env : Valuation} {operand cond whenTrue whenFalse : Node}
  {operands whenTrues whenFalses : List Node} {operator : PlanOperator} {lifted : Node}

theorem toValue_chosenOutcome (cond : Truth) (whenTrue whenFalse : Outcome) :
    (chosenOutcome cond whenTrue whenFalse).toValue =
      match cond with
      | .yes => whenTrue.toValue
      | .no => whenFalse.toValue
      | .unknown => none := by
  cases cond <;> rfl

theorem listTernary_eq (h : listTernary operand = some (cond, whenTrue, whenFalse)) :
    operand = .expression .if [cond, whenTrue, whenFalse] := by
  unfold listTernary at h
  split at h
  · split at h
    · obtain ⟨rfl, rfl, rfl⟩ : _ = cond ∧ _ = whenTrue ∧ _ = whenFalse := by simpa using h
      rfl
    · cases h
  · cases h

/-- The operands have the values of either arm's, by the condition. -/
theorem valuesOf_liftOperands
    (hoperands : ∀ o ∈ operands, meaning functions (liftedOperand o) env = meaning functions o env)
    (h : liftOperands operands = some (cond, whenTrues, whenFalses)) :
    valuesOf functions operands env =
      match (meaning functions cond env).asBoolean with
      | .yes => valuesOf functions whenTrues env
      | .no => valuesOf functions whenFalses env
      | .unknown => none := by
  induction operands generalizing whenTrues whenFalses with
  | nil => cases h
  | cons operand operands ih =>
      obtain ⟨hoperand, hoperands⟩ := List.forall_mem_cons.mp hoperands
      rw [liftOperands_cons] at h
      split at h
      next cond' whenTrue whenFalse hternary =>
        obtain ⟨rfl, rfl, rfl⟩ : cond' = cond ∧ _ = whenTrues ∧ _ = whenFalses := by simpa using h
        rw [valuesOf_cons, ← hoperand, listTernary_eq hternary, meaning_ternary,
          toValue_chosenOutcome]
        cases (meaning functions cond' env).asBoolean with
        | yes => exact (valuesOf_cons _ _).symm
        | no => exact (valuesOf_cons _ _).symm
        | unknown => rfl
      next hternary =>
        obtain ⟨⟨cond', ts, fs⟩, hrest, heq⟩ := Option.map_eq_some_iff.mp h
        obtain ⟨rfl, rfl, rfl⟩ : cond' = cond ∧ _ = whenTrues ∧ _ = whenFalses := by simpa using heq
        rw [valuesOf_cons, ih hoperands hrest]
        cases (meaning functions cond' env).asBoolean with
        | yes => exact (valuesOf_cons _ _).symm
        | no => exact (valuesOf_cons _ _).symm
        | unknown => cases (meaning functions operand env).toValue <;> rfl

/-- A ternary is lifted above a strict function whose operands keep their meaning. -/
theorem meaning_lifted (hstrict : isStrict operator = true)
    (hoperands : ∀ o ∈ operands, meaning functions (liftedOperand o) env = meaning functions o env)
    (h : liftListTernary (.expression operator operands) = some lifted) :
    meaning functions lifted env = meaning functions (.expression operator operands) env := by
  rw [liftListTernary] at h
  obtain ⟨⟨cond, whenTrues, whenFalses⟩, hlift, rfl⟩ := Option.map_eq_some_iff.mp h
  rw [meaning_ternary, meaning_strict hstrict, meaning_strict hstrict, meaning_strict hstrict,
    valuesOf_liftOperands hoperands hlift]
  cases (meaning functions cond env).asBoolean <;> rfl

/-- A concatenation keeps its meaning when a ternary is lifted out of it. -/
theorem meaning_liftedOperand (functions : Functions) (env : Valuation) (operand : Node) :
    meaning functions (liftedOperand operand) env = meaning functions operand env := by
  induction operand using Operand.induction with
  | value v => rfl
  | var reference => rfl
  | expression operator operands ih =>
      by_cases hadd : operator = .add
      · subst hadd
        rw [liftedOperand]
        cases hlift : liftListTernary (.expression .add operands) with
        | none => rfl
        | some lifted => exact meaning_lifted rfl ih hlift
      · have hsame : liftedOperand (.expression operator operands) =
            .expression operator operands := by
          cases operator <;> first | rfl | exact absurd rfl hadd
        rw [hsame]

/-- A ternary is lifted above a strict function. -/
theorem meaning_liftListTernary (hstrict : isStrict operator = true)
    (h : liftListTernary (.expression operator operands) = some lifted) (env : Valuation) :
    meaning functions lifted env = meaning functions (.expression operator operands) env :=
  meaning_lifted hstrict (fun o _ => meaning_liftedOperand functions env o) h

end Lifting

/-! ## Concatenated haystacks -/

section Haystacks

variable {functions : Functions} {env : Valuation} {m : Mapper} {n left : Node}
  {parts : List Node} {stored : Bool}

theorem meaning_in (left right : Node) :
    meaning functions (.expression .in [left, right]) env =
      match meaning functions left env, meaning functions right env with
      | .value x, .value y => functions.apply .in [x, y]
      | _, _ => .error := by
  rw [meaning_strict rfl, valuesOf_cons, valuesOf_cons]
  cases meaning functions left env with
  | error => rfl
  | value x => cases meaning functions right env <;> rfl

/-- Induction on the parts of a haystack: a list literal, a list that is stored, or the parts
of two haystacks. -/
theorem haystackParts_induction {motive : Node → List Node → Prop}
    (literal : ∀ items, motive (.value (.array items)) [.value (.array items)])
    (reference : ∀ reference, motive (.var reference) [.var reference])
    (concat : ∀ left right leftParts rightParts, motive left leftParts → motive right rightParts →
      motive (.expression .add [left, right]) (leftParts ++ rightParts))
    (h : haystackParts m n = some (parts, stored)) : motive n parts := by
  induction n using Operand.induction generalizing parts stored with
  | value v =>
      cases v with
      | array items =>
          obtain ⟨rfl, -⟩ := Prod.mk.inj (Option.some.inj h)
          exact literal items
      | _ => cases h
  | var name =>
      rw [haystackParts] at h
      split at h
      · split at h
        · obtain ⟨rfl, -⟩ := Prod.mk.inj (Option.some.inj h)
          exact reference name
        · cases h
      · cases h
  | expression operator operands ih =>
      rw [haystackParts.eq_def] at h
      split at h
      next l r heq =>
        obtain ⟨rfl, rfl⟩ := Operand.expression.inj heq
        obtain ⟨⟨leftParts, leftStored⟩, hleft, h⟩ := Option.bind_eq_some_iff.mp h
        obtain ⟨⟨rightParts, rightStored⟩, hright, h⟩ := Option.bind_eq_some_iff.mp h
        obtain ⟨rfl, -⟩ := Prod.mk.inj (Option.some.inj h)
        exact concat l r _ _ (ih l List.mem_cons_self hleft)
          (ih r (List.mem_cons_of_mem _ List.mem_cons_self) hright)
      next heq => cases heq
      next heq => cases heq
      next => cases h

theorem haystackParts_ne_nil (h : haystackParts m n = some (parts, stored)) : parts ≠ [] := by
  refine haystackParts_induction (motive := fun _ parts => parts ≠ []) ?_ ?_ ?_ h
  · nofun
  · nofun
  · intro left right leftParts rightParts hleft hright
    simp [hleft]

/-- The lists that a membership in a haystack would concatenate are all there. -/
def ListsPresent (parts : List Node) (env : Valuation) : Prop :=
  ∀ reference, .var reference ∈ parts → ∃ items, env reference = .value (.array items)

theorem asBoolean_in {x : Value} {items : List Value} {part : Node}
    (hleft : meaning functions left env = .value x)
    (hpart : meaning functions part env = .value (.array items)) :
    (meaning functions (.expression .in [left, part]) env).asBoolean =
      .ofBool (items.any x.valuesEqual) := by
  rw [meaning_in, hleft, hpart]
  rfl

/-- A haystack is a list, which holds what some part holds. -/
theorem meaning_haystackParts (h : haystackParts m n = some (parts, stored))
    (hpresent : ListsPresent parts env) :
    ∃ items, meaning functions n env = .value (.array items) ∧
      ∀ left x, meaning functions left env = .value x →
        Truth.any (parts.map fun part =>
            (meaning functions (.expression .in [left, part]) env).asBoolean) =
          .ofBool (items.any x.valuesEqual) := by
  have hsingle : ∀ {part : Node} {items : List Value},
      meaning functions part env = .value (.array items) → ∀ left x,
        meaning functions left env = .value x →
          Truth.any ([part].map fun part =>
              (meaning functions (.expression .in [left, part]) env).asBoolean) =
            .ofBool (items.any x.valuesEqual) := by
    intro part items hpart left x hleft
    rw [List.map_cons, List.map_nil, asBoolean_in hleft hpart, Truth.any_cons, Truth.any_nil,
      Truth.or_no]
  revert hpresent
  refine haystackParts_induction (motive := fun n parts => ListsPresent parts env →
    ∃ items, meaning functions n env = .value (.array items) ∧
      ∀ left x, meaning functions left env = .value x →
        Truth.any (parts.map fun part =>
            (meaning functions (.expression .in [left, part]) env).asBoolean) =
          .ofBool (items.any x.valuesEqual)) ?_ ?_ ?_ h
  · intro items _
    have hitems : meaning functions (.value (.array items)) env =
        .value (.array (items.map Value.ofPlan)) := congrArg Outcome.value (ofPlan_array items)
    exact ⟨_, hitems, hsingle hitems⟩
  · intro reference hpresent
    obtain ⟨items, hitems⟩ := hpresent reference List.mem_cons_self
    exact ⟨items, hitems, hsingle hitems⟩
  · intro l r leftParts rightParts ihl ihr hpresent
    obtain ⟨as, hl, hleft⟩ := ihl fun reference hmem =>
      hpresent reference (List.mem_append_left _ hmem)
    obtain ⟨bs, hr, hright⟩ := ihr fun reference hmem =>
      hpresent reference (List.mem_append_right _ hmem)
    refine ⟨as ++ bs, ?_, ?_⟩
    · rw [meaning_strict rfl, valuesOf_cons, valuesOf_cons, hl, hr]
      rfl
    · intro left x hx
      rw [List.map_append, Truth.any_append, hleft left x hx, hright left x hx, Truth.or_ofBool,
        List.any_append]

/-- A membership in a concatenation is the disjunction of the memberships in its parts, where
the lists are there. -/
theorem meaning_concatenatedHaystack (h : concatenatedHaystack m n = some parts)
    (hpresent : ListsPresent parts env) :
    meaning functions (.expression .or (parts.map fun part => .expression .in [left, part])) env =
      meaning functions (.expression .in [left, n]) env := by
  obtain ⟨stored, hparts⟩ : ∃ stored, haystackParts m n = some (parts, stored) := by
    unfold concatenatedHaystack at h
    split at h
    · split at h
      next hparts =>
        obtain rfl := Option.some.inj h
        exact ⟨_, hparts⟩
      next => cases h
    · cases h
  obtain ⟨items, hitems, hmember⟩ := @meaning_haystackParts functions env m n _ _ hparts hpresent
  rw [meaning_or, List.map_map]
  cases hleft : meaning functions left env with
  | value x =>
      have hany := hmember left x hleft
      simp only [Function.comp_def]
      rw [hany, meaning_in, hleft, hitems]
      show _ = Outcome.value (.bool (items.any x.valuesEqual))
      cases items.any x.valuesEqual <;> rfl
  | error =>
      have herror : ∀ right, meaning functions (.expression .in [left, right]) env = .error := by
        intro right
        rw [meaning_in, hleft]
      have hunknown : Truth.any (parts.map fun part =>
          (meaning functions (.expression .in [left, part]) env).asBoolean) = .unknown := by
        obtain ⟨part, rest, rfl⟩ := List.exists_cons_of_ne_nil (haystackParts_ne_nil hparts)
        simp only [herror, Truth.any_eq_ite]
        rw [if_neg, if_pos]
        · exact List.mem_cons_self
        · intro hyes
          obtain ⟨-, -, hyes⟩ := List.mem_map.mp hyes
          cases hyes
      simp only [Function.comp_def]
      rw [hunknown, herror]
      rfl

end Haystacks

/-! ## Empty sets -/

section EmptySets

variable {functions : Functions} {env : Valuation} {n left right rewritten : Node}
  {operator : PlanOperator} {op : CmpOp}

theorem comparisonOutcome_empty (items : List Value) :
    comparisonOutcome .eq (.value (.array items)) (.value (.array [])) =
      .value (.bool items.isEmpty) := by
  cases items <;> rfl

def isSetFunction : PlanOperator → Bool
  | .except | .intersect | .isSubset | .hasIntersection => true
  | _ => false

/-- A set function is one of two lists, and errs on anything else. -/
theorem meaning_setFunction (functions : Functions) (a b : Node) (env : Valuation) :
    (∃ as bs, ∀ operator, isSetFunction operator = true →
        meaning functions (.expression operator [a, b]) env =
          functions.apply operator [.array as, .array bs]) ∨
      ∀ operator, isSetFunction operator = true →
        meaning functions (.expression operator [a, b]) env = .error := by
  have hmeaning : ∀ operator, isSetFunction operator = true →
      meaning functions (.expression operator [a, b]) env =
        (valuesOf functions [a, b] env).elim .error (functions.apply operator) := by
    intro operator hset
    apply meaning_strict
    cases operator <;> first | rfl | cases hset
  have hvalues : valuesOf functions [a, b] env =
      (meaning functions a env).toValue.bind fun x =>
        (meaning functions b env).toValue.map fun y => [x, y] := by
    rw [valuesOf_cons, valuesOf_cons]
    cases (meaning functions a env).toValue with
    | none => rfl
    | some x => cases (meaning functions b env).toValue <;> rfl
  cases hx : (meaning functions a env).toValue with
  | none =>
      refine .inr fun operator hset => ?_
      rw [hmeaning operator hset, hvalues, hx]
      rfl
  | some x =>
      cases hy : (meaning functions b env).toValue with
      | none =>
          refine .inr fun operator hset => ?_
          rw [hmeaning operator hset, hvalues, hx, hy]
          rfl
      | some y =>
          have hboth : ∀ operator, isSetFunction operator = true →
              meaning functions (.expression operator [a, b]) env =
                functions.apply operator [x, y] := by
            intro operator hset
            rw [hmeaning operator hset, hvalues, hx, hy]
            rfl
          by_cases hlists : ∃ as bs, x = .array as ∧ y = .array bs
          · obtain ⟨as, bs, rfl, rfl⟩ := hlists
            exact .inl ⟨as, bs, hboth⟩
          · refine .inr fun operator hset => ?_
            rw [hboth operator hset]
            cases operator with
            | except | intersect | isSubset | hasIntersection =>
                cases x with
                | array as =>
                    cases y with
                    | array bs => exact absurd ⟨as, bs, rfl, rfl⟩ hlists
                    | _ => rfl
                | _ => rfl
            | _ => cases hset

/-- A difference is empty where every element is in the other list. -/
theorem isEmpty_except (functions : Functions) (as bs : List Value) :
    (functions.except as bs).isEmpty = as.all fun x => bs.any x.valuesEqual := by
  rw [Bool.eq_iff_iff, List.isEmpty_iff, List.eq_nil_iff_forall_not_mem, List.all_eq_true]
  constructor
  · intro hnone x hx
    have hnot := hnone x
    rw [functions.mem_except, not_and, Bool.not_eq_false] at hnot
    exact hnot hx
  · intro hall x hx
    obtain ⟨hmem, hnot⟩ := functions.mem_except.mp hx
    rw [hall x hmem] at hnot
    cases hnot

/-- An intersection is empty where no element is in the other list. -/
theorem isEmpty_intersect (functions : Functions) (as bs : List Value) :
    (functions.intersect as bs).isEmpty = !as.any fun x => bs.any x.valuesEqual := by
  rw [Bool.eq_iff_iff, List.isEmpty_iff, List.eq_nil_iff_forall_not_mem, Bool.not_eq_true',
    List.any_eq_false]
  constructor
  · intro hnone x hx hmember
    exact hnone x (functions.mem_intersect.mpr ⟨hx, hmember⟩)
  · intro hall x hx
    obtain ⟨hmem, hmember⟩ := functions.mem_intersect.mp hx
    exact hall x hmem hmember

/-- The predicate that a set function is rewritten to says that its result is empty. -/
theorem meaning_emptySetFunction (h : emptySetFunction n = some rewritten) :
    meaning functions rewritten env =
      comparisonOutcome .eq (meaning functions n env) (.value (.array [])) := by
  unfold emptySetFunction at h
  split at h
  next a b =>
    obtain rfl := Option.some.inj h
    obtain ⟨as, bs, hlists⟩ | herror := meaning_setFunction functions a b env
    · rw [hlists .isSubset rfl, hlists .except rfl]
      show Outcome.value (.bool (as.all fun x => bs.any x.valuesEqual)) =
        comparisonOutcome .eq (.value (.array (functions.except as bs))) (.value (.array []))
      rw [comparisonOutcome_empty, isEmpty_except]
    · rw [herror .isSubset rfl, herror .except rfl]
      rfl
  next a b =>
    obtain rfl := Option.some.inj h
    rw [meaning_not]
    obtain ⟨as, bs, hlists⟩ | herror := meaning_setFunction functions a b env
    · rw [hlists .hasIntersection rfl, hlists .intersect rfl]
      show Outcome.ofTruth (Outcome.value
          (.bool (as.any fun x => bs.any x.valuesEqual))).asBoolean.not =
        comparisonOutcome .eq (.value (.array (functions.intersect as bs))) (.value (.array []))
      rw [comparisonOutcome_empty, isEmpty_intersect]
      cases as.any fun x => bs.any x.valuesEqual <;> rfl
    · rw [herror .hasIntersection rfl, herror .intersect rfl]
      rfl
  next => cases h

theorem isEmptyListNode_eq (h : isEmptyListNode n = true) : n = .value (.array []) := by
  unfold isEmptyListNode at h
  split at h
  · rfl
  · cases h

/-- The set function is on either side of the comparison. -/
theorem emptyListComparison_eq_some (h : emptyListComparison operator left right = some rewritten) :
    ∃ setOp empty, emptySetFunction setOp = some empty ∧
      (left = setOp ∧ right = .value (.array []) ∨ left = .value (.array []) ∧ right = setOp) ∧
        (operator = .eq ∧ rewritten = empty ∨
          operator = .ne ∧ rewritten = .expression .not [empty]) := by
  obtain ⟨setOp, other, hpair, hsides⟩ : ∃ setOp other,
      (if left.isExpression then (left, right) else (right, left)) = (setOp, other) ∧
        (left = setOp ∧ right = other ∨ left = other ∧ right = setOp) := by
    cases left.isExpression with
    | true => exact ⟨left, right, rfl, .inl ⟨rfl, rfl⟩⟩
    | false => exact ⟨right, left, rfl, .inr ⟨rfl, rfl⟩⟩
  rw [emptyListComparison, hpair] at h
  simp only at h
  split at h
  · cases h
  next hempty =>
    obtain rfl := isEmptyListNode_eq (by simpa using hempty)
    split at h
    next => exact ⟨setOp, rewritten, h, hsides, .inl ⟨rfl, rfl⟩⟩
    next =>
      obtain ⟨empty, hset, rfl⟩ := Option.map_eq_some_iff.mp h
      exact ⟨setOp, empty, hset, hsides, .inr ⟨rfl, rfl⟩⟩
    next => cases h

/-- A comparison of a set function's result with the empty list is the predicate it is
rewritten to. -/
theorem meaning_emptyListComparison
    (h : emptyListComparison operator left right = some rewritten) (env : Valuation) :
    meaning functions rewritten env = meaning functions (.expression operator [left, right]) env := by
  obtain ⟨setOp, empty, hset, hsides, hrewritten⟩ := emptyListComparison_eq_some h
  have hcompared : ∀ {operator op}, comparisonOps operator = some op → op.isOrdering = false →
      meaning functions (.expression operator [left, right]) env =
        comparisonOutcome op (meaning functions setOp env) (.value (.array [])) := by
    intro operator op hcomparison hop
    rw [meaning_comparison hcomparison]
    obtain ⟨rfl, rfl⟩ | ⟨rfl, rfl⟩ := hsides
    · rfl
    · have hmirrored : op.mirrored = op := by cases op <;> first | rfl | cases hop
      have hswap := comparisonOutcome_mirrored op (.value (.array [])) (meaning functions right env)
      rw [hmirrored] at hswap
      exact hswap.symm
  obtain ⟨rfl, rfl⟩ | ⟨rfl, rfl⟩ := hrewritten
  · rw [meaning_emptySetFunction hset, hcompared rfl rfl]
  · have hbool : ∀ b, Outcome.ofTruth (Outcome.value (.bool b)).asBoolean = .value (.bool b) := by
      intro b
      cases b <;> rfl
    rw [meaning_not, meaning_emptySetFunction hset, hcompared rfl rfl, ← comparisonOutcome_ne]
    cases meaning functions setOp env with
    | error => rfl
    | value v => exact hbool _

end EmptySets

/-! ## Termination -/

/-- The nodes of a tree, an intersection counted twice: it becomes two operators where its
comparison is negated. -/
def weight : Node → Nat :=
  Operand.fold (fun _ => 1) (fun _ => 1) fun operator _ each _ =>
    (if operator = .intersect then 2 else 1) + each.sum

theorem weight_expression (operator : PlanOperator) (operands : List Node) :
    weight (.expression operator operands) =
      (if operator = .intersect then 2 else 1) + (operands.map weight).sum :=
  Operand.fold_expression _ _ _ operator operands

/-- One step of the translation from a node to one that it lowers in its place: an operand, a
part of a lifted ternary, a disjunct of a membership, or the predicate of an empty set. -/
inductive Leads (m : Mapper) : Node → Node → Prop
  | operand {operator : PlanOperator} {operands : List Node} {o : Node} (ho : o ∈ operands) :
      Leads m (.expression operator operands) o
  | lifted {n lifted part : Node} (h : liftListTernary n = some lifted)
      (hpart : part ∈ lifted.operands) : Leads m n part
  | disjunct {left right part : Node} {parts : List Node}
      (h : concatenatedHaystack m right = some parts) (hpart : part ∈ parts) :
      Leads m (.expression .in [left, right]) (.expression .in [left, part])
  | empty {operator : PlanOperator} {left right rewritten : Node}
      (h : emptyListComparison operator left right = some rewritten) :
      Leads m (.expression operator [left, right]) rewritten

section Termination

variable {m : Mapper} {n n' part cond whenTrue whenFalse lifted : Node} {operator : PlanOperator}
  {operands whenTrues whenFalses parts : List Node} {stored : Bool}

theorem weight_lt_of_mem (h : n ∈ operands) : weight n < weight (.expression operator operands) := by
  have hle : weight n ≤ (operands.map weight).sum :=
    List.single_le_sum (fun _ _ => Nat.zero_le _) _ (List.mem_map_of_mem h)
  rw [weight_expression]
  split <;> omega

/-- Either arm in the ternary's place is lighter than the ternary, and so is its condition. -/
theorem weight_liftOperands
    (hternaries : ∀ o ∈ operands, ∀ cond whenTrue whenFalse,
      listTernary (liftedOperand o) = some (cond, whenTrue, whenFalse) →
        weight cond < weight o ∧ weight whenTrue < weight o ∧ weight whenFalse < weight o)
    (h : liftOperands operands = some (cond, whenTrues, whenFalses)) :
    weight cond < (operands.map weight).sum ∧
      (whenTrues.map weight).sum < (operands.map weight).sum ∧
        (whenFalses.map weight).sum < (operands.map weight).sum := by
  induction operands generalizing whenTrues whenFalses with
  | nil => cases h
  | cons operand operands ih =>
      obtain ⟨hoperand, hoperands⟩ := List.forall_mem_cons.mp hternaries
      rw [liftOperands_cons] at h
      split at h
      next cond' whenTrue whenFalse hternary =>
        obtain ⟨rfl, rfl, rfl⟩ : cond' = cond ∧ _ = whenTrues ∧ _ = whenFalses := by simpa using h
        obtain ⟨hcond, htrue, hfalse⟩ := hoperand _ _ _ hternary
        simp only [List.map_cons, List.sum_cons]
        omega
      next hternary =>
        obtain ⟨⟨cond', ts, fs⟩, hrest, heq⟩ := Option.map_eq_some_iff.mp h
        obtain ⟨rfl, rfl, rfl⟩ : cond' = cond ∧ _ = whenTrues ∧ _ = whenFalses := by simpa using heq
        obtain ⟨hcond, htrue, hfalse⟩ := ih hoperands hrest
        simp only [List.map_cons, List.sum_cons]
        omega

/-- The parts of a ternary are lighter than the operand it is lifted out of. -/
theorem weight_listTernary (o : Node) :
    ∀ cond whenTrue whenFalse, listTernary (liftedOperand o) = some (cond, whenTrue, whenFalse) →
      weight cond < weight o ∧ weight whenTrue < weight o ∧ weight whenFalse < weight o := by
  induction o using Operand.induction with
  | value v => exact fun _ _ _ h => nomatch h
  | var reference => exact fun _ _ _ h => nomatch h
  | expression operator operands ih =>
      intro cond whenTrue whenFalse h
      have hparts : ∀ {parts : List Node}, .expression .if [cond, whenTrue, whenFalse] =
          Operand.expression operator parts → weight cond < weight (.expression operator parts) ∧
            weight whenTrue < weight (.expression operator parts) ∧
              weight whenFalse < weight (.expression operator parts) := by
        intro parts heq
        rw [← heq]
        exact ⟨weight_lt_of_mem (by simp), weight_lt_of_mem (by simp), weight_lt_of_mem (by simp)⟩
      by_cases hadd : operator = .add
      · subst hadd
        rw [liftedOperand] at h
        cases hlift : liftListTernary (.expression .add operands) with
        | none =>
            rw [hlift] at h
            cases h
        | some lifted =>
            rw [hlift, Option.getD_some] at h
            have hlifted := listTernary_eq h
            rw [liftListTernary] at hlift
            obtain ⟨⟨c, ts, fs⟩, hoperands, heq⟩ := Option.map_eq_some_iff.mp hlift
            obtain ⟨hcond, htrue, hfalse⟩ := weight_liftOperands ih hoperands
            obtain ⟨rfl, rfl, rfl⟩ : c = cond ∧ .expression .add ts = whenTrue ∧
                .expression .add fs = whenFalse := by
              simpa using heq.trans hlifted
            simp only [weight_expression]
            refine ⟨?_, ?_, ?_⟩ <;> simp <;> omega
      · have hsame : liftedOperand (.expression operator operands) =
            .expression operator operands := by
          cases operator <;> first | rfl | exact absurd rfl hadd
        rw [hsame] at h
        exact hparts (listTernary_eq h).symm

theorem weight_lifted (h : liftListTernary n = some lifted) (hpart : part ∈ lifted.operands) :
    weight part < weight n := by
  cases n with
  | expression operator operands =>
      rw [liftListTernary] at h
      obtain ⟨⟨cond, ts, fs⟩, hoperands, rfl⟩ := Option.map_eq_some_iff.mp h
      obtain ⟨hcond, htrue, hfalse⟩ := weight_liftOperands (fun o _ => weight_listTernary o) hoperands
      obtain rfl | rfl | rfl : part = cond ∨ part = .expression operator ts ∨
          part = .expression operator fs := by simpa [Operand.operands] using hpart
      · rw [weight_expression]
        omega
      · rw [weight_expression, weight_expression]
        omega
      · rw [weight_expression, weight_expression]
        omega
  | _ => cases h

/-- A part of a haystack is no heavier than the haystack. -/
theorem weight_haystackParts (h : haystackParts m n = some (parts, stored)) :
    ∀ part ∈ parts, weight part ≤ weight n := by
  refine haystackParts_induction (motive := fun n parts => ∀ part ∈ parts, weight part ≤ weight n)
    ?_ ?_ ?_ h
  · intro items part hpart
    obtain rfl := List.mem_singleton.mp hpart
    exact le_rfl
  · intro reference part hpart
    obtain rfl := List.mem_singleton.mp hpart
    exact le_rfl
  · intro left right leftParts rightParts hleft hright part hpart
    obtain hpart | hpart := List.mem_append.mp hpart
    · exact (hleft part hpart).trans (weight_lt_of_mem (by simp)).le
    · exact (hright part hpart).trans (weight_lt_of_mem (by simp)).le

/-- Only a concatenation is taken apart. -/
theorem weight_concatenatedHaystack (h : concatenatedHaystack m n = some parts) :
    ∀ part ∈ parts, weight part < weight n := by
  intro part hpart
  unfold concatenatedHaystack at h
  split at h
  next operands =>
    split at h
    next parts' hparts =>
      obtain rfl := Option.some.inj h
      rw [haystackParts.eq_def] at hparts
      split at hparts
      next l r heq =>
        obtain ⟨-, rfl⟩ := Operand.expression.inj heq
        obtain ⟨⟨leftParts, leftStored⟩, hleft, hparts⟩ := Option.bind_eq_some_iff.mp hparts
        obtain ⟨⟨rightParts, rightStored⟩, hright, hparts⟩ := Option.bind_eq_some_iff.mp hparts
        obtain ⟨rfl, -⟩ := Prod.mk.inj (Option.some.inj hparts)
        obtain hpart | hpart := List.mem_append.mp hpart
        · exact (weight_haystackParts hleft part hpart).trans_lt (weight_lt_of_mem (by simp))
        · exact (weight_haystackParts hright part hpart).trans_lt (weight_lt_of_mem (by simp))
      next heq => cases heq
      next heq => cases heq
      next => cases hparts
    next => cases h
  next => cases h

theorem weight_emptyListComparison {left right rewritten : Node}
    (h : emptyListComparison operator left right = some rewritten) :
    weight rewritten < weight (.expression operator [left, right]) := by
  obtain ⟨setOp, empty, hset, hsides, hrewritten⟩ := emptyListComparison_eq_some h
  have hempty : weight empty ≤ weight setOp := by
    unfold emptySetFunction at hset
    split at hset
    · obtain rfl := Option.some.inj hset
      simp [weight_expression]
    · obtain rfl := Option.some.inj hset
      simp [weight_expression]
      omega
    · cases hset
  have hsum : weight left + weight right = weight setOp + 1 := by
    have hvalue : weight (.value (.array [])) = 1 := rfl
    obtain ⟨rfl, rfl⟩ | ⟨rfl, rfl⟩ := hsides
    · rw [hvalue]
    · rw [hvalue, Nat.add_comm]
  obtain ⟨rfl, rfl⟩ | ⟨rfl, rfl⟩ := hrewritten
  · simp [weight_expression]
    omega
  · simp [weight_expression]
    omega

/-- Whatever the translation goes to is lighter. -/
theorem weight_lt_of_leads (h : Leads m n n') : weight n' < weight n := by
  cases h with
  | operand ho => exact weight_lt_of_mem ho
  | lifted h hpart => exact weight_lifted h hpart
  | disjunct h hpart =>
      have hlt := weight_concatenatedHaystack h _ hpart
      simp [weight_expression]
      omega
  | empty h => exact weight_emptyListComparison h

/-- No translation rewrites without end. -/
theorem wellFounded_leads (m : Mapper) : WellFounded fun n' n => Leads m n n' :=
  Subrelation.wf weight_lt_of_leads (measure weight).wf

end Termination

/-! ## The rewrites of a comparison -/

/-- The rewrites of a comparison and of a membership keep its value and its errors, save that
a membership in a concatenation needs the lists to be there, and they end. -/
theorem rewrites_preserve_meaning (functions : Functions) (m : Mapper) {operator : PlanOperator}
    (hoperator : (comparisonOps operator).isSome = true ∨ operator = .in) (operands : List Node)
    (env : Valuation) :
    (∀ lifted, liftListTernary (.expression operator operands) = some lifted →
        meaning functions lifted env = meaning functions (.expression operator operands) env) ∧
      (∀ left right parts, operator = .in → operands = [left, right] →
        concatenatedHaystack m right = some parts → ListsPresent parts env →
          meaning functions
              (.expression .or (parts.map fun part => .expression .in [left, part])) env =
            meaning functions (.expression operator operands) env) ∧
        (∀ left right rewritten, operands = [left, right] →
          emptyListComparison operator left right = some rewritten →
            meaning functions rewritten env =
              meaning functions (.expression operator operands) env) ∧
          WellFounded fun n' n => Leads m n n' := by
  have hstrict : isStrict operator = true := by
    obtain hcomparison | rfl := hoperator
    · cases operator <;> first | rfl | cases hcomparison
    · rfl
  refine ⟨?_, ?_, ?_, wellFounded_leads m⟩
  · intro lifted h
    exact meaning_liftListTernary hstrict h env
  · rintro left right parts rfl rfl h hpresent
    exact meaning_concatenatedHaystack h hpresent
  · rintro left right rewritten rfl h
    exact meaning_emptyListComparison h env

/-! A tag among the stored tags and a literal one. -/

def listFunctions : Functions :=
  .filtering fun _ _ => .error

def tagsAndDraft : Node :=
  .expression .add [.var "R.attr.tags", .value (.array [.string "draft"])]

def draftDisjuncts : List Node :=
  [.expression .in [.value (.string "draft"), .var "R.attr.tags"],
    .expression .in [.value (.string "draft"), .value (.array [.string "draft"])]]

/-- Where the tags are missing, the disjunction absorbs what errs in the concatenation. -/
theorem missingTags_absorbed :
    concatenatedHaystack tagsMapper tagsAndDraft =
        some [.var "R.attr.tags", .value (.array [.string "draft"])] ∧
      meaning listFunctions (.expression .or draftDisjuncts) (fun _ => .error) =
          .value (.bool true) ∧
        meaning listFunctions (.expression .in [.value (.string "draft"), tagsAndDraft])
            (fun _ => .error) = .error :=
  ⟨rfl, rfl, rfl⟩

theorem rewrites_preserve_meaning_tags :
    meaning listFunctions (.expression .or draftDisjuncts) (fun _ => .value (.array [])) =
      meaning listFunctions (.expression .in [.value (.string "draft"), tagsAndDraft])
        (fun _ => .value (.array [])) :=
  (rewrites_preserve_meaning listFunctions tagsMapper (.inr rfl)
    [.value (.string "draft"), tagsAndDraft] fun _ => .value (.array [])).2.1
      (.value (.string "draft")) tagsAndDraft [.var "R.attr.tags", .value (.array [.string "draft"])]
      rfl rfl rfl fun _ _ => ⟨[], rfl⟩

end QueryPlanAdapters.Go
