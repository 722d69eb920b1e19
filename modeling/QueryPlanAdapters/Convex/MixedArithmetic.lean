import QueryPlanAdapters.Convex.TemporalTypes

/-!
# Convex: arithmetic over an int and a double

CEL has no arithmetic overload for an int beside a double. The evaluator refuses the
pair where the double is a field, a fractional constant or `double()` itself. A double
that is arithmetic in turn is not looked into, and is added as a number.
-/

namespace QueryPlanAdapters.Convex

mutual

/-- Whether the operand is certainly a CEL double: a document field, a fractional
constant, `double()`, or arithmetic over such operands and constants. -/
def isCertainDouble (isBound : String → Bool) : Operand → Bool
  | .value literal => isFractionalLiteral literal
  | .var name => !isBound (referenceRoot name)
  | .expression operator operands =>
      operator = .double ||
        (arithmeticOperator operator).isSome && everyDoubleOperand isBound operands &&
          someCertainDouble isBound operands

def everyDoubleOperand (isBound : String → Bool) : List Operand → Bool
  | [] => true
  | operand :: operands =>
      (isIntegralConstant operand || isCertainDouble isBound operand) &&
        everyDoubleOperand isBound operands

def someCertainDouble (isBound : String → Bool) : List Operand → Bool
  | [] => false
  | operand :: operands => isCertainDouble isBound operand || someCertainDouble isBound operands

end

section Types

variable {isBound : String → Bool}

@[simp] theorem everyDoubleOperand_eq_all (operands : List Operand) :
    everyDoubleOperand isBound operands =
      operands.all fun o => isIntegralConstant o || isCertainDouble isBound o := by
  induction operands with
  | nil => rfl
  | cons operand operands ih => simp [everyDoubleOperand, ih]

@[simp] theorem someCertainDouble_eq_any (operands : List Operand) :
    someCertainDouble isBound operands = operands.any (isCertainDouble isBound) := by
  induction operands with
  | nil => rfl
  | cons operand operands ih => simp [someCertainDouble, ih]

theorem isCertainDouble_expression (operator : PlanOperator) (operands : List Operand) :
    isCertainDouble isBound (.expression operator operands) =
      (operator = .double ||
        (arithmeticOperator operator).isSome &&
            (operands.all fun o => isIntegralConstant o || isCertainDouble isBound o) &&
          operands.any (isCertainDouble isBound)) := by
  rw [isCertainDouble, everyDoubleOperand_eq_all, someCertainDouble_eq_any]

theorem not_isInteger_of_isFractional {literal : Json} (h : isFractionalLiteral literal = true) :
    isIntegralLiteral literal = false := by
  cases literal <;> simp_all [isFractionalLiteral, isIntegralLiteral]

/-- Nothing is certainly a double and certainly an int. -/
theorem isIntOperand_of_isCertainDouble {operand : Operand}
    (h : isCertainDouble isBound operand = true) : isIntOperand operand = false := by
  induction operand using Operand.induction with
  | value literal =>
      rw [isIntOperand, isIntExpression_value, Bool.or_false]
      exact not_isInteger_of_isFractional h
  | var name => rfl
  | expression operator operands ih =>
      rw [isCertainDouble_expression, Bool.or_eq_true, decide_eq_true_eq] at h
      rw [isIntOperand, isIntExpression_expression]
      obtain rfl | h := h
      · rfl
      · simp only [Bool.and_eq_true, List.any_eq_true] at h
        obtain ⟨⟨harithmetic, -⟩, o, ho, hdouble⟩ := h
        have hall : operands.all isIntOperand = false := by
          rw [← Bool.not_eq_true, List.all_eq_true]
          intro hall
          exact Bool.noConfusion ((ih o ho hdouble).symm.trans (hall o ho))
        have hconversion : ¬ (operator = .int ∨ operator = .size) := by
          rintro (rfl | rfl) <;> cases harithmetic
        rw [if_neg hconversion, if_pos harithmetic, hall]
        rfl

/-- An operand that is no sum or difference of temporal operands is not temporal. -/
theorem temporalKindOf_arithmetic {operator : PlanOperator} {operands : List Operand}
    (harithmetic : (arithmeticOperator operator).isSome = true)
    (h : ∀ o ∈ operands, temporalKindOf o = none) :
    temporalKindOf (.expression operator operands) = none := by
  cases operator with
  | add | sub =>
      rw [temporalKindOf, temporalKindsOf_eq_map]
      rcases operands with _ | ⟨left, _ | ⟨right, rest⟩⟩
      · rfl
      · rfl
      · show temporalResultKind _ (temporalKindOf left) (temporalKindOf right) = none
        rw [h left (by simp), h right (by simp)]
        rfl
  | mult | div | mod => rfl
  | _ => cases harithmetic

theorem temporalKindOf_isCertainDouble {operand : Operand}
    (h : isCertainDouble isBound operand = true) : temporalKindOf operand = none := by
  induction operand using Operand.induction with
  | value literal => rfl
  | var name => rfl
  | expression operator operands ih =>
      rw [isCertainDouble_expression, Bool.or_eq_true, decide_eq_true_eq] at h
      obtain rfl | h := h
      · rfl
      · simp only [Bool.and_eq_true, List.all_eq_true, Bool.or_eq_true] at h
        refine temporalKindOf_arithmetic h.1.1 fun o ho => ?_
        obtain hconstant | hdouble := h.1.2 o ho
        · cases o with
          | value literal => rfl
          | var name => rfl
          | expression operator operands => cases hconstant
        · exact ih o ho hdouble

theorem temporalKindOf_isIntExpression {operand : Operand} (h : isIntExpression operand = true) :
    temporalKindOf operand = none := by
  induction operand using Operand.induction with
  | value literal => rfl
  | var name => rfl
  | expression operator operands ih =>
      rw [isIntExpression_expression] at h
      split at h
      next hconversion => obtain rfl | rfl := hconversion <;> rfl
      next =>
        split at h
        next harithmetic =>
          rw [Bool.and_eq_true, List.all_eq_true] at h
          refine temporalKindOf_arithmetic harithmetic fun o ho => ?_
          obtain hconstant | hint := Bool.or_eq_true_iff.mp (h.1 o ho)
          · cases o with
            | value literal => rfl
            | var name => rfl
            | expression operator operands => cases hconstant
          · exact ih o ho hint
        next => cases h

theorem temporalKindOf_isIntOperand {operand : Operand} (h : isIntOperand operand = true) :
    temporalKindOf operand = none := by
  obtain hconstant | hint := Bool.or_eq_true_iff.mp h
  · cases operand with
    | value literal => rfl
    | var name => rfl
    | expression operator operands => cases hconstant
  · exact temporalKindOf_isIntExpression hint

theorem isTemporalNode_eq_false {operator : PlanOperator} {operands : List Operand}
    (h : ∀ o ∈ operands, temporalKindOf o = none) : isTemporalNode operator operands = false := by
  have hany : (operands.any fun o => (temporalKindOf o).isSome) = false := by
    rw [List.any_eq_false]
    intro o ho
    simp [h o ho]
  rw [isTemporalNode, hany, Bool.and_false]

end Types

/-- One operand is certainly an int expression, and the other certainly a double. -/
def MixesTypes (isBound : String → Bool) (left right : Operand) : Prop :=
  isIntExpression left = true ∧ isCertainDouble isBound right = true ∨
    isIntExpression right = true ∧ isCertainDouble isBound left = true

section Evaluation

variable [Double.Rounding] {scope : Scope} {operator : PlanOperator} {op : ArithmeticOperator}
  {left right : Operand}

variable {v : Value} {o : Outcome}

omit [Double.Rounding] in
theorem celInt_eq_value {n : Int} (h : celInt n = .value v) :
    v = .number (.finite n) ∨ v = .bigint n := by
  rw [celInt] at h
  split at h
  · cases h
  · split at h
    · exact .inl (Outcome.value.inj h).symm
    · exact .inr (Outcome.value.inj h).symm

omit [Double.Rounding] in
theorem not_isTemporalNode_of_mixesTypes (h : MixesTypes scope.isBound left right) :
    isTemporalNode operator [left, right] = false := by
  apply isTemporalNode_eq_false
  rw [List.forall_mem_cons, List.forall_mem_singleton]
  obtain ⟨hint, hdouble⟩ | ⟨hint, hdouble⟩ := h
  · exact ⟨temporalKindOf_isIntExpression hint, temporalKindOf_isCertainDouble hdouble⟩
  · exact ⟨temporalKindOf_isCertainDouble hdouble, temporalKindOf_isIntExpression hint⟩

omit [Double.Rounding] in
/-- A mixed node is never int arithmetic; it is refused where its double is one at first
sight. -/
theorem arithmeticMode_of_mixesTypes (h : MixesTypes scope.isBound left right)
    (hop : arithmeticOperator operator = some op) :
    arithmeticMode scope.isBound operator [left, right] =
      if isDoubleOperand scope.isBound left || isDoubleOperand scope.isBound right then .noOverload
      else .loose := by
  have hint : isIntExpression (.expression operator [left, right]) = false := by
    have hall : [left, right].all isIntOperand = false := by
      obtain ⟨-, hdouble⟩ | ⟨-, hdouble⟩ := h
      · simp [isIntOperand_of_isCertainDouble hdouble]
      · simp [isIntOperand_of_isCertainDouble hdouble]
    have hconversion : ¬ (operator = .int ∨ operator = .size) := by
      rintro (rfl | rfl) <;> cases hop
    rw [isIntExpression_expression, if_neg hconversion, if_pos (by rw [hop]; rfl), hall,
      Bool.false_and]
  have hany : [left, right].any isIntExpression = true := by
    obtain ⟨h, -⟩ | ⟨h, -⟩ := h <;> simp [h]
  rw [arithmeticMode, hint, if_neg Bool.false_ne_true, hany, Bool.true_and]
  simp only [List.any_cons, List.any_nil, Bool.or_false]

/-- What a mode makes of two outcomes. -/
def combineOutcomes (op : ArithmeticOperator) (call : Call) :
    ArithmeticMode → Outcome → Outcome → Result
  | .int, l, r => .ok (intArithmetic op l r)
  | .loose, .value l, .value r => looseArithmetic op call l r
  | _, _, _ => .ok .error

/-- An arithmetic node outside temporal arithmetic, over operands that evaluate. -/
theorem evaluate_arithmetic {l r : Outcome} (hop : arithmeticOperator operator = some op)
    (htemporal : isTemporalNode operator [left, right] = false)
    (hleft : evaluate left scope = .ok l) (hright : evaluate right scope = .ok r) :
    evaluate (.expression operator [left, right]) scope =
      combineOutcomes op (callOf operator [left, right] scope)
        (arithmeticMode scope.isBound operator [left, right]) l r := by
  have hcall : evaluateOperator (callOf operator [left, right] scope) =
      arithmetic op (callOf operator [left, right] scope) := by
    cases operator <;> first | (obtain rfl := Option.some.inj hop; rfl) | cases hop
  have hfalse : isTemporalNode (callOf operator [left, right] scope).operator
      (callOf operator [left, right] scope).operands = false := htemporal
  have hmode : arithmeticMode (callOf operator [left, right] scope).scope.isBound
      (callOf operator [left, right] scope).operator
      (callOf operator [left, right] scope).operands =
        arithmeticMode scope.isBound operator [left, right] := rfl
  have hl : (callOf operator [left, right] scope).arg 0 "left" = .ok l := hleft
  have hr : (callOf operator [left, right] scope).arg 1 "right" = .ok r := hright
  rw [evaluate_expression, hcall, arithmetic, hfalse, if_neg Bool.false_ne_true, hl, hr, hmode]
  cases arithmeticMode scope.isBound operator [left, right] <;> cases l <;> cases r <;> rfl

/-- A node whose operands do not both evaluate has no outcome. -/
theorem evaluate_arithmetic_eq_ok (hop : arithmeticOperator operator = some op)
    (htemporal : isTemporalNode operator [left, right] = false)
    (h : evaluate (.expression operator [left, right]) scope = .ok o) :
    ∃ l r, evaluate left scope = .ok l ∧ evaluate right scope = .ok r := by
  have hcall : evaluateOperator (callOf operator [left, right] scope) =
      arithmetic op (callOf operator [left, right] scope) := by
    cases operator <;> first | (obtain rfl := Option.some.inj hop; rfl) | cases hop
  have hfalse : isTemporalNode (callOf operator [left, right] scope).operator
      (callOf operator [left, right] scope).operands = false := htemporal
  rw [evaluate_expression, hcall, arithmetic, hfalse, if_neg Bool.false_ne_true] at h
  obtain ⟨l, hl, h⟩ := Except.bind_eq_ok_iff.mp h
  obtain ⟨r, hr, -⟩ := Except.bind_eq_ok_iff.mp h
  exact ⟨l, r, hl, hr⟩

omit [Double.Rounding] in
theorem convertToInt_eq_value (h : convertToInt o = .value v) : ∃ n, celInt n = .value v := by
  rw [convertToInt.eq_def] at h
  split at h
  · exact ⟨_, h⟩
  · split at h
    · cases h
    · exact ⟨_, h⟩
  · split at h
    · cases h
    · exact ⟨_, h⟩
  · cases h

omit [Double.Rounding] in
theorem intArithmetic_eq_value {l r : Outcome} (h : intArithmetic op l r = .value v) :
    ∃ n, celInt n = .value v := by
  rw [intArithmetic] at h
  split at h
  · cases op with
    | add | sub | mult => exact ⟨_, h⟩
    | div | mod =>
        dsimp only at h
        split at h
        · cases h
        · exact ⟨_, h⟩
  · cases h

omit [Double.Rounding] in
theorem sizeOf_eq_value (h : sizeOf o = .value v) : ∃ d, v = .number d := by
  rw [sizeOf.eq_def] at h
  split at h
  · exact ⟨_, (Outcome.value.inj h).symm⟩
  · exact ⟨_, (Outcome.value.inj h).symm⟩
  · exact ⟨_, (Outcome.value.inj h).symm⟩
  · cases h

/-- Int arithmetic over certain ints yields what `celInt` carries, if a value. -/
theorem evaluate_intArithmetic {operands : List Operand}
    (harithmetic : (arithmeticOperator operator).isSome = true)
    (hint : isIntExpression (.expression operator operands) = true)
    (hkinds : ∀ o ∈ operands, isIntOperand o = true)
    (h : evaluate (.expression operator operands) scope = .ok (.value v)) :
    ∃ n, celInt n = .value v := by
  obtain ⟨op, hop⟩ := Option.isSome_iff_exists.mp harithmetic
  have hcall : evaluateOperator (callOf operator operands scope) =
      arithmetic op (callOf operator operands scope) := by
    cases operator <;> first | (obtain rfl := Option.some.inj hop; rfl) | cases hop
  have hfalse : isTemporalNode (callOf operator operands scope).operator
      (callOf operator operands scope).operands = false :=
    isTemporalNode_eq_false fun o ho => temporalKindOf_isIntOperand (hkinds o ho)
  have hmode : arithmeticMode (callOf operator operands scope).scope.isBound
      (callOf operator operands scope).operator (callOf operator operands scope).operands =
        .int := if_pos hint
  rw [evaluate_expression, hcall, arithmetic, hfalse, if_neg Bool.false_ne_true] at h
  obtain ⟨l, -, h⟩ := Except.bind_eq_ok_iff.mp h
  obtain ⟨r, -, h⟩ := Except.bind_eq_ok_iff.mp h
  rw [hmode] at h
  exact intArithmetic_eq_value (Except.ok.inj h)

/-- A certain int evaluates to a number or a bigint, if to a value. -/
theorem evaluate_isIntExpression {operand : Operand}
    (hint : isIntExpression operand = true) (h : evaluate operand scope = .ok (.value v)) :
    (∃ d, v = .number d) ∨ ∃ n, v = .bigint n := by
  have hcelInt : (∃ n, celInt n = .value v) → (∃ d, v = .number d) ∨ ∃ n, v = .bigint n := by
    rintro ⟨n, h⟩
    obtain rfl | rfl := celInt_eq_value h
    · exact .inl ⟨_, rfl⟩
    · exact .inr ⟨_, rfl⟩
  cases operand with
  | value literal => cases hint
  | var name => cases hint
  | expression operator operands =>
      have hcases := hint
      rw [isIntExpression_expression] at hcases
      split at hcases
      next hconversion =>
        rw [evaluate_expression] at h
        obtain rfl | rfl := hconversion
        · obtain ⟨o, -, h⟩ := conversion_eq_ok_iff.mp h
          exact hcelInt (convertToInt_eq_value h)
        · obtain ⟨o, -, h⟩ := conversion_eq_ok_iff.mp h
          exact .inl (sizeOf_eq_value h)
      next =>
        split at hcases
        next harithmetic =>
          rw [Bool.and_eq_true, List.all_eq_true] at hcases
          exact hcelInt (evaluate_intArithmetic harithmetic hint hcases.1 h)
        next => cases hcases

/-! ## What a mixed node evaluates to -/

/-- The evaluator has no answer for the pair: its double is one at first sight, an operand
is an error or no JavaScript number, or the node is a remainder by zero. -/
def RefusesPair (isBound : String → Bool) (op : ArithmeticOperator) (left right : Operand)
    (l r : Outcome) : Prop :=
  isDoubleOperand isBound left = true ∨ isDoubleOperand isBound right = true ∨
    (∀ x y, l = .value (.number x) → r ≠ .value (.number y)) ∨
    op = .mod ∧ ∃ y, r = .value (.number y) ∧ y.isZero = true

theorem looseArithmetic_numbers {call : Call} {x y : Double}
    (hvariables : call.operands.any Operand.isVariable = false) :
    looseArithmetic op call (.number x) (.number y) = .ok .error ↔
      op = .mod ∧ y.isZero = true := by
  cases op with
  | add | sub | mult => exact iff_of_false (by rintro ⟨⟩) (by rintro ⟨⟨⟩, -⟩)
  | div =>
      refine iff_of_false ?_ (by rintro ⟨⟨⟩, -⟩)
      rw [looseArithmetic]
      split <;> rintro ⟨⟩
  | mod =>
      rw [looseArithmetic, hvariables, Bool.false_or]
      cases y.isZero <;> simp

/-- A number or a bigint combines with a number only. -/
theorem looseArithmetic_eq_error {call : Call} {a b : Value}
    (hnumeric : ((∃ x, a = .number x) ∨ ∃ n, a = .bigint n) ∨ (∃ y, b = .number y) ∨
      ∃ n, b = .bigint n)
    (hnumbers : ∀ x y, a = .number x → b ≠ .number y) :
    looseArithmetic op call a b = .ok .error := by
  rw [looseArithmetic.eq_def]
  split
  case h_8 => rfl
  case h_1 | h_2 => obtain (⟨_, h⟩ | ⟨_, h⟩) | ⟨_, h⟩ | ⟨_, h⟩ := hnumeric <;> cases h
  all_goals exact absurd rfl (hnumbers _ _ rfl)

/-- The node is an error, and so no comparison over it and no negation of one holds. -/
def NeverHolds (scope : Scope) (node : Operand) : Prop :=
  evaluate node scope = .ok .error ∧
    ∀ operator op other, comparisonOperator operator = some op →
      ∀ comparison ∈ [Operand.expression operator [node, other],
          Operand.expression operator [other, node]],
        evaluate comparison scope ≠ .ok (.value (.bool true)) ∧
          evaluate (.expression .not [comparison]) scope ≠ .ok (.value (.bool true))

theorem evaluate_comparison_eq_ok {operator : PlanOperator} {op : ComparisonOperator}
    (hoperator : comparisonOperator operator = some op)
    (h : evaluate (.expression operator [left, right]) scope = .ok o) :
    ∃ l r, evaluate left scope = .ok l ∧ evaluate right scope = .ok r ∧
      o = compareValues op l r := by
  have hcall : evaluateOperator (callOf operator [left, right] scope) =
      comparison op (callOf operator [left, right] scope) := by
    cases operator <;> first | (obtain rfl := Option.some.inj hoperator; rfl) | cases hoperator
  rw [evaluate_expression, hcall] at h
  obtain ⟨l, hl, h⟩ := Except.bind_eq_ok_iff.mp h
  obtain ⟨r, hr, h⟩ := Except.bind_eq_ok_iff.mp h
  exact ⟨l, r, hl, hr, (Except.ok.inj h).symm⟩

theorem evaluate_not_eq_ok {operand : Operand}
    (h : evaluate (.expression .not [operand]) scope = .ok o) :
    ∃ v, evaluate operand scope = .ok v ∧ o = .ofTruth v.asBoolean.not := by
  rw [evaluate_expression] at h
  obtain ⟨v, hv, h⟩ := Except.bind_eq_ok_iff.mp h
  exact ⟨v, hv, (Except.ok.inj h).symm⟩

theorem neverHolds_iff {node : Operand} :
    NeverHolds scope node ↔ evaluate node scope = .ok .error := by
  refine and_iff_left_of_imp fun hnode operator op other hoperator => ?_
  have herror : ∀ comparison ∈ [Operand.expression operator [node, other],
      Operand.expression operator [other, node]], ∀ o, evaluate comparison scope = .ok o →
        o = .error := by
    rw [List.forall_mem_cons, List.forall_mem_singleton]
    constructor
    · intro o h
      obtain ⟨l, r, hl, -, rfl⟩ := evaluate_comparison_eq_ok hoperator h
      obtain rfl := Except.ok.inj (hnode.symm.trans hl)
      rfl
    · intro o h
      obtain ⟨l, r, -, hr, rfl⟩ := evaluate_comparison_eq_ok hoperator h
      obtain rfl := Except.ok.inj (hnode.symm.trans hr)
      cases l <;> rfl
  intro comparison hcomparison
  constructor
  · intro h
    cases herror comparison hcomparison _ h
  · intro h
    obtain ⟨v, hv, htrue⟩ := evaluate_not_eq_ok h
    rw [herror comparison hcomparison v hv] at htrue
    cases htrue

/-- Without a double at first sight, neither operand is a reference. -/
theorem not_isVariable_of_mixesTypes (hmixes : MixesTypes scope.isBound left right)
    (hdouble : ¬ (isDoubleOperand scope.isBound left || isDoubleOperand scope.isBound right) =
      true) : (callOf operator [left, right] scope).operands.any Operand.isVariable = false := by
  have hint : ∀ {o}, isIntExpression o = true → o.isVariable = false := by
    intro o h
    cases o with
    | var name => cases h
    | _ => rfl
  have hvariable : ∀ {o}, isCertainDouble scope.isBound o = true →
      isDoubleOperand scope.isBound o = false → o.isVariable = false := by
    intro o h hnot
    cases o with
    | var name =>
        exact Bool.noConfusion (hnot.symm.trans h)
    | _ => rfl
  rw [Bool.or_eq_true, not_or, Bool.not_eq_true, Bool.not_eq_true] at hdouble
  obtain ⟨hl, hr⟩ | ⟨hr, hl⟩ := hmixes
  · simp [callOf, hint hl, hvariable hr hdouble.2]
  · simp [callOf, hint hr, hvariable hl hdouble.1]

/-- A mixed node is refused exactly where the evaluator has no answer for its pair. -/
theorem mixedArithmetic_neverHolds_iff (hop : arithmeticOperator operator = some op)
    (hmixes : MixesTypes scope.isBound left right) :
    NeverHolds scope (.expression operator [left, right]) ↔
      ∃ l r, evaluate left scope = .ok l ∧ evaluate right scope = .ok r ∧
        RefusesPair scope.isBound op left right l r := by
  have htemporal : isTemporalNode operator [left, right] = false :=
    not_isTemporalNode_of_mixesTypes hmixes
  have hmode := arithmeticMode_of_mixesTypes hmixes hop
  rw [neverHolds_iff]
  have hpair : ∀ l r, evaluate left scope = .ok l → evaluate right scope = .ok r →
      (evaluate (.expression operator [left, right]) scope = .ok .error ↔
        RefusesPair scope.isBound op left right l r) := by
    intro l r hleft hright
    rw [evaluate_arithmetic hop htemporal hleft hright, hmode]
    by_cases hdouble : (isDoubleOperand scope.isBound left ||
        isDoubleOperand scope.isBound right) = true
    · rw [if_pos hdouble]
      refine iff_of_true (by cases l <;> cases r <;> rfl) ?_
      obtain h | h := Bool.or_eq_true_iff.mp hdouble
      · exact .inl h
      · exact .inr (.inl h)
    · rw [if_neg hdouble]
      have hfirst : RefusesPair scope.isBound op left right l r ↔
          (∀ x y, l = .value (.number x) → r ≠ .value (.number y)) ∨
            op = .mod ∧ ∃ y, r = .value (.number y) ∧ y.isZero = true := by
        rw [Bool.or_eq_true, not_or] at hdouble
        rw [RefusesPair, or_iff_right hdouble.1, or_iff_right hdouble.2]
      rw [hfirst]
      cases l with
      | error => exact iff_of_true rfl (.inl (by rintro x y ⟨⟩))
      | value a =>
          cases r with
          | error => exact iff_of_true rfl (.inl (by rintro x y - ⟨⟩))
          | value b =>
              by_cases hnumbers : ∀ x y, a = .number x → b ≠ .number y
              · refine iff_of_true (looseArithmetic_eq_error ?_ hnumbers) (.inl ?_)
                · obtain ⟨hint, -⟩ | ⟨hint, -⟩ := hmixes
                  · exact .inl (evaluate_isIntExpression hint hleft)
                  · exact .inr (evaluate_isIntExpression hint hright)
                · intro x y hx hy
                  exact hnumbers x y (Outcome.value.inj hx) (Outcome.value.inj hy)
              · simp only [not_forall, not_ne_iff] at hnumbers
                obtain ⟨x, y, rfl, rfl⟩ := hnumbers
                refine (looseArithmetic_numbers
                  (not_isVariable_of_mixesTypes hmixes hdouble)).trans ?_
                constructor
                · rintro ⟨hmod, hzero⟩
                  exact .inr ⟨hmod, y, rfl, hzero⟩
                · rintro (hnot | ⟨hmod, y', hy', hzero⟩)
                  · exact absurd rfl (hnot x y rfl)
                  · obtain rfl := Value.number.inj (Outcome.value.inj hy')
                    exact ⟨hmod, hzero⟩
  constructor
  · intro h
    obtain ⟨l, r, hleft, hright⟩ := evaluate_arithmetic_eq_ok hop htemporal h
    exact ⟨l, r, hleft, hright, (hpair l r hleft hright).mp h⟩
  · rintro ⟨l, r, hleft, hright, h⟩
    exact (hpair l r hleft hright).mpr h

end Evaluation

/-- `size("a") + R.attr.y * 2`, whose double is one level down. -/
def nestedDouble : Operand :=
  .expression .add [.expression .size [.value (.string "a")],
    .expression .mult [.var "request.resource.attr.y", .value (.number 2)]]

def oneScope : Scope :=
  { doc := .record [("y", .number 1)]
    mapper := fun _ => some ⟨some "y", none⟩
    bindings := .empty
    nullIsMissing := false
    now := 0 }

theorem nestedDouble_mixesTypes :
    MixesTypes oneScope.isBound (.expression .size [.value (.string "a")])
      (.expression .mult [.var "request.resource.attr.y", .value (.number 2)]) := by
  left
  exact ⟨rfl, by decide⟩

theorem evaluate_nestedDouble : evaluate nestedDouble oneScope = .ok (.value (.number 3)) := by
  have hsize : evaluate (.expression .size [.value (.string "a")]) oneScope =
      .ok (.value (.number 1)) :=
    @evaluate_conversion _ oneScope .size sizeOf _ _ rfl (evaluate_value _ _)
  have hfield : evaluate (.var "request.resource.attr.y") oneScope = .ok (.value (.number 1)) := by
    rw [evaluate_var]
    rfl
  have hproduct : evaluate (.expression .mult [.var "request.resource.attr.y",
      .value (.number 2)]) oneScope = .ok (.value (.number 2)) := by
    rw [evaluate_arithmetic rfl rfl hfield (evaluate_value _ _)]
    have hmul : Double.mul 1 2 = 2 := by decide +kernel
    exact congrArg (fun d => Except.ok (Outcome.value (.number d))) hmul
  rw [nestedDouble, evaluate_arithmetic rfl
    (not_isTemporalNode_of_mixesTypes nestedDouble_mixesTypes) hsize hproduct,
    arithmeticMode_of_mixesTypes nestedDouble_mixesTypes rfl]
  have hadd : Double.add 1 2 = 3 := by decide +kernel
  exact congrArg (fun d => Except.ok (Outcome.value (.number d))) hadd

/-- The sum is a number, and the negation of a comparison over it holds. -/
theorem nestedDouble_holds :
    ¬ NeverHolds oneScope nestedDouble ∧
      evaluate (.expression .not [.expression .eq [nestedDouble, .value (.number 0)]]) oneScope =
        .ok (.value (.bool true)) := by
  constructor
  · rintro ⟨herror, -⟩
    rw [evaluate_nestedDouble] at herror
    cases herror
  · have hcompared := @evaluate_comparison _ oneScope .eq .eq rfl _ _ _ _ evaluate_nestedDouble
      (evaluate_value (.number 0) oneScope)
    rw [evaluate_expression]
    have hnot : evaluateNot (callOf .not [.expression .eq [nestedDouble, .value (.number 0)]]
        oneScope) = .ok (.value (.bool true)) := by
      simp only [evaluateNot, Call.arg, callOf, List.map_cons, List.getElem?_cons_zero, hcompared,
        bind, Except.bind]
      rfl
    exact hnot

theorem mixedArithmetic_neverHolds_iff_nested :
    NeverHolds oneScope nestedDouble ↔
      ∃ l r, evaluate (.expression .size [.value (.string "a")]) oneScope = .ok l ∧
        evaluate (.expression .mult [.var "request.resource.attr.y", .value (.number 2)])
          oneScope = .ok r ∧
        RefusesPair oneScope.isBound .add (.expression .size [.value (.string "a")])
          (.expression .mult [.var "request.resource.attr.y", .value (.number 2)]) l r :=
  mixedArithmetic_neverHolds_iff rfl nestedDouble_mixesTypes

end QueryPlanAdapters.Convex
