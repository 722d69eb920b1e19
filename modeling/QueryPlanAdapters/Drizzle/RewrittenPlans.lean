import QueryPlanAdapters.Drizzle.RewrittenInstants
import Mathlib.Data.List.Forall2

/-!
# Drizzle: plans before and after the pass

A node takes one rewrite at most. What a rewrite looks for in a node, it finds in the node
before its operands are rewritten: constants stay what they are, and so do the operators
that no rewrite takes or gives.
-/

namespace QueryPlanAdapters.Drizzle

open Go

/-! ## Which nodes are rewritten -/

/-- The operators of the nodes that a rewrite may take. -/
def isRewritten : PlanOperator → Bool
  | .index | .isSubset | .in | .eq | .ne | .lt | .le | .gt | .ge => true
  | _ => false

/-- The operators that a rewrite puts on top. -/
def isProduced : PlanOperator → Bool
  | .if | .all | .not | .or | .hasIntersection => true
  | operator => isRewritten operator

section Untouched

variable {operator : PlanOperator} (h : isRewritten operator = false) (operands : List Node)

include h

theorem rewriteConstantKeyIndex_untouched (mapped : String → Bool) :
    rewriteConstantKeyIndex mapped (.expression operator operands) = none := by
  unfold rewriteConstantKeyIndex
  split
  next heq =>
    obtain ⟨rfl, -⟩ := Operand.expression.inj heq
    cases h
  next => rfl

theorem liftConstantTernary_untouched :
    liftConstantTernary (.expression operator operands) = none := by
  unfold liftConstantTernary
  split
  next heq =>
    obtain ⟨rfl, -⟩ := Operand.expression.inj heq
    split
    next hliftable =>
      unfold isLiftableComparison at hliftable
      split at hliftable <;> first | cases h | cases hliftable
    next => rfl
  next => rfl

theorem listMembership_untouched : listMembership (.expression operator operands) = none := by
  unfold listMembership
  split
  next heq =>
    obtain ⟨rfl, -⟩ := Operand.expression.inj heq
    cases h
  next heq =>
    obtain ⟨rfl, -⟩ := Operand.expression.inj heq
    cases h
  next heq =>
    obtain ⟨rfl, -⟩ := Operand.expression.inj heq
    cases h
  next => rfl

theorem concatenatedMembership_untouched :
    concatenatedMembership (.expression operator operands) = none := by
  unfold concatenatedMembership
  split
  next heq =>
    obtain ⟨rfl, -⟩ := Operand.expression.inj heq
    cases h
  next => rfl

theorem projectedMembership_untouched :
    projectedMembership (.expression operator operands) = none := by
  unfold projectedMembership
  split
  next heq =>
    obtain ⟨rfl, -⟩ := Operand.expression.inj heq
    cases h
  next => rfl

theorem instantComparison_untouched (dateParse : String → Option Int) (clock : Int) :
    instantComparison dateParse clock (.expression operator operands) = none := by
  unfold instantComparison
  split
  next heq =>
    obtain ⟨rfl, -⟩ := Operand.expression.inj heq
    have hcomparison : comparisonOps operator = none := by
      unfold comparisonOps
      split <;> first | cases h | rfl
    rw [hcomparison, Option.bind_none]
  next => rfl

end Untouched

section Nodes

variable (mapped : String → Bool) (dateParse : String → Option Int) (clock : Int)

/-- The first rewrite that a node takes, but for the keys and the timestamps. -/
def rewriteOperation (node : Node) : Option Node :=
  (liftConstantTernary node).or ((rewriteListFunction node).or (rewriteMembership node))

/-- The first rewrite that a node takes, but for the timestamps. -/
def rewriteStep (node : Node) : Option Node :=
  (rewriteConstantKeyIndex mapped node).or (rewriteOperation node)

variable {rewritten : Node}

/-- A node that a rewrite has given is not rewritten again. -/
theorem rewriteNode_settled {node : Node}
    (h : (∃ name, node = .var name) ∨
      ∃ operator operands, node = .expression operator operands ∧ isRewritten operator = false) :
    liftConstantTernary node = none ∧ rewriteListFunction node = none ∧
      rewriteMembership node = none ∧ rewriteShiftedTimestamp dateParse clock node = some node := by
  obtain ⟨name, rfl⟩ | ⟨operator, operands, rfl, hoperator⟩ := h
  · exact ⟨rfl, rfl, rfl, rfl⟩
  · refine ⟨liftConstantTernary_untouched hoperator operands, ?_, ?_, ?_⟩
    · rw [rewriteListFunction, listMembership_untouched hoperator, Option.bind_none]
    · rw [rewriteMembership, concatenatedMembership_untouched hoperator]
      exact projectedMembership_untouched hoperator operands
    · rw [rewriteShiftedTimestamp, instantComparison_untouched hoperator]

/-- What a rewrite of an operation gives. -/
theorem rewriteOperation_settled {node : Node} (h : rewriteOperation node = some rewritten) :
    ∃ operator operands, rewritten = .expression operator operands ∧
      isRewritten operator = false ∧ isProduced operator = true := by
  obtain h | ⟨-, h⟩ := Option.or_eq_some_iff.mp h
  · have hlifted : ∀ {side : Node} {comparison : Node → Node},
        liftSide side comparison = some rewritten → ∃ operands, rewritten = .expression .if operands := by
      intro side comparison h
      unfold liftSide at h
      split at h
      next =>
        split at h
        next => exact ⟨_, (Option.some_inj.mp h).symm⟩
        next => cases h
      next => cases h
    obtain ⟨operands, rfl⟩ : ∃ operands, rewritten = .expression .if operands := by
      unfold liftConstantTernary at h
      split at h
      next =>
        split at h
        next =>
          obtain h | ⟨-, h⟩ := Option.or_eq_some_iff.mp h
          · exact hlifted h
          · exact hlifted h
        next => cases h
      next => cases h
    exact ⟨.if, operands, rfl, rfl, rfl⟩
  obtain h | ⟨-, h⟩ := Option.or_eq_some_iff.mp h
  · obtain ⟨m, -, h⟩ := Option.bind_eq_some_iff.mp h
    split at h
    next =>
      obtain rfl := Option.some_inj.mp h
      split
      · exact ⟨.not, _, rfl, rfl, rfl⟩
      · exact ⟨.all, _, rfl, rfl, rfl⟩
    next => cases h
  · unfold rewriteMembership at h
    split at h
    next =>
      split at h
      next =>
        obtain rfl := Option.some_inj.mp h
        exact ⟨.or, _, rfl, rfl, rfl⟩
      next => cases h
    next =>
      unfold projectedMembership at h
      split at h
      next =>
        split at h
        next =>
          obtain rfl := Option.some_inj.mp h
          exact ⟨.hasIntersection, _, rfl, rfl, rfl⟩
        next => cases h
      next => cases h

variable {mapped} in
theorem rewriteConstantKeyIndex_eq_some {node : Node}
    (h : rewriteConstantKeyIndex mapped node = some rewritten) :
    ∃ receiver key reference,
      node = .expression .index [.var receiver, .value (.string key)] ∧
        selectedReference mapped receiver key = some reference ∧ rewritten = .var reference := by
  unfold rewriteConstantKeyIndex at h
  split at h
  next receiver key =>
    obtain ⟨reference, hselected, rfl⟩ := Option.map_eq_some_iff.mp h
    exact ⟨receiver, key, reference, rfl, hselected, rfl⟩
  next => cases h

variable {mapped} in
/-- What a rewrite gives. -/
theorem rewriteStep_settled {node : Node} (h : rewriteStep mapped node = some rewritten) :
    (∃ name, rewritten = .var name) ∨ ∃ operator operands,
      rewritten = .expression operator operands ∧ isRewritten operator = false ∧
        isProduced operator = true := by
  obtain h | ⟨-, h⟩ := Option.or_eq_some_iff.mp h
  · obtain ⟨-, -, reference, -, -, rfl⟩ := rewriteConstantKeyIndex_eq_some h
    exact .inl ⟨reference, rfl⟩
  · exact .inr (rewriteOperation_settled h)

/-- One rewrite at most is taken. -/
theorem rewriteNode_eq (node : Node) :
    rewriteNode mapped dateParse clock node =
      (rewriteStep mapped node).elim (rewriteShiftedTimestamp dateParse clock node) some := by
  cases hstep : rewriteStep mapped node with
  | none =>
      obtain ⟨hindex, hstep⟩ := Option.or_eq_none_iff.mp hstep
      rw [rewriteOperation] at hstep
      obtain ⟨hternary, hstep⟩ := Option.or_eq_none_iff.mp hstep
      obtain ⟨hlist, hmembership⟩ := Option.or_eq_none_iff.mp hstep
      simp only [rewriteNode, hindex, hternary, hlist, hmembership, Option.getD_none,
        Option.elim_none]
  | some rewritten =>
      have hsettled := rewriteStep_settled hstep
      obtain ⟨hternary', hlist', hmembership', hinstant⟩ := rewriteNode_settled dateParse clock
        (hsettled.imp_right fun ⟨operator, operands, heq, hrewritten, _⟩ =>
          ⟨operator, operands, heq, hrewritten⟩)
      rw [Option.elim_some, ← hinstant]
      rw [rewriteStep] at hstep
      cases hindex : rewriteConstantKeyIndex mapped node with
      | some r =>
          rw [hindex, Option.some_or] at hstep
          obtain rfl := Option.some_inj.mp hstep
          simp only [rewriteNode, hindex, Option.getD_some, hternary', hlist', hmembership',
            Option.getD_none]
      | none =>
          rw [hindex, Option.none_or, rewriteOperation] at hstep
          cases hternary : liftConstantTernary node with
          | some r =>
              rw [hternary, Option.some_or] at hstep
              obtain rfl := Option.some_inj.mp hstep
              simp only [rewriteNode, hindex, hternary, Option.getD_some, hlist', hmembership',
                Option.getD_none]
          | none =>
              rw [hternary, Option.none_or] at hstep
              cases hlist : rewriteListFunction node with
              | some r =>
                  rw [hlist, Option.some_or] at hstep
                  obtain rfl := Option.some_inj.mp hstep
                  simp only [rewriteNode, hindex, hternary, hlist, Option.getD_some, hmembership',
                    Option.getD_none]
              | none =>
                  rw [hlist, Option.none_or] at hstep
                  simp only [rewriteNode, hindex, hternary, hlist, hstep, Option.getD_some,
                    Option.getD_none]

end Nodes

/-! ## Operands before and after -/

section Operands

variable {mapped : String → Bool} {dateParse : String → Option Int} {clock : Int}

/-- An operand and what the pass makes of it. -/
def Rewrites (mapped : String → Bool) (dateParse : String → Option Int) (clock : Int)
    (operand rewritten : Node) : Prop :=
  rewritePlan mapped dateParse clock operand = some rewritten

variable {rewritten node' : Node} {operands' : List Node}

theorem rewriteOperands_eq_some_iff {operands rewritten : List Node} :
    rewriteOperands mapped dateParse clock operands = some rewritten ↔
      List.Forall₂ (Rewrites mapped dateParse clock) operands rewritten := by
  induction operands generalizing rewritten with
  | nil => cases rewritten <;> simp [rewriteOperands]
  | cons operand operands ih =>
      rw [rewriteOperands, Option.bind_eq_some_iff]
      constructor
      · rintro ⟨first, hfirst, h⟩
        obtain ⟨rest, hrest, rfl⟩ := Option.map_eq_some_iff.mp h
        exact .cons hfirst (ih.mp hrest)
      · rintro (_ | ⟨hfirst, hrest⟩)
        exact ⟨_, hfirst, Option.map_eq_some_iff.mpr ⟨_, ih.mpr hrest, rfl⟩⟩

theorem rewrites_expression {operator : PlanOperator} {operands : List Node}
    (h : Rewrites mapped dateParse clock (.expression operator operands) rewritten) :
    ∃ operands', List.Forall₂ (Rewrites mapped dateParse clock) operands operands' ∧
      rewriteNode mapped dateParse clock (.expression operator operands') = some rewritten := by
  rw [Rewrites, rewritePlan] at h
  obtain ⟨operands', hoperands, h⟩ := Option.bind_eq_some_iff.mp h
  exact ⟨operands', rewriteOperands_eq_some_iff.mp hoperands, h⟩

/-- A node that no rewrite takes is left with its operands rewritten. -/
theorem rewriteNode_untouched {operator : PlanOperator} (h : isRewritten operator = false)
    (operands : List Node) :
    rewriteNode mapped dateParse clock (.expression operator operands) =
      some (.expression operator operands) := by
  obtain ⟨hternary, hlist, hmembership, hinstant⟩ :=
    rewriteNode_settled dateParse clock (.inr ⟨operator, operands, rfl, h⟩)
  have hstep : rewriteStep mapped (.expression operator operands) = none := by
    rw [rewriteStep, rewriteOperation, rewriteConstantKeyIndex_untouched h, hternary, hlist,
      hmembership]
    rfl
  rw [rewriteNode_eq, hstep, Option.elim_none, hinstant]

/-- What a node that a rewrite may take becomes. -/
theorem rewriteNode_produced {operator : PlanOperator} (h : isRewritten operator = true)
    {operands : List Node}
    (hnode : rewriteNode mapped dateParse clock (.expression operator operands) = some rewritten) :
    (∃ name, rewritten = .var name) ∨ ∃ operator' operands',
      rewritten = .expression operator' operands' ∧ isProduced operator' = true := by
  have hproduced : ∀ operator', isRewritten operator' = true → isProduced operator' = true := by
    intro operator' h'
    unfold isProduced
    split <;> first | rfl | exact h'
  rw [rewriteNode_eq] at hnode
  cases hstep : rewriteStep mapped (.expression operator operands) with
  | some r =>
      rw [hstep] at hnode
      obtain rfl := Option.some_inj.mp hnode
      obtain hvar | ⟨operator', operands', heq, -, hproduced⟩ := rewriteStep_settled hstep
      · exact .inl hvar
      · exact .inr ⟨operator', operands', heq, hproduced⟩
  | none =>
      rw [hstep, Option.elim_none, rewriteShiftedTimestamp] at hnode
      split at hnode
      next c _ =>
        obtain ⟨literal, -, rfl⟩ := Option.map_eq_some_iff.mp hnode
        refine .inr ⟨_, _, rfl, hproduced _ ?_⟩
        cases c.operator <;> rfl
      next =>
        obtain rfl := Option.some_inj.mp hnode
        exact .inr ⟨operator, operands, rfl, hproduced operator h⟩

/-- An expression whose operator no rewrite takes or gives comes from one, with its operands
rewritten, and goes to one. -/
theorem rewrites_stable (operator : PlanOperator) (hstable : isProduced operator = false)
    {operand : Node} (h : Rewrites mapped dateParse clock operand rewritten) :
    (∃ operands operands', operand = .expression operator operands ∧
        rewritten = .expression operator operands' ∧
          List.Forall₂ (Rewrites mapped dateParse clock) operands operands') ∨
      (∀ operands, operand ≠ .expression operator operands) ∧
        ∀ operands, rewritten ≠ .expression operator operands := by
  cases operand with
  | value v =>
      obtain rfl := Option.some_inj.mp h
      exact .inr ⟨by rintro _ ⟨⟩, by rintro _ ⟨⟩⟩
  | var name =>
      obtain rfl := Option.some_inj.mp h
      exact .inr ⟨by rintro _ ⟨⟩, by rintro _ ⟨⟩⟩
  | expression head operands =>
      obtain ⟨operands', hoperands, hnode⟩ := rewrites_expression h
      cases hhead : isRewritten head with
      | false =>
          rw [rewriteNode_untouched hhead] at hnode
          obtain rfl := Option.some_inj.mp hnode
          by_cases hsame : head = operator
          · exact .inl ⟨operands, operands', by rw [hsame], by rw [hsame], hoperands⟩
          · refine .inr ⟨fun _ heq => hsame (Operand.expression.inj heq).1,
              fun _ heq => hsame (Operand.expression.inj heq).1⟩
      | true =>
          have hproduced : isProduced head = true := by
            unfold isProduced
            split <;> first | rfl | exact hhead
          refine .inr ⟨?_, ?_⟩
          · rintro operands heq
            obtain ⟨rfl, -⟩ := Operand.expression.inj heq
            rw [hproduced] at hstable
            cases hstable
          · rintro operands heq
            obtain ⟨name, hvar⟩ | ⟨operator', operands', hexpression, hproduced'⟩ :=
              rewriteNode_produced hhead hnode
            · rw [hvar] at heq
              cases heq
            · rw [hexpression] at heq
              obtain ⟨rfl, -⟩ := Operand.expression.inj heq
              rw [hproduced'] at hstable
              cases hstable

/-- A constant comes from that constant. -/
theorem rewrites_value {operand : Node} {v : Literal}
    (h : Rewrites mapped dateParse clock operand rewritten) :
    operand = .value v ↔ rewritten = .value v := by
  cases operand with
  | value w =>
      obtain rfl := Option.some_inj.mp h
      exact Iff.rfl
  | var name =>
      obtain rfl := Option.some_inj.mp h
      exact Iff.rfl
  | expression head operands =>
      refine iff_of_false (by rintro ⟨⟩) ?_
      rintro rfl
      obtain ⟨operands', -, hnode⟩ := rewrites_expression h
      cases hhead : isRewritten head with
      | false =>
          rw [rewriteNode_untouched hhead] at hnode
          cases hnode
      | true =>
          obtain ⟨name, hvar⟩ | ⟨operator', operands', hexpression, -⟩ :=
            rewriteNode_produced hhead hnode
          · cases hvar
          · cases hexpression

/-! ## Shapes before and after -/

theorem Rewrites.literal_iff {operator : PlanOperator} (hstable : isProduced operator = false)
    {operand : Node} (h : Rewrites mapped dateParse clock operand rewritten)
    (v : Literal) :
    operand = .expression operator [.value v] ↔ rewritten = .expression operator [.value v] := by
  obtain ⟨operands, operands', rfl, rfl, hoperands⟩ | ⟨hoperand, hrewritten⟩ :=
    rewrites_stable operator hstable h
  · constructor
    · intro heq
      obtain ⟨-, rfl⟩ := Operand.expression.inj heq
      obtain _ | ⟨hvalue, hrest⟩ := hoperands
      obtain _ | _ := hrest
      rw [(rewrites_value hvalue).mp rfl]
    · intro heq
      obtain ⟨-, rfl⟩ := Operand.expression.inj heq
      obtain _ | ⟨hvalue, hrest⟩ := hoperands
      obtain _ | _ := hrest
      rw [(rewrites_value hvalue).mpr rfl]
  · exact iff_of_false (hoperand _) (hrewritten _)

/-- A reading of the constant of a call is the same before and after. -/
theorem Rewrites.reads_eq {α : Type} (operator : PlanOperator)
    (hstable : isProduced operator = false)
    {f : Node → Option α} {read : String → Option α}
    (hread : ∀ text, f (.expression operator [.value (.string text)]) = read text)
    (hnone : ∀ node, (∀ text, node ≠ .expression operator [.value (.string text)]) → f node = none)
    {operand : Node} (h : Rewrites mapped dateParse clock operand rewritten) :
    f rewritten = f operand := by
  by_cases hliteral : ∃ text, operand = .expression operator [.value (.string text)]
  · obtain ⟨text, hoperand⟩ := hliteral
    rw [(h.literal_iff hstable _).mp hoperand, hoperand]
  · rw [hnone operand fun text heq => hliteral ⟨text, heq⟩]
    apply hnone
    intro text heq
    exact hliteral ⟨text, (h.literal_iff hstable _).mpr heq⟩

theorem Rewrites.durationMilliseconds_eq {operand : Node}
    (h : Rewrites mapped dateParse clock operand rewritten) :
    durationMilliseconds rewritten = durationMilliseconds operand := by
  refine h.reads_eq .duration rfl (fun text => rfl) ?_
  intro node hnode
  unfold durationMilliseconds
  split
  next text => exact absurd rfl (hnode text)
  next => rfl

theorem Rewrites.timestampLiteralMilliseconds_eq {operand : Node}
    (h : Rewrites mapped dateParse clock operand rewritten) :
    timestampLiteralMilliseconds dateParse rewritten =
      timestampLiteralMilliseconds dateParse operand := by
  refine h.reads_eq .timestamp rfl (fun text => rfl) ?_
  intro node hnode
  unfold timestampLiteralMilliseconds
  split
  next text => exact absurd rfl (hnode text)
  next => rfl

theorem isTimestampCall_iff {node : Node} :
    isTimestampCall node = true ↔ ∃ operands, node = .expression .timestamp operands := by
  unfold isTimestampCall
  split
  next operands => exact iff_of_true rfl ⟨operands, rfl⟩
  next hnot => exact iff_of_false Bool.false_ne_true fun ⟨operands, heq⟩ => hnot operands heq

theorem Rewrites.isTimestampCall_eq {operand : Node}
    (h : Rewrites mapped dateParse clock operand rewritten) :
    isTimestampCall rewritten = isTimestampCall operand := by
  rw [Bool.eq_iff_iff, isTimestampCall_iff, isTimestampCall_iff]
  obtain ⟨operands, operands', rfl, rfl, -⟩ | ⟨hoperand, hrewritten⟩ :=
    rewrites_stable .timestamp rfl h
  · exact iff_of_true ⟨operands', rfl⟩ ⟨operands, rfl⟩
  · exact iff_of_false (fun ⟨operands, heq⟩ => hrewritten operands heq)
      fun ⟨operands, heq⟩ => hoperand operands heq

/-- A comparison of instants before and after: the arithmetic, the literal and the bare
timestamp are rewritten, and stand where they stood. -/
structure InstantComparison.Rewrites (mapped : String → Bool) (dateParse : String → Option Int)
    (clock : Int) (c c' : InstantComparison) : Prop where
  operator : c'.operator = c.operator
  bound : c'.bound = c.bound
  arithmetic : Drizzle.Rewrites mapped dateParse clock c.arithmetic c'.arithmetic
  literal : Drizzle.Rewrites mapped dateParse clock c.literal c'.literal
  conversion : Drizzle.Rewrites mapped dateParse clock c.conversion c'.conversion
  inside : c.conversion ∈ c.arithmetic.operands
  head : ∃ operator operands, c.arithmetic = .expression operator operands ∧
    (operator = .add ∨ operator = .sub ∨ operator = .timeSince)

theorem rel_or {α β : Type} {R : α → β → Prop} {a a' : Option α} {b b' : Option β}
    (h : Option.Rel R a b) (h' : Option.Rel R a' b') : Option.Rel R (a.or a') (b.or b') := by
  cases h with
  | some hab => exact .some hab
  | none => exact h'

/-- A shifted timestamp, with the timestamp rewritten. -/
def ShiftRewrites (mapped : String → Bool) (dateParse : String → Option Int) (clock : Int)
    (operands : List Node) (shifted shifted' : Node × Double) : Prop :=
  Rewrites mapped dateParse clock shifted.1 shifted'.1 ∧ shifted'.2 = shifted.2 ∧
    shifted.1 ∈ operands

theorem conversionAndDuration_rewrites {conversion duration conversion' duration' : Node}
    {operands : List Node} (hconversion : Rewrites mapped dateParse clock conversion conversion')
    (hduration : Rewrites mapped dateParse clock duration duration') (hmem : conversion ∈ operands) :
    Option.Rel (ShiftRewrites mapped dateParse clock operands)
      (conversionAndDuration dateParse conversion duration)
      (conversionAndDuration dateParse conversion' duration') := by
  have hisConversion : isConversion dateParse conversion' = isConversion dateParse conversion := by
    rw [isConversion, isConversion, hconversion.isTimestampCall_eq,
      hconversion.timestampLiteralMilliseconds_eq]
  rw [conversionAndDuration, conversionAndDuration, hisConversion,
    hduration.durationMilliseconds_eq]
  split
  · cases durationMilliseconds duration with
    | none => exact .none
    | some window => exact .some ⟨hconversion, rfl, hmem⟩
  · exact .none

theorem shiftedTimestamp_eq_none {node : Node}
    (hadd : ∀ left right, node ≠ .expression .add [left, right])
    (hsub : ∀ left right, node ≠ .expression .sub [left, right]) :
    shiftedTimestamp dateParse node = none := by
  unfold shiftedTimestamp
  split
  next left right => exact absurd rfl (hadd left right)
  next left right => exact absurd rfl (hsub left right)
  next => rfl

theorem Rewrites.pair (operator : PlanOperator) (hstable : isProduced operator = false)
    {operand : Node} (h : Rewrites mapped dateParse clock operand rewritten) :
    (∃ left right left' right', operand = .expression operator [left, right] ∧
        rewritten = .expression operator [left', right'] ∧
          Rewrites mapped dateParse clock left left' ∧
            Rewrites mapped dateParse clock right right') ∨
      (∀ left right, operand ≠ .expression operator [left, right]) ∧
        ∀ left right, rewritten ≠ .expression operator [left, right] := by
  obtain ⟨operands, operands', rfl, rfl, hoperands⟩ | ⟨hoperand, hrewritten⟩ :=
    rewrites_stable operator hstable h
  · by_cases hpair : operands.length = 2
    · obtain ⟨left, right, rfl⟩ := List.length_eq_two.mp hpair
      obtain _ | ⟨hleft, hrest⟩ := hoperands
      obtain _ | ⟨hright, hrest⟩ := hrest
      obtain _ | _ := hrest
      exact .inl ⟨left, right, _, _, rfl, rfl, hleft, hright⟩
    · have hlength := hoperands.length_eq
      refine .inr ⟨?_, ?_⟩
      · rintro left right heq
        obtain ⟨-, rfl⟩ := Operand.expression.inj heq
        exact hpair rfl
      · rintro left right heq
        obtain ⟨-, rfl⟩ := Operand.expression.inj heq
        exact hpair hlength
  · exact .inr ⟨fun _ _ => hoperand _, fun _ _ => hrewritten _⟩

/-- The side of a comparison that is arithmetic on a timestamp, before and after. -/
theorem instantSide_rewrites {side other side' other' : Node} (operator : ComparisonOperator)
    (hside : Rewrites mapped dateParse clock side side')
    (hother : Rewrites mapped dateParse clock other other') :
    Option.Rel (InstantComparison.Rewrites mapped dateParse clock)
      (instantSide dateParse clock operator side other)
      (instantSide dateParse clock operator side' other') := by
  have hshift : ∀ {shifted shifted' : Node × Double} {head : PlanOperator} {operands : List Node},
      side = .expression head operands → (head = .add ∨ head = .sub ∨ head = .timeSince) →
      ShiftRewrites mapped dateParse clock operands shifted shifted' →
        Option.Rel (InstantComparison.Rewrites mapped dateParse clock)
          ((timestampLiteralMilliseconds dateParse other).map fun bound =>
            ⟨side, other, operator, shifted.1, bound.sub shifted.2⟩)
          ((timestampLiteralMilliseconds dateParse other').map fun bound =>
            ⟨side', other', operator, shifted'.1, bound.sub shifted'.2⟩) := by
    rintro ⟨timestamp, shift⟩ ⟨timestamp', shift'⟩ head operands heq hhead ⟨htimestamp, rfl, hmem⟩
    rw [hother.timestampLiteralMilliseconds_eq]
    cases timestampLiteralMilliseconds dateParse other with
    | none => exact .none
    | some bound =>
        refine .some ⟨rfl, rfl, hside, hother, htimestamp, ?_, head, operands, heq, hhead⟩
        rw [heq]
        exact hmem
  have hsince : Option.Rel (InstantComparison.Rewrites mapped dateParse clock)
      (sinceSide clock operator side other) (sinceSide clock operator side' other') := by
    have hnone : ∀ {node other : Node}, (∀ conversion, node ≠ .expression .timeSince [conversion]) →
        sinceSide clock operator node other = none := by
      intro node other hnode
      unfold sinceSide
      split
      next conversion => exact absurd rfl (hnode conversion)
      next => rfl
    obtain ⟨operands, operands', rfl, rfl, hoperands⟩ | ⟨hoperand, hrewritten⟩ :=
      rewrites_stable .timeSince rfl hside
    · by_cases hone : operands.length = 1
      · obtain ⟨conversion, rfl⟩ := List.length_eq_one_iff.mp hone
        obtain _ | ⟨hconversion, hrest⟩ := hoperands
        obtain _ | _ := hrest
        rw [sinceSide, sinceSide, hconversion.isTimestampCall_eq, hother.durationMilliseconds_eq]
        split
        · cases durationMilliseconds other with
          | none => exact .none
          | some window =>
              exact .some ⟨rfl, rfl, hside, hother, hconversion, List.mem_cons_self, _, _, rfl,
                .inr (.inr rfl)⟩
        · exact .none
      · have hlength := hoperands.length_eq
        rw [hnone, hnone]
        · exact .none
        · rintro conversion heq
          obtain ⟨-, rfl⟩ := Operand.expression.inj heq
          exact hone hlength
        · rintro conversion heq
          obtain ⟨-, rfl⟩ := Operand.expression.inj heq
          exact hone rfl
    · rw [hnone fun conversion => hoperand _, hnone fun conversion => hrewritten _]
      exact .none
  refine rel_or ?_ hsince
  rw [shiftedSide, shiftedSide]
  obtain ⟨left, right, left', right', rfl, rfl, hleft, hright⟩ | ⟨hadd, hadd'⟩ :=
    hside.pair .add rfl
  · rw [shiftedTimestamp, shiftedTimestamp]
    have hrel := rel_or
      (conversionAndDuration_rewrites hleft hright (List.mem_cons_self (l := [right])))
      (conversionAndDuration_rewrites hright hleft
        (List.mem_cons_of_mem left (List.mem_cons_self (l := []))))
    revert hrel
    generalize (conversionAndDuration dateParse left right).or _ = before
    generalize (conversionAndDuration dateParse left' right').or _ = after
    rintro (hrel | _)
    · exact hshift rfl (.inl rfl) hrel
    · exact .none
  obtain ⟨left, right, left', right', rfl, rfl, hleft, hright⟩ | ⟨hsub, hsub'⟩ :=
    hside.pair .sub rfl
  · rw [shiftedTimestamp, shiftedTimestamp]
    have hrel := conversionAndDuration_rewrites hleft hright (List.mem_cons_self (l := [right]))
    revert hrel
    generalize conversionAndDuration dateParse left right = before
    generalize conversionAndDuration dateParse left' right' = after
    intro hrel
    cases hrel with
    | none => exact .none
    | @some shifted shifted' hrel =>
        obtain ⟨hconversion, hequal, hmem⟩ := hrel
        have hnegated : ShiftRewrites mapped dateParse clock [left, right]
            (shifted.1, shifted.2.neg) (shifted'.1, shifted'.2.neg) :=
          ⟨hconversion, congrArg Double.neg hequal, hmem⟩
        exact hshift rfl (.inr (.inl rfl)) hnegated
  · rw [shiftedTimestamp_eq_none hadd hsub, shiftedTimestamp_eq_none hadd' hsub']
    exact .none

theorem instantSide_eq_some {operator : ComparisonOperator} {side other : Node}
    {c : InstantComparison} (h : instantSide dateParse clock operator side other = some c) :
    c.arithmetic = side ∧ c.literal = other := by
  obtain h | ⟨-, h⟩ := Option.or_eq_some_iff.mp h
  · obtain ⟨shifted, -, h⟩ := Option.bind_eq_some_iff.mp h
    obtain ⟨bound, -, rfl⟩ := Option.map_eq_some_iff.mp h
    exact ⟨rfl, rfl⟩
  · unfold sinceSide at h
    split at h
    next =>
      split at h
      next =>
        obtain ⟨window, -, rfl⟩ := Option.map_eq_some_iff.mp h
        exact ⟨rfl, rfl⟩
      next => cases h
    next => cases h

/-- The operands of a comparison of instants are the arithmetic and the literal. -/
theorem instantComparison_eq_some {node : Node} {c : InstantComparison}
    (h : instantComparison dateParse clock node = some c) :
    ∃ operator left right, node = .expression operator [left, right] ∧
      c.arithmetic ∈ [left, right] ∧ c.literal ∈ [left, right] := by
  unfold instantComparison at h
  split at h
  next operator left right =>
    refine ⟨operator, left, right, rfl, ?_⟩
    obtain ⟨op, -, h⟩ := Option.bind_eq_some_iff.mp h
    obtain h | ⟨-, h⟩ := Option.or_eq_some_iff.mp h
    · obtain ⟨harithmetic, hliteral⟩ := instantSide_eq_some h
      simp [harithmetic, hliteral]
    · obtain ⟨harithmetic, hliteral⟩ := instantSide_eq_some h
      simp [harithmetic, hliteral]
  next => cases h

/-- Lists of the same length have two elements together. -/
theorem pair_of_forall₂ {R : Node → Node → Prop} {operands : List Node}
    (h : List.Forall₂ R operands operands') :
    (∃ left right left' right', operands = [left, right] ∧ operands' = [left', right'] ∧
        R left left' ∧ R right right') ∨
      (∀ left right, operands ≠ [left, right]) ∧ ∀ left right, operands' ≠ [left, right] := by
  by_cases hpair : operands.length = 2
  · obtain ⟨left, right, rfl⟩ := List.length_eq_two.mp hpair
    obtain _ | ⟨hleft, hrest⟩ := h
    obtain _ | ⟨hright, hrest⟩ := hrest
    obtain _ | _ := hrest
    exact .inl ⟨left, right, _, _, rfl, rfl, hleft, hright⟩
  · have hlength := h.length_eq
    refine .inr ⟨?_, ?_⟩
    · rintro left right rfl
      exact hpair rfl
    · rintro left right rfl
      exact hpair hlength

theorem instantComparison_rewrites (operator : PlanOperator) {operands : List Node}
    (h : List.Forall₂ (Rewrites mapped dateParse clock) operands operands') :
    Option.Rel (InstantComparison.Rewrites mapped dateParse clock)
      (instantComparison dateParse clock (.expression operator operands))
      (instantComparison dateParse clock (.expression operator operands')) := by
  have hnone : ∀ {operands : List Node}, (∀ left right, operands ≠ [left, right]) →
      instantComparison dateParse clock (.expression operator operands) = none := by
    intro operands hoperands
    unfold instantComparison
    split
    next left right heq => exact absurd (Operand.expression.inj heq).2 (hoperands _ _)
    next => rfl
  obtain ⟨left, right, left', right', rfl, rfl, hleft, hright⟩ | ⟨hbefore, hafter⟩ :=
    pair_of_forall₂ h
  · rw [instantComparison, instantComparison]
    cases comparisonOps operator with
    | none => exact .none
    | some op =>
        exact rel_or (instantSide_rewrites op hleft hright)
          (instantSide_rewrites op.mirrored hright hleft)
  · rw [hnone hbefore, hnone hafter]
    exact .none

/-! ## Lists before and after -/

/-- An operand of a node, or of a function that is one of its operands. -/
def Inside (operands : List Node) (node : Node) : Prop :=
  node ∈ operands ∨ ∃ operator inner, .expression operator inner ∈ operands ∧
    isStrict operator = true ∧ node ∈ inner

/-- A list and its constants before and after. -/
def ListMembership.Rewrites (mapped : String → Bool) (dateParse : String → Option Int)
    (clock : Int) (operands : List Node) (m m' : ListMembership) : Prop :=
  Drizzle.Rewrites mapped dateParse clock m.list m'.list ∧ m'.constants = m.constants ∧
    m'.negate = m.negate ∧ Inside operands m.list

theorem isEmptyList_rewrites {left left' : Node} (h : Rewrites mapped dateParse clock left left') :
    isEmptyList left' = isEmptyList left := by
  rw [Bool.eq_iff_iff]
  constructor
  · intro hempty
    rw [(rewrites_value h).mpr (isEmptyList_eq hempty)]
    rfl
  · intro hempty
    rw [(rewrites_value h).mp (isEmptyList_eq hempty)]
    rfl

/-- A call of a list and a constant list, before and after. -/
theorem listCall_rewrites {f : Node → Option ListMembership} {operator : PlanOperator} (negate : Bool)
    {list list' constants constants' : Node} {operands : List Node}
    (hcall : ∀ list items, f (.expression operator [list, .value (.array items)]) =
      if items.all isScalar then some ⟨list, items, negate⟩ else none)
    (hnone : ∀ list constants, (∀ items, constants ≠ .value (.array items)) →
      f (.expression operator [list, constants]) = none)
    (hlist : Rewrites mapped dateParse clock list list')
    (hconstants : Rewrites mapped dateParse clock constants constants')
    (hinside : Inside operands list) :
    Option.Rel (ListMembership.Rewrites mapped dateParse clock operands)
      (f (.expression operator [list, constants]))
      (f (.expression operator [list', constants'])) := by
  by_cases harray : ∃ items, constants = .value (.array items)
  · obtain ⟨items, rfl⟩ := harray
    obtain rfl := (rewrites_value hconstants).mp rfl
    rw [hcall, hcall]
    split
    · exact .some ⟨hlist, rfl, rfl, hinside⟩
    · exact .none
  · rw [hnone, hnone]
    · exact .none
    · intro items heq
      exact harray ⟨items, (rewrites_value hconstants).mpr heq⟩
    · intro items heq
      exact harray ⟨items, heq⟩

theorem listFunctionAll_eq_none {node : Node}
    (hexcept : ∀ left right, node ≠ .expression .except [left, right])
    (hintersect : ∀ left right, node ≠ .expression .intersect [left, right]) :
    listFunctionAll node = none := by
  unfold listFunctionAll
  split
  next list constants => exact absurd rfl (hexcept _ _)
  next list constants => exact absurd rfl (hintersect _ _)
  next => rfl

theorem listFunctionAll_rewrites {node : Node} {operands : List Node}
    (h : Rewrites mapped dateParse clock node node') (hmem : node ∈ operands) :
    Option.Rel (ListMembership.Rewrites mapped dateParse clock operands)
      (listFunctionAll node) (listFunctionAll node') := by
  obtain ⟨list, constants, list', constants', rfl, rfl, hlist, hconstants⟩ | ⟨hexcept, hexcept'⟩ :=
    h.pair .except rfl
  · refine listCall_rewrites false (fun _ _ => rfl) ?_ hlist hconstants
      (.inr ⟨.except, _, hmem, rfl, List.mem_cons_self⟩)
    intro list constants hconstants
    unfold listFunctionAll
    split
    next items heq =>
      have hitems := (List.cons.inj (List.cons.inj (Operand.expression.inj heq).2).2).1
      exact absurd hitems (hconstants _)
    next heq => cases heq
    next => rfl
  obtain ⟨list, constants, list', constants', rfl, rfl, hlist, hconstants⟩ |
      ⟨hintersect, hintersect'⟩ := h.pair .intersect rfl
  · refine listCall_rewrites true (fun _ _ => rfl) ?_ hlist hconstants
      (.inr ⟨.intersect, _, hmem, rfl, List.mem_cons_self⟩)
    intro list constants hconstants
    unfold listFunctionAll
    split
    next heq => cases heq
    next items heq =>
      have hitems := (List.cons.inj (List.cons.inj (Operand.expression.inj heq).2).2).1
      exact absurd hitems (hconstants _)
    next => rfl
  · rw [listFunctionAll_eq_none hexcept hintersect, listFunctionAll_eq_none hexcept' hintersect']
    exact .none

theorem listMembership_eq_none {operator : PlanOperator} {operands : List Node}
    (h : ∀ left right, operands ≠ [left, right]) :
    listMembership (.expression operator operands) = none := by
  unfold listMembership
  split
  next heq => exact absurd (Operand.expression.inj heq).2 (h _ _)
  next heq => exact absurd (Operand.expression.inj heq).2 (h _ _)
  next heq => exact absurd (Operand.expression.inj heq).2 (h _ _)
  next => rfl

theorem listMembership_rewrites (operator : PlanOperator) {operands : List Node}
    (h : List.Forall₂ (Rewrites mapped dateParse clock) operands operands') :
    Option.Rel (ListMembership.Rewrites mapped dateParse clock operands)
      (listMembership (.expression operator operands))
      (listMembership (.expression operator operands')) := by
  obtain ⟨left, right, left', right', rfl, rfl, hleft, hright⟩ | ⟨hbefore, hafter⟩ :=
    pair_of_forall₂ h
  · have hleftMem : left ∈ [left, right] := List.mem_cons_self
    have hrightMem : right ∈ [left, right] := List.mem_cons_of_mem _ List.mem_cons_self
    have hempty : Option.Rel (ListMembership.Rewrites mapped dateParse clock [left, right])
        (if isEmptyList right then listFunctionAll left
          else if isEmptyList left then listFunctionAll right else none)
        (if isEmptyList right' then listFunctionAll left'
          else if isEmptyList left' then listFunctionAll right' else none) := by
      rw [isEmptyList_rewrites hleft, isEmptyList_rewrites hright]
      split
      · exact listFunctionAll_rewrites hleft hleftMem
      · split
        · exact listFunctionAll_rewrites hright hrightMem
        · exact .none
    by_cases hsubset : operator = .isSubset
    · subst hsubset
      refine listCall_rewrites false (fun _ _ => rfl) ?_ hleft hright (.inl hleftMem)
      intro list constants hconstants
      unfold listMembership
      split
      next items heq =>
        have hitems := (List.cons.inj (List.cons.inj (Operand.expression.inj heq).2).2).1
        exact absurd hitems (hconstants _)
      next heq => cases heq
      next heq => cases heq
      next => rfl
    by_cases hequal : operator = .eq
    · subst hequal
      exact hempty
    by_cases hunequal : operator = .ne
    · subst hunequal
      exact hempty
    · have hnone : ∀ operands, listMembership (.expression operator operands) = none := by
        intro operands
        unfold listMembership
        split
        next heq => exact absurd (Operand.expression.inj heq).1 hsubset
        next heq => exact absurd (Operand.expression.inj heq).1 hequal
        next heq => exact absurd (Operand.expression.inj heq).1 hunequal
        next => rfl
      rw [hnone, hnone]
      exact .none
  · rw [listMembership_eq_none hbefore, listMembership_eq_none hafter]
    exact .none

/-- A membership in a concatenation before and after. -/
def ConcatenatedMembership.Rewrites (mapped : String → Bool) (dateParse : String → Option Int)
    (clock : Int) (operands : List Node) (m m' : ConcatenatedMembership) : Prop :=
  Drizzle.Rewrites mapped dateParse clock m.element m'.element ∧
    Drizzle.Rewrites mapped dateParse clock m.list m'.list ∧ m'.constants = m.constants ∧
      Inside operands m.element ∧ Inside operands m.list

theorem concatenatedMembership_eq_some {node : Node} {m : ConcatenatedMembership}
    (h : concatenatedMembership node = some m) :
    node = .expression .in
        [m.element, .expression .add [m.list, .value (.array m.constants)]] ∧
      m.constants.all isScalar = true := by
  unfold concatenatedMembership at h
  split at h
  next =>
    split at h
    next hscalar =>
      obtain rfl := Option.some_inj.mp h
      exact ⟨rfl, hscalar⟩
    next => cases h
  next => cases h

theorem concatenatedMembership_of_scalars (element list : Node) {constants : List Literal}
    (h : constants.all isScalar = true) :
    concatenatedMembership (.expression .in
        [element, .expression .add [list, .value (.array constants)]]) =
      some ⟨element, list, constants⟩ := by
  rw [concatenatedMembership, if_pos h]

theorem concatenatedMembership_rewrites (operator : PlanOperator) {operands : List Node}
    (h : List.Forall₂ (Rewrites mapped dateParse clock) operands operands') :
    Option.Rel (ConcatenatedMembership.Rewrites mapped dateParse clock operands)
      (concatenatedMembership (.expression operator operands))
      (concatenatedMembership (.expression operator operands')) := by
  cases hbefore : concatenatedMembership (.expression operator operands) with
  | some m =>
      obtain ⟨heq, hscalars⟩ := concatenatedMembership_eq_some hbefore
      obtain ⟨rfl, rfl⟩ := Operand.expression.inj heq
      obtain _ | ⟨helement, hrest⟩ := h
      obtain _ | ⟨hadd, hrest⟩ := hrest
      obtain _ | _ := hrest
      obtain ⟨left, right, list', right', hpair, rfl, hlist, hconstants⟩ | ⟨hnever, -⟩ :=
        hadd.pair .add rfl
      · cases hpair
        obtain rfl := (rewrites_value hconstants).mp rfl
        rw [concatenatedMembership_of_scalars _ _ hscalars]
        have hadded : .expression .add [m.list, .value (.array m.constants)] ∈
            [m.element, .expression .add [m.list, .value (.array m.constants)]] :=
          List.mem_cons_of_mem _ List.mem_cons_self
        exact .some ⟨helement, hlist, rfl, .inl List.mem_cons_self,
          .inr ⟨.add, _, hadded, rfl, List.mem_cons_self⟩⟩
      · exact absurd rfl (hnever _ _)
  | none =>
      cases hafter : concatenatedMembership (.expression operator operands') with
      | none => exact .none
      | some m =>
          obtain ⟨heq, hscalars⟩ := concatenatedMembership_eq_some hafter
          obtain ⟨rfl, rfl⟩ := Operand.expression.inj heq
          obtain _ | ⟨helement, hrest⟩ := h
          obtain _ | ⟨hadd, hrest⟩ := hrest
          obtain _ | _ := hrest
          obtain ⟨left, right, list', right', rfl, hpair, hlist, hconstants⟩ | ⟨-, hnever⟩ :=
            hadd.pair .add rfl
          · cases hpair
            obtain rfl := (rewrites_value hconstants).mpr rfl
            rw [concatenatedMembership_of_scalars _ _ hscalars] at hbefore
            cases hbefore
          · exact absurd rfl (hnever _ _)

/-! ## References -/

/-- The reference that a node is, once constant keys are selected. -/
def referenceOf (mapped : String → Bool) : Node → Option String
  | .var name => some name
  | .expression .index [receiver, .value (.string key)] =>
      (referenceOf mapped receiver).bind fun receiver => selectedReference mapped receiver key
  | _ => none

/-- A node becomes a reference by a constant key alone. -/
theorem rewriteNode_var_iff {operator : PlanOperator} {operands : List Node} {reference : String} :
    rewriteNode mapped dateParse clock (.expression operator operands) = some (.var reference) ↔
      rewriteConstantKeyIndex mapped (.expression operator operands) = some (.var reference) := by
  rw [rewriteNode_eq, rewriteStep]
  cases hindex : rewriteConstantKeyIndex mapped (.expression operator operands) with
  | some r =>
      rw [Option.some_or, Option.elim_some]
  | none =>
      refine iff_of_false ?_ (by rintro ⟨⟩)
      rw [Option.none_or]
      cases hoperation : rewriteOperation (.expression operator operands) with
      | some r =>
          obtain ⟨operator', operands', rfl, -, -⟩ := rewriteOperation_settled hoperation
          rintro ⟨⟩
      | none =>
          rw [Option.elim_none, rewriteShiftedTimestamp]
          split
          · intro hnode
            obtain ⟨literal, -, heq⟩ := Option.map_eq_some_iff.mp hnode
            cases heq
          · rintro ⟨⟩

/-- A node is rewritten to a reference exactly when it is one. -/
theorem referenceOf_rewrites {node : Node} (h : Rewrites mapped dateParse clock node node')
    (reference : String) : referenceOf mapped node = some reference ↔ node' = .var reference := by
  induction node using Operand.induction generalizing node' reference with
  | value v =>
      obtain rfl := Option.some_inj.mp h
      refine iff_of_false (by rintro ⟨⟩) (by rintro ⟨⟩)
  | var name =>
      obtain rfl := Option.some_inj.mp h
      rw [referenceOf, Option.some_inj, Operand.var.injEq]
  | expression operator operands ih =>
      obtain ⟨operands', hoperands, hnode⟩ := rewrites_expression h
      have hiff : node' = .var reference ↔
          rewriteConstantKeyIndex mapped (.expression operator operands') =
            some (.var reference) := by
        rw [← rewriteNode_var_iff, hnode, Option.some_inj]
      rw [hiff]
      constructor
      · intro hreference
        unfold referenceOf at hreference
        split at hreference
        next heq => cases heq
        next receiver key heq =>
          obtain ⟨rfl, rfl⟩ := Operand.expression.inj heq
          obtain ⟨name, hname, hselected⟩ := Option.bind_eq_some_iff.mp hreference
          obtain _ | ⟨hreceiver, hrest⟩ := hoperands
          obtain _ | ⟨hkey, hrest⟩ := hrest
          obtain _ | _ := hrest
          obtain rfl := (ih receiver List.mem_cons_self hreceiver name).mp hname
          obtain rfl := (rewrites_value hkey).mp rfl
          rw [rewriteConstantKeyIndex, hselected]
          rfl
        next => cases hreference
      · intro hindex
        obtain ⟨receiver, key, selected, heq, hselected, hvar⟩ :=
          rewriteConstantKeyIndex_eq_some hindex
        obtain ⟨rfl, rfl⟩ := Operand.expression.inj heq
        obtain rfl := Operand.var.inj hvar
        obtain _ | ⟨hreceiver, hrest⟩ := hoperands
        obtain _ | ⟨hkey, hrest⟩ := hrest
        obtain _ | _ := hrest
        obtain rfl := (rewrites_value hkey).mpr rfl
        have hname := (ih _ List.mem_cons_self hreceiver receiver).mpr rfl
        rw [referenceOf, hname, Option.bind_some, hselected]

theorem referenceOf_isSome {node : Node} (h : Rewrites mapped dateParse clock node node') :
    (referenceOf mapped node).isSome = true ↔ node'.isVariable = true := by
  rw [Option.isSome_iff_exists]
  constructor
  · rintro ⟨reference, hreference⟩
    rw [(referenceOf_rewrites h reference).mp hreference]
    rfl
  · intro hvariable
    cases node' with
    | var reference => exact ⟨reference, (referenceOf_rewrites h reference).mpr rfl⟩
    | value v => cases hvariable
    | expression operator operands => cases hvariable

end Operands

end QueryPlanAdapters.Drizzle
