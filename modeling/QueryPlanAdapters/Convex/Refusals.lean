import QueryPlanAdapters.Convex.Splitting

/-!
# Convex: what can throw after a plan is accepted

A plan the adapter accepts may still throw when its filter is built or when its
post-filter runs: the structural checks ask neither for the operands an operator
evaluates nor for a boolean in a pushed constant, they let a lambda stand where a
value is evaluated, and a duration's unit is looked up in a plain object. A
condition with none of these answers on every document, save for the documented
failure on a divisor that is zero only at evaluation.
-/

namespace QueryPlanAdapters.Convex

/-! ## Building the filter -/

mutual

/-- Every constant in a boolean position is a boolean, and every `not` has an operand. -/
def isEmittable : Operand → Bool
  | .value (.bool _) => true
  | .value _ => false
  | .var _ => true
  | .expression operator operands =>
      match ruleFor operator with
      | some (.junction _) => areEmittable operands
      | some .not => isFirstEmittable operands
      | _ => true

def areEmittable : List Operand → Bool
  | [] => true
  | operand :: operands => isEmittable operand && areEmittable operands

def isFirstEmittable : List Operand → Bool
  | [] => false
  | operand :: _ => isEmittable operand

end

@[simp] theorem areEmittable_eq_all (operands : List Operand) :
    areEmittable operands = operands.all isEmittable := by
  induction operands with
  | nil => rfl
  | cons operand operands ih => simp [areEmittable, ih]

section Emission

variable {ε : Type} {q : FilterQ ε} {mapper : Mapper}

theorem emitEach_isOk_iff {operands : List Operand} {negated : Bool} :
    (∃ emitted, emitEach q mapper operands negated = .ok emitted) ↔
      ∀ operand ∈ operands, ∃ built, emitExpression q mapper operand negated = .ok built := by
  induction operands with
  | nil => exact iff_of_true ⟨[], rfl⟩ nofun
  | cons operand operands ih =>
      simp only [emitEach, Except.bind_eq_ok_iff, List.forall_mem_cons, ← ih]
      constructor
      · rintro ⟨emitted, e, he, es, hes, -⟩
        exact ⟨⟨e, he⟩, es, hes⟩
      · rintro ⟨⟨e, he⟩, es, hes⟩
        exact ⟨e :: es, e, he, es, hes, rfl⟩

/-- A pushable tree's filter is built, by any builder, exactly when the tree is emittable. -/
theorem emitExpression_isOk_iff {expression : Operand} {negated : Bool}
    (hpush : canPushToDb mapper expression = true) :
    (∃ built, emitExpression q mapper expression negated = .ok built) ↔
      isEmittable expression = true := by
  induction expression using Operand.induction generalizing negated with
  | value literal => cases literal <;> simp [emitExpression, isEmittable]
  | var name => simp [emitExpression, isEmittable]
  | expression operator operands ih =>
      cases hrule : ruleFor operator with
      | none => simp [canPushToDb, hrule] at hpush
      | some rule =>
          rw [canPushToDb, hrule] at hpush
          rw [emitExpression, isEmittable, hrule]
          cases rule with
          | junction decisive =>
              simp only [allPushable_eq_all, List.all_eq_true] at hpush
              simp only [areEmittable_eq_all, List.all_eq_true, Except.bind_eq_ok_iff]
              constructor
              · rintro ⟨built, emitted, hemitted, -⟩ operand hmem
                exact (ih operand hmem (hpush operand hmem)).mp
                  (emitEach_isOk_iff.mp ⟨emitted, hemitted⟩ operand hmem)
              · intro h
                obtain ⟨emitted, hemitted⟩ := emitEach_isOk_iff.mpr fun operand hmem =>
                  (ih operand hmem (hpush operand hmem)).mpr (h operand hmem)
                exact ⟨_, emitted, hemitted, rfl⟩
          | not =>
              simp only [allPushable_eq_all, List.all_eq_true] at hpush
              cases operands with
              | nil => simp [emitFirst, isFirstEmittable]
              | cons operand rest =>
                  exact ih operand List.mem_cons_self (hpush operand List.mem_cons_self)
          | equality comparisonOperator =>
              obtain ⟨pair, hpair, -⟩ := (Option.any_eq_true _ _).mp hpush
              simp [emitEquality, hpair]
          | ordering comparisonOperator =>
              obtain ⟨pair, hpair, -⟩ := (Option.any_eq_true _ _).mp hpush
              simp only [emitOrdering, hpair, iff_true]
              split <;> exact ⟨_, rfl⟩
          | membership =>
              obtain ⟨pair, hpair, -⟩ := (Option.any_eq_true _ _).mp hpush
              simp [emitMembership, hpair]

end Emission

/-- A root `and` and its conjuncts are emittable together. -/
theorem isEmittable_iff_conjuncts {condition : Operand} :
    isEmittable condition = true ↔ ∀ conjunct ∈ conjuncts condition, isEmittable conjunct = true := by
  unfold conjuncts
  split
  · simp [isEmittable, ruleFor]
  · simp

theorem isEmittable_conjunction_iff {operands : List Operand} :
    isEmittable (conjunction operands) = true ↔
      ∀ operand ∈ operands, isEmittable operand = true := by
  match operands with
  | [operand] => simp [conjunction]
  | [] | first :: second :: rest => simp [conjunction, isEmittable, ruleFor]

theorem canPushToDb_conjunction {mapper : Mapper} {operands : List Operand}
    (h : ∀ operand ∈ operands, canPushToDb mapper operand = true) :
    canPushToDb mapper (conjunction operands) = true := by
  match operands with
  | [operand] => exact h operand List.mem_cons_self
  | [] => rfl
  | first :: second :: rest => simpa [conjunction, canPushToDb, ruleFor] using h

/-! ## Running the post-filter -/

/-- The documented failure on a divisor that is zero only at evaluation. -/
def isIndeterminateZeroDivisor (thrown : Thrown) : Prop :=
  thrown = .unsupported indeterminateZeroDivisorMessage

section Answerable

variable [Double.Rounding]

/-- Whether `duration()` over the operand never looks up an inherited name: the
operand is a literal, and no text with such a unit. -/
def isSafeDuration (operands : List Operand) : Bool :=
  match operands with
  | .value (.string text) :: _ => parseDuration durationUnit text ≠ .typeError
  | .value _ :: _ => true
  | _ => false

/-- Whether an operator has the operands it evaluates. `each` tells which operands
are answerable, and `inner` which of their own operands are. -/
def hasEvaluatedOperands (operator : PlanOperator) (operands : List Operand) (each : List Bool)
    (inner : List (List Bool)) : Bool :=
  let first := each[0]?.getD false
  let second := each[1]?.getD false
  let third := each[2]?.getD false
  match operator with
  | .and | .or | .list => each.all id
  | .struct => inner.all fun entry => entry[1]?.getD false
  | .exists | .existsOne | .all | .filter | .map =>
      let bodyIndex := (operands[1]?.bind fun lambda =>
        (lambdaComponents lambda).toOption.map (·.bodyIndex)).getD 0
      first && ((inner.getD 1 [])[bodyIndex]?.getD false)
  | .getField => first && 1 < operands.length
  | .if => first && second && third
  | .hierarchy => first && each[1]?.getD true
  | .duration => first && isSafeDuration operands
  | .not | .size | .string | .double | .int | .upperAscii | .timeSince | .timestamp => first
  | .lambda | .setField | .nin | .other _ => false
  | _ => first && second

/-- Whether every node the evaluator reaches has its operands, no lambda stands
where a value is evaluated, and no duration has an inherited unit. -/
def isAnswerable : Operand → Bool :=
  Operand.fold (fun _ => true) (fun _ => true) hasEvaluatedOperands

end Answerable

/-- An evaluation that throws nothing but the documented failure. -/
abbrev Safe (result : Result) : Prop :=
  result.OnlyThrows isIndeterminateZeroDivisor

section Loops

variable {results : List Result}

theorem safe_junctionLoop {decisive sawError : Bool}
    (h : ∀ result ∈ results, Safe result) : Safe (junctionLoop decisive sawError results) := by
  induction results generalizing sawError with
  | nil => exact Except.onlyThrows_ok _
  | cons result results ih =>
      obtain ⟨hhead, htail⟩ := List.forall_mem_cons.mp h
      refine hhead.bind fun outcome _ => ?_
      cases outcome.asBoolean <;> cases decisive <;> first
        | exact ih htail
        | exact Except.onlyThrows_ok _

theorem safe_quantifierLoop {quantifier : Quantifier} {trueCount : Nat} {sawError : Bool}
    (h : ∀ result ∈ results, Safe result) :
    Safe (quantifierLoop quantifier trueCount sawError results) := by
  induction results generalizing trueCount sawError with
  | nil => exact Except.onlyThrows_ok _
  | cons result results ih =>
      obtain ⟨hhead, htail⟩ := List.forall_mem_cons.mp h
      refine hhead.bind fun outcome _ => ?_
      cases outcome.asBoolean with
      | yes => dsimp only; split <;> [exact Except.onlyThrows_ok _; exact ih htail]
      | no => dsimp only; split <;> [exact Except.onlyThrows_ok _; exact ih htail]
      | unknown => exact ih htail

theorem safe_filterLoop {body : List Value → Result} {filtered items : List Value}
    (h : ∀ item, Safe (body [item])) : Safe (filterLoop body filtered items) := by
  induction items generalizing filtered with
  | nil => exact Except.onlyThrows_ok _
  | cons item items ih =>
      refine (h item).bind fun outcome _ => ?_
      cases outcome.asBoolean with
      | unknown => exact Except.onlyThrows_ok _
      | yes | no => exact ih

theorem safe_collectLoop {collected : List Value}
    (h : ∀ result ∈ results, Safe result) : Safe (collectLoop collected results) := by
  induction results generalizing collected with
  | nil => exact Except.onlyThrows_ok _
  | cons result results ih =>
      obtain ⟨hhead, htail⟩ := List.forall_mem_cons.mp h
      refine hhead.bind fun outcome _ => ?_
      cases outcome with
      | error => exact Except.onlyThrows_ok _
      | value v => exact ih htail

/-- Each entry of a map literal has its key, and a value whose evaluation is safe. -/
theorem safe_structLoop {scope : Scope} {entries : List (String × Value)}
    {rest : List (Operand × List Evaluator)}
    (h : ∀ entry ∈ rest, (entryKey entry.1).isSome = true ∧
      ∃ evaluator, entry.2[1]? = some evaluator ∧ Safe (evaluator scope)) :
    Safe (structLoop scope entries rest) := by
  induction rest generalizing entries with
  | nil => exact Except.onlyThrows_ok _
  | cons entry rest ih =>
      obtain ⟨⟨hkey, evaluator, hevaluator, hsafe⟩, htail⟩ := List.forall_mem_cons.mp h
      obtain ⟨key, hkey⟩ := Option.isSome_iff_exists.mp hkey
      simp only [structLoop, hkey, hevaluator]
      refine hsafe.bind fun outcome _ => ?_
      cases outcome with
      | error => exact Except.onlyThrows_ok _
      | value v =>
          dsimp only
          split <;> [exact Except.onlyThrows_ok _; exact ih htail]

end Loops

theorem isStructEntry_eq_true {operand : Operand} (h : isStructEntry operand = true) :
    ∃ key v, operand = .expression .setField [.value (.string key), v] := by
  unfold isStructEntry at h
  split at h
  · exact ⟨_, _, rfl⟩
  · cases h

/-! ### One operator at a time -/

/-- The operand at an index is there, and its evaluation is safe. -/
def Call.provides (call : Call) (index : Nat) : Prop :=
  ∃ evaluator, call.evaluators[index]? = some evaluator ∧ Safe (evaluator call.scope)

/-- The call's macro has a lambda whose body is safe for every item. -/
def Call.providesLambda (call : Call) : Prop :=
  ∃ lambda, lambdaOf call = .ok lambda ∧ ∀ values, Safe (lambda.body values)

section Operators

variable {call : Call}

theorem Call.provides.safe_arg {index : Nat} (h : call.provides index) (role : String) :
    Safe (call.arg index role) := by
  obtain ⟨evaluator, hevaluator, hsafe⟩ := h
  rw [Call.arg, hevaluator]
  exact hsafe

theorem safe_operandAt {index : Nat} {role : String} (h : index < call.operands.length) :
    (call.operandAt index role).OnlyThrows isIndeterminateZeroDivisor := by
  rw [Call.operandAt, List.getElem?_eq_getElem h]
  exact Except.onlyThrows_ok _

/-- Two operands, then a computation that is safe whatever they are. -/
theorem safe_binary {left right : String} {combine : Outcome → Outcome → Result}
    (h0 : call.provides 0) (h1 : call.provides 1) (h : ∀ a b, Safe (combine a b)) :
    Safe (do let a ← call.arg 0 left; let b ← call.arg 1 right; combine a b) :=
  (h0.safe_arg _).bind fun a _ => (h1.safe_arg _).bind fun b _ => h a b

theorem safe_quantifier {q : Quantifier} (h0 : call.provides 0) (hlambda : call.providesLambda) :
    Safe (quantifier q call) := by
  obtain ⟨lambda, hlambda, hbody⟩ := hlambda
  rw [quantifier, hlambda]
  refine (h0.safe_arg _).bind fun target _ => ?_
  dsimp only
  split
  · exact Except.onlyThrows_ok _
  · refine safe_quantifierLoop fun result hresult => ?_
    obtain ⟨item, -, rfl⟩ := List.mem_map.mp hresult
    exact hbody item

theorem safe_evaluateFilter (h0 : call.provides 0) (hlambda : call.providesLambda) :
    Safe (evaluateFilter call) := by
  obtain ⟨lambda, hlambda, hbody⟩ := hlambda
  refine (h0.safe_arg _).bind fun target _ => ?_
  split
  · exact Except.onlyThrows_ok _
  · rw [hlambda]
    exact safe_filterLoop fun item => hbody [item]

theorem safe_evaluateMap (h0 : call.provides 0) (hlambda : call.providesLambda) :
    Safe (evaluateMap call) := by
  obtain ⟨lambda, hlambda, hbody⟩ := hlambda
  refine (h0.safe_arg _).bind fun target _ => ?_
  split
  · exact Except.onlyThrows_ok _
  · rw [hlambda]
    refine safe_collectLoop fun result hresult => ?_
    obtain ⟨item, -, rfl⟩ := List.mem_map.mp hresult
    exact hbody [item]

theorem safe_evaluateHierarchy (h0 : call.provides 0)
    (h1 : ∀ evaluator, call.evaluators[1]? = some evaluator → Safe (evaluator call.scope)) :
    Safe (evaluateHierarchy call) := by
  refine (h0.safe_arg _).bind fun v _ => ?_
  cases hevaluator : call.evaluators[1]? with
  | none =>
      dsimp only
      split <;> try exact Except.onlyThrows_ok _
      split <;> exact Except.onlyThrows_ok _
  | some evaluator =>
      refine (h1 evaluator hevaluator).bind fun delimiter _ => ?_
      split <;> exact Except.onlyThrows_ok _

variable [Double.Rounding]

/-- The one throw of double arithmetic is the documented one. -/
theorem safe_looseArithmetic {operator : ArithmeticOperator} {left right : Value} :
    Safe (looseArithmetic operator call left right) := by
  unfold looseArithmetic
  split <;> try exact Except.onlyThrows_ok _
  · split
    · exact Except.onlyThrows_error.mpr rfl
    · exact Except.onlyThrows_ok _
  · split <;> exact Except.onlyThrows_ok _

theorem safe_arithmetic {operator : ArithmeticOperator} (h0 : call.provides 0)
    (h1 : call.provides 1) : Safe (arithmetic operator call) := by
  unfold arithmetic
  split
  · refine safe_binary h0 h1 fun a b => ?_
    split <;> exact Except.onlyThrows_ok _
  · refine safe_binary h0 h1 fun a b => ?_
    split
    · exact Except.onlyThrows_ok _
    · exact safe_looseArithmetic
    · exact Except.onlyThrows_ok _

theorem safe_evaluateDuration (h0 : call.provides 0)
    (hsafe : ∀ outcome, call.arg 0 "operand" = .ok outcome → Safe (convertToDuration outcome)) :
    Safe (evaluateDuration call) :=
  (h0.safe_arg _).bind hsafe

end Operators

/-! ### The tree -/

section Tree

variable [Double.Rounding]

variable {scope : Scope}

theorem validateStructures_eq_ok_iff {operands : List Operand} {operator : PlanOperator} :
    validateStructures operands operator = .ok () ↔
      ∀ operand ∈ operands, validateStructure operand (some operator) = .ok () := by
  induction operands with
  | nil => simp [validateStructures]
  | cons operand operands ih =>
      rw [validateStructures, Except.bind_unit_eq_ok_iff, ih, List.forall_mem_cons]

theorem validateStructure_expression {operator : PlanOperator} {operands : List Operand}
    {parentOperator : Option PlanOperator}
    (h : validateStructure (.expression operator operands) parentOperator = .ok ()) :
    validateOperator operator operands = .ok () ∧
      ∀ operand ∈ operands, validateStructure operand (some operator) = .ok () := by
  rw [validateStructure] at h
  obtain ⟨-, h⟩ := Except.bind_unit_eq_ok_iff.mp h
  obtain ⟨-, h⟩ := Except.bind_unit_eq_ok_iff.mp h
  obtain ⟨hoperator, h⟩ := Except.bind_unit_eq_ok_iff.mp h
  exact ⟨hoperator, validateStructures_eq_ok_iff.mp h⟩

theorem isAnswerable_expression (operator : PlanOperator) (operands : List Operand) :
    isAnswerable (.expression operator operands) =
      hasEvaluatedOperands operator operands (operands.map isAnswerable)
        (operands.map fun operand => operand.operands.map isAnswerable) :=
  Operand.fold_expression _ _ _ _ _

/-- An index that tells an answerable operand provides it. -/
theorem provides_of_isAnswerable {operator : PlanOperator} {operands : List Operand}
    {index : Nat} (hsafe : ∀ operand ∈ operands, isAnswerable operand = true →
      Safe (evaluate operand scope))
    (h : (operands.map isAnswerable)[index]?.getD false = true) :
    (callOf operator operands scope).provides index := by
  rw [List.getElem?_map] at h
  cases hoperand : operands[index]? with
  | none => simp [hoperand] at h
  | some operand =>
      rw [hoperand] at h
      refine ⟨evaluate operand, ?_, hsafe operand (List.mem_of_getElem? hoperand) h⟩
      simp [callOf, hoperand]

/-- A macro whose lambda is validated and has an answerable body provides it. -/
theorem providesLambda_of_isAnswerable {operator : PlanOperator} {operands : List Operand}
    {maxVariables : Nat}
    (hsafe : ∀ operand ∈ operands, ∀ inner ∈ operand.operands, isAnswerable inner = true →
      ∀ scope, Safe (evaluate inner scope))
    (hvalid : validateMacro maxVariables operator operands = .ok ())
    (h : (((operands.map fun operand => operand.operands.map isAnswerable).getD 1 [])[
      (operands[1]?.bind fun lambda =>
        (lambdaComponents lambda).toOption.map (·.bodyIndex)).getD 0]?).getD false = true) :
    (callOf operator operands scope).providesLambda := by
  unfold validateMacro at hvalid
  cases hlambda : operands[1]? with
  | none => simp [hlambda] at hvalid
  | some lambda =>
      simp only [hlambda, Except.bind_eq_ok_iff] at hvalid
      obtain ⟨components, hcomponents, -⟩ := hvalid
      have hinner : ∀ {α : Type} (f : Operand → α),
          (operands.map fun operand => operand.operands.map f).getD 1 [] =
            lambda.operands.map f := by
        intro α f
        rw [List.getD_eq_getElem?_getD, List.getElem?_map, hlambda]
        rfl
      rw [hinner, hlambda] at h
      simp only [Option.bind_some, hcomponents, Except.toOption, Option.map_some, Option.getD_some,
        List.getElem?_map] at h
      cases hbody : lambda.operands[components.bodyIndex]? with
      | none => simp [hbody] at h
      | some body =>
          rw [hbody] at h
          have hsafeBody : ∀ scope, Safe (evaluate body scope) :=
            hsafe lambda (List.mem_of_getElem? hlambda) body (List.mem_of_getElem? hbody) h
          exact ⟨_, lambdaOf_callOf hlambda hcomponents hbody, fun values => hsafeBody _⟩

/-- A duration literal with no inherited unit is parsed without a throw. -/
theorem safe_convertToDuration {operands : List Operand} {outcome : Outcome}
    (h : isSafeDuration operands = true)
    (houtcome : (callOf .duration operands scope).arg 0 "operand" = .ok outcome) :
    Safe (convertToDuration outcome) := by
  have hliteral : ∃ literal rest, operands = .value literal :: rest := by
    unfold isSafeDuration at h
    split at h
    · exact ⟨_, _, rfl⟩
    · exact ⟨_, _, rfl⟩
    · cases h
  obtain ⟨literal, rest, rfl⟩ := hliteral
  obtain rfl := Except.ok.inj houtcome
  cases literal with
  | string text =>
      have htext : parseDuration durationUnit text ≠ .typeError := by simpa [isSafeDuration] using h
      simp only [Value.ofJson, convertToDuration]
      split
      · exact Except.onlyThrows_ok _
      · exact Except.onlyThrows_ok _
      · contradiction
  | _ => exact Except.onlyThrows_ok _

/-- An answerable tree that passed validation answers every document in every
scope, or throws the documented failure. -/
theorem safe_evaluate {expression : Operand} {parentOperator : Option PlanOperator}
    (hvalid : validateStructure expression parentOperator = .ok ())
    (hanswerable : isAnswerable expression = true) (scope : Scope) :
    Safe (evaluate expression scope) := by
  induction expression using Operand.inductionTwo generalizing parentOperator scope with
  | value literal => exact Except.onlyThrows_ok _
  | var name => exact Except.onlyThrows_ok _
  | expression operator operands ih ihInner =>
      obtain ⟨hoperator, hoperands⟩ := validateStructure_expression hvalid
      have hsafe : ∀ operand ∈ operands, isAnswerable operand = true →
          Safe (evaluate operand scope) := fun operand hmem hanswerable =>
        ih operand hmem (hoperands operand hmem) hanswerable scope
      have hsafeInner : ∀ operand ∈ operands, ∀ inner ∈ operand.operands,
          isAnswerable inner = true → ∀ scope, Safe (evaluate inner scope) := by
        intro operand hmem inner hinner hanswerable scope
        cases operand with
        | value literal => cases hinner
        | var name => cases hinner
        | expression operator' operands' =>
            exact ihInner _ hmem inner hinner
              ((validateStructure_expression (hoperands _ hmem)).2 inner hinner) hanswerable scope
      have hall : (operands.map isAnswerable).all id = true →
          ∀ result ∈ (callOf operator operands scope).evaluators.map (· scope), Safe result := by
        intro hall result hresult
        simp only [callOf, List.map_map, List.mem_map] at hresult
        obtain ⟨operand, hmem, rfl⟩ := hresult
        exact hsafe operand hmem (List.all_eq_true.mp hall _ (List.mem_map_of_mem hmem))
      rw [isAnswerable_expression] at hanswerable
      rw [evaluate_expression]
      cases operator with
      | and | or => exact safe_junctionLoop (hall hanswerable)
      | list => exact safe_collectLoop (hall hanswerable)
      | not | size | string | double | int | upperAscii | timestamp =>
          exact ((provides_of_isAnswerable hsafe hanswerable).safe_arg _).bind fun _ _ =>
            Except.onlyThrows_ok _
      | eq | ne | lt | le | gt | ge | «in» | contains | startsWith | endsWith | «matches» | except
        | intersect | isSubset | hasIntersection | index | ancestorOf | descendentOf | overlaps =>
          obtain ⟨h0, h1⟩ := Bool.and_eq_true_iff.mp hanswerable
          refine safe_binary (provides_of_isAnswerable hsafe h0)
            (provides_of_isAnswerable hsafe h1) fun a b => ?_
          first
            | exact Except.onlyThrows_ok _
            | (split <;> first
                | exact Except.onlyThrows_ok _
                | (split <;> exact Except.onlyThrows_ok _))
      | add | sub | mult | div | mod =>
          obtain ⟨h0, h1⟩ := Bool.and_eq_true_iff.mp hanswerable
          exact safe_arithmetic (provides_of_isAnswerable hsafe h0)
            (provides_of_isAnswerable hsafe h1)
      | «exists» | existsOne | all =>
          obtain ⟨h0, hbody⟩ := Bool.and_eq_true_iff.mp hanswerable
          exact safe_quantifier (provides_of_isAnswerable hsafe h0)
            (providesLambda_of_isAnswerable hsafeInner hoperator hbody)
      | filter =>
          obtain ⟨h0, hbody⟩ := Bool.and_eq_true_iff.mp hanswerable
          exact safe_evaluateFilter (provides_of_isAnswerable hsafe h0)
            (providesLambda_of_isAnswerable hsafeInner hoperator hbody)
      | map =>
          obtain ⟨h0, hbody⟩ := Bool.and_eq_true_iff.mp hanswerable
          exact safe_evaluateMap (provides_of_isAnswerable hsafe h0)
            (providesLambda_of_isAnswerable hsafeInner hoperator hbody)
      | struct =>
          refine safe_structLoop fun entry hentry => ?_
          simp only [callOf, ← List.map_prod_left_eq_zip, List.mem_map] at hentry
          obtain ⟨operand, hmem, rfl⟩ := hentry
          have hentries : operands.all isStructEntry = true := by
            simpa [validateOperator, validateStruct] using hoperator
          have hanswer := List.all_eq_true.mp hanswerable _ (List.mem_map_of_mem hmem)
          obtain ⟨key, v, rfl⟩ := isStructEntry_eq_true (List.all_eq_true.mp hentries operand hmem)
          refine ⟨rfl, evaluate v, rfl, hsafeInner _ hmem v (by simp [Operand.operands]) ?_ scope⟩
          simpa [Operand.operands] using hanswer
      | getField =>
          obtain ⟨h0, hlength⟩ := Bool.and_eq_true_iff.mp hanswerable
          refine ((provides_of_isAnswerable hsafe h0).safe_arg _).bind fun target _ => ?_
          refine (safe_operandAt (by simpa [callOf] using hlength)).bind fun operand _ => ?_
          split <;> first
            | exact Except.onlyThrows_ok _
            | (split <;> exact Except.onlyThrows_ok _)
      | «if» =>
          obtain ⟨h01, h2⟩ := Bool.and_eq_true_iff.mp hanswerable
          obtain ⟨h0, h1⟩ := Bool.and_eq_true_iff.mp h01
          refine ((provides_of_isAnswerable hsafe h0).safe_arg _).bind fun condition _ => ?_
          cases condition.asBoolean with
          | unknown => exact Except.onlyThrows_ok _
          | yes => exact (provides_of_isAnswerable hsafe h1).safe_arg _
          | no => exact (provides_of_isAnswerable hsafe h2).safe_arg _
      | hierarchy =>
          obtain ⟨h0, h1⟩ := Bool.and_eq_true_iff.mp hanswerable
          refine safe_evaluateHierarchy (provides_of_isAnswerable hsafe h0) fun evaluator h => ?_
          simp only [callOf, List.getElem?_map, Option.map_eq_some_iff] at h
          obtain ⟨operand, hoperand, rfl⟩ := h
          rw [List.getElem?_map, hoperand] at h1
          exact hsafe operand (List.mem_of_getElem? hoperand) h1
      | duration =>
          obtain ⟨h0, hduration⟩ := Bool.and_eq_true_iff.mp hanswerable
          refine safe_evaluateDuration (provides_of_isAnswerable hsafe h0) fun outcome houtcome => ?_
          exact safe_convertToDuration hduration houtcome
      | timeSince =>
          have h0 : (callOf .timeSince operands scope).provides 0 :=
            provides_of_isAnswerable hsafe hanswerable
          obtain ⟨evaluator, hevaluator, -⟩ := id h0
          have hlength : 0 < operands.length := by
            simpa [callOf] using (List.getElem?_eq_some_iff.mp hevaluator).1
          refine (safe_operandAt hlength).bind fun operand _ => ?_
          refine (h0.safe_arg _).bind fun v _ => ?_
          split <;> exact Except.onlyThrows_ok _
      | setField | lambda | nin => cases hanswerable
      | other spelling => cases hanswerable

theorem safe_evaluate_and {operands : List Operand}
    (h : ∀ operand ∈ operands, Safe (evaluate operand scope)) :
    Safe (evaluate (.expression .and operands) scope) := by
  rw [evaluate_expression]
  refine safe_junctionLoop fun result hresult => ?_
  simp only [callOf, List.map_map, List.mem_map] at hresult
  obtain ⟨operand, hmem, rfl⟩ := hresult
  exact h operand hmem

/-- A conjunction whose operands are each safe is safe. -/
theorem safe_evaluate_conjunction {operands : List Operand}
    (h : ∀ operand ∈ operands, Safe (evaluate operand scope)) :
    Safe (evaluate (conjunction operands) scope) := by
  match operands with
  | [] => exact safe_evaluate_and h
  | [operand] => exact h operand List.mem_cons_self
  | first :: second :: rest => exact safe_evaluate_and h

/-! ### The plan -/

theorem validateStructure_conjuncts {condition : Operand}
    (h : validateStructure condition none = .ok ()) :
    ∀ conjunct ∈ conjuncts condition, ∃ parentOperator,
      validateStructure conjunct parentOperator = .ok () := by
  unfold conjuncts
  split
  · exact fun conjunct hmem => ⟨_, (validateStructure_expression h).2 conjunct hmem⟩
  · intro conjunct hmem
    obtain rfl := List.mem_singleton.mp hmem
    exact ⟨_, h⟩

end Tree

/-! ## A comparison without its right operand -/

def halfComparison : Operand :=
  .expression .eq [.var "R.status"]

end QueryPlanAdapters.Convex
