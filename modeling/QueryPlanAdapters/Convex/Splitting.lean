import QueryPlanAdapters.Convex.Engine
import QueryPlanAdapters.Convex.Translate

/-!
# Convex: splitting a condition loses nothing

A root `and` may be answered half by the database and half by the post-filter.
A document passes both halves exactly when the evaluator finds the whole
condition true, as long as the database agrees with the evaluator on each
conjunct it is given. An erroneous conjunct makes the conjunction other than
true on whichever side of the split it stands, so no assumption on errors or on
throws is needed.
-/

namespace QueryPlanAdapters.Convex

/-- A document as the database stores it and as the evaluator reads it. -/
structure Document where
  stored : StoredValue
  read : Value

/-- CEL true. -/
def okTrue : Result :=
  .ok (.value (.bool true))

/-! ## A conjunction is true exactly when every conjunct is -/

theorem junctionLoop_and_eq_okTrue_iff {sawError : Bool} {results : List Result} :
    junctionLoop false sawError results = okTrue ↔
      sawError = false ∧ ∀ result ∈ results, result = okTrue := by
  induction results generalizing sawError with
  | nil => cases sawError <;> simp [junctionLoop, okTrue]
  | cons result results ih =>
      cases result with
      | error thrown => simp [junctionLoop, okTrue, bind, Except.bind]
      | ok outcome =>
          have hstep : (Except.ok outcome : Result) = okTrue ↔ outcome.asBoolean = .yes := by
            rw [okTrue, Except.ok.injEq, Outcome.asBoolean_eq_yes_iff]
          simp only [junctionLoop, bind, Except.bind, List.forall_mem_cons, hstep]
          cases outcome.asBoolean with
          | yes => simpa using ih
          | no => simp [okTrue]
          | unknown => simp [ih]

/-! ## Conjuncts -/

/-- The conjuncts of a condition: a root `and`'s operands, or the condition itself. -/
def conjuncts : Operand → List Operand
  | .expression .and operands => operands
  | condition => [condition]

/-- A condition is pushable exactly when each of its conjuncts is. -/
theorem canPushToDb_iff_conjuncts {mapper : Mapper} {condition : Operand} :
    canPushToDb mapper condition = true ↔
      ∀ conjunct ∈ conjuncts condition, canPushToDb mapper conjunct = true := by
  unfold conjuncts
  split
  · simp [canPushToDb, ruleFor]
  · simp

/-- The three ways a condition is routed. A condition is kept from the database
as a whole only when none of its conjuncts is pushable. -/
theorem buildFilters_cases [Double.Rounding] {ε : Type} (condition : Operand) (mapper : Mapper)
    (nullIsMissing : Bool) :
    (canPushToDb mapper condition = true ∧
        @buildFilters _ ε condition mapper nullIsMissing = .db (convexFilter condition mapper)) ∨
      (∃ operands, condition = .expression .and operands ∧
        @buildFilters _ ε condition mapper nullIsMissing =
          .split (convexFilter (conjunction (operands.filter (canPushToDb mapper))) mapper)
            (postFilterFor (conjunction (operands.filter (!canPushToDb mapper ·))) mapper
              nullIsMissing)) ∨
      (∀ conjunct ∈ conjuncts condition, canPushToDb mapper conjunct = false) ∧
        @buildFilters _ ε condition mapper nullIsMissing =
          .post (postFilterFor condition mapper nullIsMissing) := by
  cases hpush : canPushToDb mapper condition with
  | true => exact .inl ⟨rfl, by rw [buildFilters, if_pos hpush]⟩
  | false =>
      right
      have hsome : ¬∀ conjunct ∈ conjuncts condition, canPushToDb mapper conjunct = true := by
        rw [← canPushToDb_iff_conjuncts, hpush]
        exact Bool.false_ne_true
      have hbuild : @buildFilters _ ε condition mapper nullIsMissing = _ :=
        if_neg (by simp [hpush])
      rw [hbuild]
      by_cases hand : ∃ operands, condition = .expression .and operands
      · obtain ⟨operands, rfl⟩ := hand
        by_cases hparts : 0 < (operands.filter (canPushToDb mapper)).length
        · -- Some conjunct is pushable and some is not, so there are at least two.
          left
          have hkept : 0 < (operands.filter (!canPushToDb mapper ·)).length := by
            simpa [List.length_pos_iff, List.filter_eq_nil_iff, conjuncts] using hsome
          have hlength : 1 < operands.length :=
            (Nat.add_le_add hparts hkept).trans_eq (List.length_eq_length_filter_add _).symm
          exact ⟨operands, rfl, by simp [hparts, hkept, hlength]⟩
        · right
          refine ⟨?_, by simp [hparts]⟩
          simpa [List.length_pos_iff, List.filter_eq_nil_iff, conjuncts] using hparts
      · right
        have hsingle : conjuncts condition = [condition] := by
          unfold conjuncts
          split
          · exact absurd ⟨_, rfl⟩ hand
          · rfl
        refine ⟨by simp [hsingle, hpush], ?_⟩
        dsimp only
        split
        · exact absurd ⟨_, rfl⟩ hand
        · rfl

/-- Partitioned conjuncts are all true exactly when both parts are. -/
theorem forall_partition_iff {operands : List Operand} {pushed : Operand → Bool}
    {P : Operand → Prop} :
    ((∀ o ∈ operands.filter pushed, P o) ∧ ∀ o ∈ operands.filter (!pushed ·), P o) ↔
      ∀ o ∈ operands, P o := by
  constructor
  · rintro ⟨hpushed, hkept⟩ o ho
    cases h : pushed o with
    | true => exact hpushed o (List.mem_filter.mpr ⟨ho, h⟩)
    | false => exact hkept o (List.mem_filter.mpr ⟨ho, by simp [h]⟩)
  · intro h
    exact ⟨fun o ho => h o (List.mem_of_mem_filter ho), fun o ho => h o (List.mem_of_mem_filter ho)⟩

section

variable [Double.Rounding]

theorem evaluate_and_eq_okTrue_iff {operands : List Operand} {scope : Scope} :
    evaluate (.expression .and operands) scope = okTrue ↔
      ∀ operand ∈ operands, evaluate operand scope = okTrue := by
  rw [evaluate_expression]
  simp [evaluateOperator, junction, callOf, junctionLoop_and_eq_okTrue_iff]

theorem evaluate_conjunction_eq_okTrue_iff {operands : List Operand} {scope : Scope} :
    evaluate (conjunction operands) scope = okTrue ↔
      ∀ operand ∈ operands, evaluate operand scope = okTrue := by
  match operands with
  | [] => exact evaluate_and_eq_okTrue_iff
  | [operand] => simp [conjunction]
  | first :: second :: rest => exact evaluate_and_eq_okTrue_iff

/-! ## Passing a result -/

/-- The document passes a filter: it is built, and holds. -/
def passesFilter (inner : StoredValue → StoredValue → Bool) (doc : Document)
    (filter : ConvexFilter StoredValue) : Prop :=
  ∃ built, filter (engine inner doc.stored) = .ok built ∧ built.holds = true

/-- The document passes a result's filter and its post-filter, where it has them. -/
def passes (inner : StoredValue → StoredValue → Bool) (now : Int) (doc : Document)
    (result : ConditionalResult StoredValue) : Prop :=
  (∀ filter ∈ result.filter, passesFilter inner doc filter) ∧
    ∀ postFilter ∈ result.postFilter, postFilter now doc.read = .ok true

/-- On the document, the filter of an expression is built and holds exactly when
the evaluator finds the expression true. -/
def pushdownAgrees (inner : StoredValue → StoredValue → Bool) (mapper : Mapper) (scope : Scope)
    (doc : Document) (expression : Operand) : Prop :=
  ∃ built, translateExpression (engine inner doc.stored) mapper expression = .ok built ∧
    (built.holds = true ↔ evaluate expression scope = okTrue)

variable {inner : StoredValue → StoredValue → Bool} {mapper : Mapper} {scope : Scope}
  {doc : Document}

theorem pushdownAgrees.passesFilter_iff {expression : Operand}
    (h : pushdownAgrees inner mapper scope doc expression) :
    passesFilter inner doc (convexFilter expression mapper) ↔
      evaluate expression scope = okTrue := by
  obtain ⟨built, hbuilt, hagree⟩ := h
  constructor
  · rintro ⟨built', hbuilt', hholds⟩
    obtain rfl := Except.ok.inj (hbuilt.symm.trans hbuilt')
    exact hagree.mp hholds
  · intro htrue
    exact ⟨built, hbuilt, hagree.mpr htrue⟩

/-- The filter of an `and` agrees as soon as the filter of each operand does. -/
theorem pushdownAgrees_and {operands : List Operand}
    (h : ∀ operand ∈ operands, pushdownAgrees inner mapper scope doc operand) :
    pushdownAgrees inner mapper scope doc (.expression .and operands) := by
  have hemitted : ∃ emitted, emitEach (engine inner doc.stored) mapper operands false = .ok emitted ∧
      (emitted.all (·.holds) = true ↔ ∀ operand ∈ operands, evaluate operand scope = okTrue) := by
    induction operands with
    | nil => exact ⟨[], rfl, by simp⟩
    | cons operand operands ih =>
        obtain ⟨emitted, hemitted, hall⟩ := ih fun o ho => h o (List.mem_cons_of_mem _ ho)
        obtain ⟨built, hbuilt, hagree⟩ := h operand List.mem_cons_self
        refine ⟨built :: emitted, ?_, ?_⟩
        · rw [translateExpression] at hbuilt
          simp [emitEach, hbuilt, hemitted, bind, Except.bind, pure, Except.pure]
        · simp only [List.all_cons, Bool.and_eq_true, hagree, hall, List.forall_mem_cons]
  obtain ⟨emitted, hemitted, hall⟩ := hemitted
  refine ⟨emitJunction (engine inner doc.stored) false emitted, ?_, ?_⟩
  · simp [translateExpression, emitExpression, ruleFor, hemitted, bind, Except.bind, pure,
      Except.pure]
  · rw [evaluate_and_eq_okTrue_iff, ← hall]
    simp

theorem pushdownAgrees_conjunction {operands : List Operand}
    (h : ∀ operand ∈ operands, pushdownAgrees inner mapper scope doc operand) :
    pushdownAgrees inner mapper scope doc (conjunction operands) := by
  match operands with
  | [] => exact pushdownAgrees_and h
  | [operand] => exact h operand List.mem_cons_self
  | first :: second :: rest => exact pushdownAgrees_and h

theorem postFilterFor_eq_ok_true_iff {expression : Operand} {nullIsMissing : Bool} {now : Int}
    {read : Value} :
    postFilterFor expression mapper nullIsMissing now read = .ok true ↔
      evaluate expression (postFilterScope mapper nullIsMissing now read) = okTrue := by
  rw [postFilterFor, Except.map_eq_ok_iff]
  constructor
  · rintro ⟨outcome, houtcome, htrue⟩
    rw [houtcome, okTrue]
    unfold isTrue at htrue
    split at htrue <;> simp_all
  · intro h
    exact ⟨_, h, rfl⟩

/-! ## The split -/

theorem passes_buildFilters_iff {nullIsMissing : Bool} {now : Int} {condition : Operand}
    (hagree : ∀ conjunct ∈ conjuncts condition, canPushToDb mapper conjunct = true →
      pushdownAgrees inner mapper (postFilterScope mapper nullIsMissing now doc.read) doc
        conjunct) :
    passes inner now doc (buildFilters condition mapper nullIsMissing) ↔
      evaluate condition (postFilterScope mapper nullIsMissing now doc.read) = okTrue := by
  rcases buildFilters_cases condition mapper nullIsMissing with
    ⟨hpush, hresult⟩ | ⟨operands, rfl, hresult⟩ | ⟨-, hresult⟩
  · -- db: the whole condition is pushed, so each of its conjuncts is.
    have hwhole : pushdownAgrees inner mapper
        (postFilterScope mapper nullIsMissing now doc.read) doc condition := by
      have hall : ∀ conjunct ∈ conjuncts condition, pushdownAgrees inner mapper
          (postFilterScope mapper nullIsMissing now doc.read) doc conjunct :=
        fun conjunct hmem => hagree conjunct hmem (canPushToDb_iff_conjuncts.mp hpush conjunct hmem)
      unfold conjuncts at hall
      split at hall
      · exact pushdownAgrees_and hall
      · exact hall condition List.mem_cons_self
    rw [hresult]
    simp [passes, ConditionalResult.filter, ConditionalResult.postFilter,
      hwhole.passesFilter_iff]
  · -- split: the parts carry complementary conjuncts.
    have hpushed : ∀ o ∈ operands.filter (canPushToDb mapper), pushdownAgrees inner mapper
        (postFilterScope mapper nullIsMissing now doc.read) doc o :=
      fun o ho => hagree o (List.mem_of_mem_filter ho) (List.mem_filter.mp ho).2
    rw [hresult]
    simp only [passes, ConditionalResult.filter, ConditionalResult.postFilter,
      Option.mem_some_iff, forall_eq', (pushdownAgrees_conjunction hpushed).passesFilter_iff,
      postFilterFor_eq_ok_true_iff, evaluate_conjunction_eq_okTrue_iff,
      evaluate_and_eq_okTrue_iff]
    exact forall_partition_iff
  · -- post: the evaluator decides alone.
    rw [hresult]
    simp [passes, ConditionalResult.filter, ConditionalResult.postFilter,
      postFilterFor_eq_ok_true_iff]

/-- The filter and the post-filter returned for a condition together pass exactly
the documents on which the evaluator finds the condition true. -/
theorem queryPlanToConvex_passes_iff {condition : Operand} {mapper : Mapper}
    {allowPostFilter : Bool} {representation : NullAttributeRepresentation}
    {result : ConditionalResult StoredValue}
    (hresult : queryPlanToConvex (.conditional condition) mapper allowPostFilter representation =
      .ok (.conditional result))
    (inner : StoredValue → StoredValue → Bool) (now : Int) (doc : Document)
    (hagree : ∀ conjunct ∈ conjuncts condition,
      canPushToDb (effectiveMapper mapper representation) conjunct = true →
      pushdownAgrees inner (effectiveMapper mapper representation)
        (postFilterScope (effectiveMapper mapper representation) (representation = .omitted) now
          doc.read) doc conjunct) :
    passes inner now doc result ↔
      evaluate condition (postFilterScope (effectiveMapper mapper representation)
        (representation = .omitted) now doc.read) = okTrue := by
  obtain ⟨-, -, -, -, rfl⟩ := queryPlanToConvex_conditional hresult
  exact passes_buildFilters_iff hagree

end

/-! ## A split plan -/

def splitCondition : Operand :=
  .expression .and
    [.expression .eq [.var "R.status", .value (.string "open")],
      .expression .contains [.var "R.title", .value (.string "x")]]

def splitDocument : Document where
  stored := .object [("R", .object [("status", .string "open"), ("title", .string "axe")])]
  read := .record [("R", .record [("status", .string "open"), ("title", .string "axe")])]

/-- The mapper that keeps every plan path. -/
def planPaths : Mapper := fun _ => some { field := none, nullable := none }

theorem queryPlanToConvex_passes_iff_split :
    passes (fun _ _ => false) 0 splitDocument (buildFilters splitCondition planPaths false) ↔
      evaluate splitCondition (postFilterScope planPaths false 0 splitDocument.read) = okTrue := by
  have hresult : queryPlanToConvex (.conditional splitCondition) planPaths true .explicit =
      .ok (.conditional (@buildFilters _ StoredValue splitCondition planPaths false)) := rfl
  refine queryPlanToConvex_passes_iff hresult (fun _ _ => false) 0 splitDocument ?_
  intro conjunct hmem hpush
  obtain rfl | rfl : conjunct = .expression .eq [.var "R.status", .value (.string "open")] ∨
      conjunct = .expression .contains [.var "R.title", .value (.string "x")] := by
    simpa [conjuncts, splitCondition] using hmem
  · exact ⟨_, rfl, iff_of_true (by decide) rfl⟩
  · exact absurd hpush (by decide)

end QueryPlanAdapters.Convex
