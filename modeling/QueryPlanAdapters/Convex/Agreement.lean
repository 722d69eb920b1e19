import QueryPlanAdapters.Convex.Splitting
import QueryPlanAdapters.Convex.StoredJson

/-!
# Convex: the database against the evaluator

The database compares values across types and knows two truth values; the
evaluator has CEL's type errors. On a document that holds every referenced path,
the filter emitted for a tree and the evaluation of the tree agree under both
polarities, except where a bare variable under an odd number of negations reads
a value that is no boolean: there the filter holds and CEL has an error.
-/

namespace QueryPlanAdapters.Convex

/-! ## Both readings of a tree -/

/-- The truth of a comparison of a read value with a literal, in the plan's order. -/
def comparisonTruth (operator : ComparisonOperator) (pair : FieldAndLiteral) (v : Json) : Truth :=
  let field := .value (.ofJson v)
  let literal := .value (.ofJson pair.literal)
  (if pair.swapped then compareValues operator literal field
    else compareValues operator field literal).asBoolean

def membershipTruth (values : List Json) (v : Json) : Truth :=
  .ofBool (listContains (values.map .ofJson) (.ofJson v))

section CreditedTruth

variable (credit : Bool) (read : String → Json)

mutual

/-- The truth of a pushable tree under a polarity, when every bare variable under
an odd number of negations that reads no boolean is credited as true, or as CEL's
error. -/
def creditedTruth : Operand → (negated : Bool) → Truth
  | .value literal, negated => (Outcome.value (.ofJson literal)).asBoolean.polarised negated
  | .var name, negated =>
      match read name with
      | .bool b => (Truth.ofBool b).polarised negated
      | _ => if negated && credit then .yes else .unknown
  | .expression operator operands, negated =>
      match ruleFor operator with
      | none => .unknown
      | some (.junction decisive) =>
          if decisive != negated then .any (creditedTruths operands negated)
          else .all (creditedTruths operands negated)
      | some .not => (creditedTruths operands (!negated)).headD .unknown
      | some (.equality comparison) | some (.ordering comparison) =>
          match fieldAndLiteral operands with
          | some pair => (comparisonTruth comparison pair (read pair.field)).polarised negated
          | none => .unknown
      | some .membership =>
          match fieldInList operands with
          | some (name, values) => (membershipTruth values (read name)).polarised negated
          | none => .unknown

def creditedTruths : List Operand → (negated : Bool) → List Truth
  | [], _ => []
  | operand :: operands, negated =>
      creditedTruth operand negated :: creditedTruths operands negated

end

@[simp] theorem creditedTruths_eq_map (operands : List Operand) (negated : Bool) :
    creditedTruths credit read operands negated =
      operands.map (creditedTruth credit read · negated) := by
  induction operands with
  | nil => rfl
  | cons operand operands ih => simp [creditedTruths, ih]

end CreditedTruth

/-! ## The evaluator's side -/

/-- The scope of a post-filter over a JSON document. -/
def jsonScope (mapper : Mapper) (nullIsMissing : Bool) (now : Int) (doc : Json) : Scope :=
  postFilterScope mapper nullIsMissing now (.ofJson doc)

/-- Every path the tree references is present in the document, with the values of
`read`; under the omitted convention a null is no presence. -/
def pathsPresent (mapper : Mapper) (nullIsMissing : Bool) (doc : Json) (read : String → Json)
    (expression : Operand) : Prop :=
  ∀ name ∈ expression.references,
    Json.getPath doc (resolveField name mapper) = some (read name) ∧
      (nullIsMissing = true → read name ≠ .null)

/-- No reference of the tree is rooted at a name every JavaScript object inherits. -/
def plainReferences (expression : Operand) : Prop :=
  ∀ name ∈ expression.references, referenceRoot name ∉ objectPrototypeMembers

instance (expression : Operand) : Decidable (plainReferences expression) :=
  inferInstanceAs (Decidable (∀ name ∈ expression.references, _))

section

variable {mapper : Mapper} {nullIsMissing : Bool} {now : Int} {doc : Json} {read : String → Json}

theorem lookUp_present {name : String} (hplain : referenceRoot name ∉ objectPrototypeMembers)
    (hpresent : Json.getPath doc (resolveField name mapper) = some (read name))
    (hnull : nullIsMissing = true → read name ≠ .null) :
    lookUp name (jsonScope mapper nullIsMissing now doc) = .value (.ofJson (read name)) := by
  rw [lookUp_document rfl hplain]
  simp only [jsonScope, postFilterScope, getNestedValue_ofJson, hpresent]
  cases hread : read name with
  | null =>
      have : nullIsMissing = false := by
        cases nullIsMissing with
        | false => rfl
        | true => exact absurd hread (hnull rfl)
      simp [readJson, readPath, Value.ofJson, this]
  | _ => rfl

/-- Both literals and references of a comparison are read, whichever comes first. -/
theorem fieldAndLiteral_cases {operands : List Operand} {pair : FieldAndLiteral}
    (h : fieldAndLiteral operands = some pair) :
    (∃ rest, operands = .var pair.field :: .value pair.literal :: rest ∧ pair.swapped = false) ∨
      ∃ rest, operands = .value pair.literal :: .var pair.field :: rest ∧ pair.swapped = true := by
  unfold fieldAndLiteral at h
  split at h
  · obtain rfl := Option.some.inj h
    exact .inl ⟨_, rfl, rfl⟩
  · obtain rfl := Option.some.inj h
    exact .inr ⟨_, rfl, rfl⟩
  · cases h

theorem field_mem_references {operator : PlanOperator} {operands : List Operand}
    {pair : FieldAndLiteral} (h : fieldAndLiteral operands = some pair) :
    pair.field ∈ (Operand.expression operator operands).references := by
  rcases fieldAndLiteral_cases h with ⟨rest, rfl, -⟩ | ⟨rest, rfl, -⟩ <;>
    simp [Operand.references]

theorem fieldInList_eq_some {operands : List Operand} {name : String} {values : List Json}
    (h : fieldInList operands = some (name, values)) :
    ∃ rest, operands = .var name :: .value (.array values) :: rest := by
  unfold fieldInList at h
  split at h
  · obtain ⟨rfl, rfl⟩ := Prod.mk.inj (Option.some.inj h)
    exact ⟨_, rfl⟩
  · cases h

end

/-- The verdicts of a junction's operands, run one after another without a throw. -/
theorem junctionLoop_ok (decisive sawError : Bool) (outcomes : List Outcome) :
    junctionLoop decisive sawError (outcomes.map .ok) =
      .ok (.ofTruth (if decisive
        then (if sawError then Truth.unknown else .no).or (.any (outcomes.map (·.asBoolean)))
        else (if sawError then Truth.unknown else .yes).and
          (.all (outcomes.map (·.asBoolean))))) := by
  induction outcomes generalizing sawError with
  | nil => cases decisive <;> cases sawError <;> rfl
  | cons outcome outcomes ih =>
      simp only [List.map_cons, junctionLoop, bind, Except.bind]
      cases outcome.asBoolean <;> cases decisive <;> cases sawError <;>
        simp [ih, Outcome.ofTruth]

section Evaluator

variable [Double.Rounding] {inner : StoredValue → StoredValue → Bool} {mapper : Mapper}
  {nullIsMissing : Bool} {now : Int} {doc : Json} {read : String → Json}

variable {scope : Scope}

/-- The operands of a junction, evaluated. -/
theorem evaluate_junction {decisive : Bool} {operator : PlanOperator} {operands : List Operand}
    {outcomes : List Outcome} (hrule : ruleFor operator = some (.junction decisive))
    (h : List.Forall₂ (fun operand outcome => evaluate operand scope = .ok outcome)
      operands outcomes) :
    evaluate (.expression operator operands) scope =
      .ok (.ofTruth (if decisive then .any (outcomes.map (·.asBoolean))
        else .all (outcomes.map (·.asBoolean)))) := by
  have hresults : operands.map (fun operand => evaluate operand scope) = outcomes.map .ok := by
    induction h with
    | nil => rfl
    | cons hhead _ ih => rw [List.map_cons, List.map_cons, hhead, ih]
  have hloop : evaluate (.expression operator operands) scope =
      junctionLoop decisive false (operands.map fun operand => evaluate operand scope) := by
    rw [evaluate_expression]
    cases operator <;> simp [ruleFor] at hrule <;> subst hrule <;>
      simp [evaluateOperator, junction, callOf, Function.comp_def]
  rw [hloop, hresults, junctionLoop_ok]
  cases decisive <;> rfl

/-- What a pushable operator evaluates as. -/
theorem evaluateOperator_of_rule {call : Call} {rule : PushdownRule}
    (hrule : ruleFor call.operator = some rule) :
    evaluateOperator call =
      match rule with
      | .junction decisive => junction decisive call
      | .not => evaluateNot call
      | .equality comparisonOperator | .ordering comparisonOperator =>
          comparison comparisonOperator call
      | .membership => evaluateIn call := by
  unfold ruleFor at hrule
  split at hrule <;> first
    | (obtain rfl := Option.some.inj hrule; simp only [evaluateOperator, *])
    | cases hrule

/-- A comparison of a present reference with a literal never throws. -/
theorem comparison_callOf {comparisonOperator : ComparisonOperator} {operator : PlanOperator}
    {operands : List Operand} {pair : FieldAndLiteral} {v : Json}
    (hpair : fieldAndLiteral operands = some pair)
    (hlookUp : lookUp pair.field scope = .value (.ofJson v)) :
    ∃ outcome, comparison comparisonOperator (callOf operator operands scope) = .ok outcome ∧
      outcome.asBoolean = comparisonTruth comparisonOperator pair v := by
  rcases fieldAndLiteral_cases hpair with ⟨rest, rfl, hswapped⟩ | ⟨rest, rfl, hswapped⟩ <;>
    exact ⟨_, by simp [comparison, Call.arg, callOf, hlookUp, bind, Except.bind, pure,
      Except.pure]; rfl, by simp [comparisonTruth, hswapped]⟩

/-- Operands that each evaluate to a credited truth, taken together. -/
theorem evaluate_each {operands : List Operand} {negated : Bool} {emitted : List StoredValue}
    {q : FilterQ StoredValue}
    (h : ∀ operand ∈ operands, ∀ built, emitExpression q mapper operand negated = .ok built →
      ∃ outcome, evaluate operand scope = .ok outcome ∧
        outcome.asBoolean.polarised negated = creditedTruth false read operand negated)
    (hemitted : List.Forall₂ (fun operand e => emitExpression q mapper operand negated = .ok e)
      operands emitted) :
    ∃ outcomes, List.Forall₂ (fun operand outcome => evaluate operand scope = .ok outcome)
        operands outcomes ∧
      outcomes.map (·.asBoolean.polarised negated) =
        operands.map (creditedTruth false read · negated) := by
  induction hemitted with
  | nil => exact ⟨[], .nil, rfl⟩
  | cons hbuilt _ ih =>
      obtain ⟨outcome, houtcome, htruth⟩ := h _ List.mem_cons_self _ hbuilt
      obtain ⟨outcomes, houtcomes, htruths⟩ :=
        ih fun operand hmem => h operand (List.mem_cons_of_mem _ hmem)
      exact ⟨outcome :: outcomes, .cons houtcome houtcomes, by simp [htruth, htruths]⟩

/-- On a document that holds every referenced path the evaluator's truth, under
either polarity, is the one that credits stray variables with an error. -/
theorem evaluate_eq_creditedTruth {expression : Operand} {negated : Bool} {built : StoredValue}
    {q : FilterQ StoredValue}
    (hpush : canPushToDb mapper expression = true)
    (hbuilt : emitExpression q mapper expression negated = .ok built)
    (hplain : plainReferences expression)
    (hpresent : pathsPresent mapper nullIsMissing doc read expression) :
    ∃ outcome, evaluate expression (jsonScope mapper nullIsMissing now doc) = .ok outcome ∧
      outcome.asBoolean.polarised negated = creditedTruth false read expression negated := by
  induction expression using Operand.induction generalizing negated built with
  | value literal => exact ⟨_, evaluate_value _ _, rfl⟩
  | var name =>
      obtain ⟨hpath, hnull⟩ := hpresent name (by simp [Operand.references])
      have hplain' := hplain name (by simp [Operand.references])
      refine ⟨_, evaluate_var _ _, ?_⟩
      rw [lookUp_present hplain' hpath hnull, creditedTruth]
      cases read name <;> simp [Value.ofJson, Outcome.asBoolean]
  | expression operator operands ih =>
      have hplain' : ∀ operand ∈ operands, plainReferences operand := fun operand hmem name hname =>
        hplain name (by simpa [Operand.references] using ⟨operand, hmem, hname⟩)
      have hpresent' : ∀ operand ∈ operands,
          pathsPresent mapper nullIsMissing doc read operand := fun operand hmem name hname =>
        hpresent name (by simpa [Operand.references] using ⟨operand, hmem, hname⟩)
      cases hrule : ruleFor operator with
      | none => simp [canPushToDb, hrule] at hpush
      | some rule =>
          cases rule with
          | junction decisive =>
              simp only [canPushToDb, hrule, allPushable_eq_all, List.all_eq_true] at hpush
              simp only [emitExpression, hrule, Except.bind_eq_ok_iff, emitEach_eq_ok_iff] at hbuilt
              obtain ⟨emitted, hemitted, -⟩ := hbuilt
              obtain ⟨outcomes, houtcomes, htruths⟩ := evaluate_each
                (fun operand hmem built hbuilt => ih operand hmem (hpush operand hmem) hbuilt
                  (hplain' operand hmem) (hpresent' operand hmem)) hemitted
              refine ⟨_, evaluate_junction hrule houtcomes, ?_⟩
              rw [Outcome.asBoolean_ofTruth]
              simp only [creditedTruth, hrule, creditedTruths_eq_map, ← htruths]
              cases decisive <;> cases negated <;>
                simp [Truth.not_any, Truth.not_all, Function.comp_def]
          | not =>
              simp only [canPushToDb, hrule, allPushable_eq_all, List.all_eq_true] at hpush
              simp only [emitExpression, hrule] at hbuilt
              cases operands with
              | nil => simp [emitFirst] at hbuilt
              | cons operand rest =>
                  have hmem : operand ∈ operand :: rest := List.mem_cons_self
                  obtain ⟨outcome, houtcome, htruth⟩ := ih operand hmem (hpush operand hmem) hbuilt
                    (hplain' operand hmem) (hpresent' operand hmem)
                  refine ⟨.ofTruth outcome.asBoolean.not, ?_, ?_⟩
                  · rw [evaluate_expression, evaluateOperator_of_rule (by exact hrule)]
                    simp [evaluateNot, Call.arg, callOf, houtcome, bind, Except.bind, pure,
                      Except.pure]
                  · rw [Outcome.asBoolean_ofTruth, Truth.polarised_not, htruth]
                    simp [creditedTruth, hrule]
          | equality comparisonOperator | ordering comparisonOperator =>
              simp only [canPushToDb, hrule, Option.any_eq_true] at hpush
              obtain ⟨pair, hpair, -⟩ := hpush
              have hfield := @field_mem_references operator _ _ hpair
              obtain ⟨hpath, hnull⟩ := hpresent _ hfield
              obtain ⟨outcome, houtcome, htruth⟩ := comparison_callOf hpair
                (lookUp_present (hplain _ hfield) hpath hnull)
              refine ⟨outcome, ?_, ?_⟩
              · rw [evaluate_expression, evaluateOperator_of_rule (by exact hrule)]
                exact houtcome
              · simp [creditedTruth, hrule, hpair, htruth]
          | membership =>
              simp only [canPushToDb, hrule, Option.any_eq_true] at hpush
              obtain ⟨⟨name, values⟩, hpair, -⟩ := hpush
              obtain ⟨rest, rfl⟩ := fieldInList_eq_some hpair
              have hfield : name ∈ (Operand.expression operator
                  (.var name :: .value (.array values) :: rest)).references := by
                simp [Operand.references]
              obtain ⟨hpath, hnull⟩ := hpresent _ hfield
              refine ⟨.value (.bool (listContains (values.map .ofJson) (.ofJson (read name)))), ?_, ?_⟩
              · rw [evaluate_expression, evaluateOperator_of_rule (by exact hrule)]
                simp [evaluateIn, Call.arg, callOf, lookUp_present (hplain _ hfield) hpath hnull,
                  bind, Except.bind, pure, Except.pure, Value.ofJson, macroItems,
                  Value.ofJsonList_eq_map]
              · simp [creditedTruth, hrule, hpair, membershipTruth, Outcome.asBoolean]

end Evaluator

/-! ## The database's side -/

section Engine

variable {inner : StoredValue → StoredValue → Bool} {mapper : Mapper} {nullIsMissing : Bool}
  {doc : Json} {read : String → Json}

variable {pair : FieldAndLiteral} {built : StoredValue} {negated : Bool}

/-- What the engine's field of a present reference denotes. -/
theorem field_present {name : String}
    (hpresent : Json.getPath doc (resolveField name mapper) = some (read name)) :
    (engine inner (.ofJson doc)).field (resolveField name mapper) = .ofJson (read name) := by
  simp [engine, getPath_ofJson, hpresent, storedJson]

/-- The filter of an equality is CEL's equality, whichever operand is the literal. -/
theorem holds_equality {comparisonOperator : ComparisonOperator} {v : Json}
    {stored : StoredValue} (h : comparisonOperator.isOrdering = false) :
    comparisonTruth comparisonOperator pair v =
      .ofBool ((engine inner stored).compare
        (if pair.swapped then comparisonOperator.mirrored else comparisonOperator)
        (.expr (.ofJson v)) (.json pair.literal)).holds := by
  have hcomm := Value.valuesEqual_comm (.ofJson pair.literal) (.ofJson v)
  cases comparisonOperator <;> first
    | contradiction
    | cases hswapped : pair.swapped <;>
        simp [comparisonTruth, hswapped, compareValues, Outcome.asBoolean,
          ComparisonOperator.mirrored, FilterQ.compare, engine, FilterArg.stored, same_ofJson,
          StoredValue.holds, hcomm]

/-- An ordering is answered under the guard, and is an error without it. -/
theorem holds_ordering {comparisonOperator : ComparisonOperator} {pair : FieldAndLiteral} {v : Json}
    {stored : StoredValue} (h : comparisonOperator.isOrdering = true) :
    comparisonTruth comparisonOperator pair v =
      if sameOrderedType v pair.literal then
        .ofBool ((engine inner stored).compare
          (if pair.swapped then comparisonOperator.mirrored else comparisonOperator)
          (.expr (.ofJson v)) (.json pair.literal)).holds
      else .unknown := by
  cases htype : sameOrderedType v pair.literal with
  | false =>
      have htype' := (sameOrderedType_comm pair.literal v).trans htype
      cases hswapped : pair.swapped <;>
        simp [comparisonTruth, hswapped, compareValues_of_not_sameOrderedType h, htype, htype',
          Outcome.asBoolean]
  | true =>
      have htype' := (sameOrderedType_comm pair.literal v).trans htype
      cases hswapped : pair.swapped with
      | false =>
          simp [comparisonTruth, hswapped,
            holds_compare_of_sameOrderedType inner stored h htype]
      | true =>
          simp [comparisonTruth, hswapped,
            holds_compare_of_sameOrderedType inner stored h htype', compare_mirrored _ _ _ _ _ h]

theorem ruleFor_isOrdering {operator : PlanOperator} {comparisonOperator : ComparisonOperator} :
    (ruleFor operator = some (.equality comparisonOperator) →
        comparisonOperator.isOrdering = false) ∧
      (ruleFor operator = some (.ordering comparisonOperator) →
        comparisonOperator.isOrdering = true) := by
  unfold ruleFor
  split <;> simp <;> rintro rfl <;> rfl

theorem holds_emitEquality_iff {comparisonOperator : ComparisonOperator} {operands : List Operand}
    (hoperator : comparisonOperator.isOrdering = false)
    (hpair : fieldAndLiteral operands = some pair)
    (hpresent : Json.getPath doc (resolveField pair.field mapper) = some (read pair.field))
    (hbuilt : emitEquality (engine inner (.ofJson doc)) mapper comparisonOperator operands negated =
      .ok built) :
    built.holds = true ↔
      (comparisonTruth comparisonOperator pair (read pair.field)).polarised negated = .yes := by
  simp only [emitEquality, hpair, field_present hpresent] at hbuilt
  obtain rfl := Except.ok.inj hbuilt
  rw [holds_polarised, holds_equality hoperator, Truth.polarised_ofBool_eq_yes_iff]

theorem holds_emitOrdering_iff {comparisonOperator : ComparisonOperator} {operands : List Operand}
    (hoperator : comparisonOperator.isOrdering = true)
    (hpair : fieldAndLiteral operands = some pair)
    (hpresent : Json.getPath doc (resolveField pair.field mapper) = some (read pair.field))
    (hbuilt : emitOrdering (engine inner (.ofJson doc)) mapper comparisonOperator operands negated =
      .ok built) :
    built.holds = true ↔
      (comparisonTruth comparisonOperator pair (read pair.field)).polarised negated = .yes := by
  simp only [emitOrdering, hpair, field_present hpresent] at hbuilt
  rw [@holds_ordering inner _ _ _ (.ofJson doc) hoperator]
  cases hguard : sameTypeAs (engine inner (.ofJson doc)) pair.literal
      (.expr (.ofJson (read pair.field))) with
  | none =>
      simp only [hguard] at hbuilt
      obtain rfl := Except.ok.inj hbuilt
      have htype : sameOrderedType (read pair.field) pair.literal = false := by
        cases hliteral : pair.literal <;> simp [hliteral, sameTypeAs] at hguard <;>
          cases read pair.field <;> rfl
      simp [htype]
  | some guard =>
      simp only [hguard] at hbuilt
      obtain rfl := Except.ok.inj hbuilt
      cases htype : sameOrderedType (read pair.field) pair.literal <;>
        simp [holds_sameTypeAs inner _ hguard, htype]

theorem holds_emitMembership_iff {operands : List Operand}
    {name : String} {values : List Json} (hvalues : fieldInList operands = some (name, values))
    (hpresent : Json.getPath doc (resolveField name mapper) = some (read name))
    (hbuilt : emitMembership (engine inner (.ofJson doc)) mapper operands negated = .ok built) :
    built.holds = true ↔ (membershipTruth values (read name)).polarised negated = .yes := by
  simp only [emitMembership, hvalues, field_present hpresent] at hbuilt
  obtain rfl := Except.ok.inj hbuilt
  have hequals : ∀ literal : Json, ((engine inner (.ofJson doc)).eq (.expr (.ofJson (read name)))
      (.json literal)).holds = (Value.ofJson literal).valuesEqual (.ofJson (read name)) := by
    intro literal
    rw [Value.valuesEqual_comm]
    simp [engine, FilterArg.stored, StoredValue.holds, same_ofJson]
  rw [holds_polarised, membershipTruth, Truth.polarised_ofBool_eq_yes_iff]
  -- An empty list is a constant and a single member stands alone; both are the disjunction.
  cases values with
  | nil => simp [listContains]
  | cons first rest =>
      cases rest with
      | nil => simp [listContains, hequals]
      | cons second rest => simp [listContains, hequals, List.any_map, Function.comp_def]

/-- Verdicts that hold exactly where truths are yes combine as those truths do. -/
theorem holds_junction_iff {operands : List Operand} {emitted : List StoredValue}
    {truth : Operand → Truth}
    (h : List.Forall₂ (fun operand e => e.holds = true ↔ truth operand = .yes) operands emitted) :
    (emitted.any (·.holds) = true ↔ Truth.any (operands.map truth) = .yes) ∧
      (emitted.all (·.holds) = true ↔ Truth.all (operands.map truth) = .yes) := by
  induction h with
  | nil => simp
  | cons hhead _ ih => simp [hhead, ih.1, ih.2]

/-- The emitted filter holds exactly when the truth that credits stray variables
as true is yes. -/
theorem holds_emitExpression_iff {expression : Operand}
    (hbuilt : emitExpression (engine inner (.ofJson doc)) mapper expression negated = .ok built)
    (hpresent : pathsPresent mapper nullIsMissing doc read expression) :
    built.holds = true ↔ creditedTruth true read expression negated = .yes := by
  induction expression using Operand.induction generalizing negated built with
  | value literal =>
      cases literal with
      | bool b =>
          obtain rfl := Except.ok.inj hbuilt
          simp [creditedTruth, Value.ofJson, Outcome.asBoolean]
      | _ => cases hbuilt
  | var name =>
      obtain ⟨hpath, -⟩ := hpresent name (by simp [Operand.references])
      obtain rfl := Except.ok.inj hbuilt
      rw [field_present hpath, creditedTruth, holds_polarised]
      cases read name with
      | bool b => simp [engine, FilterArg.stored, StoredValue.ofJson, StoredValue.same,
          StoredValue.holds]
      | _ => cases negated <;> simp [engine, FilterArg.stored, StoredValue.ofJson,
          StoredValue.same, StoredValue.holds]
  | expression operator operands ih =>
      have hpresent' : ∀ operand ∈ operands,
          pathsPresent mapper nullIsMissing doc read operand := fun operand hmem name hname =>
        hpresent name (by simpa [Operand.references] using ⟨operand, hmem, hname⟩)
      cases hrule : ruleFor operator with
      | none => simp [emitExpression, hrule] at hbuilt
      | some rule =>
          simp only [emitExpression, hrule] at hbuilt
          simp only [creditedTruth, hrule, creditedTruths_eq_map]
          cases rule with
          | junction decisive =>
              simp only [Except.bind_eq_ok_iff, emitEach_eq_ok_iff] at hbuilt
              obtain ⟨emitted, hemitted, hjunction⟩ := hbuilt
              obtain rfl := Except.ok.inj hjunction
              have hverdicts : List.Forall₂ (fun operand e => e.holds = true ↔
                  creditedTruth true read operand negated = .yes) operands emitted := by
                refine (List.forall₂_iff_get.mp hemitted).elim fun hlength hget => ?_
                refine List.forall₂_iff_get.mpr ⟨hlength, fun i hi hi' => ?_⟩
                exact ih _ (List.get_mem _ _) (hget i hi hi') (hpresent' _ (List.get_mem _ _))
              rw [holds_emitJunction]
              dsimp only
              cases decisive != negated with
              | true => exact (holds_junction_iff hverdicts).1
              | false => exact (holds_junction_iff hverdicts).2
          | not =>
              cases operands with
              | nil => simp [emitFirst] at hbuilt
              | cons operand rest =>
                  rw [ih operand List.mem_cons_self hbuilt (hpresent' operand List.mem_cons_self)]
                  simp
          | equality comparisonOperator =>
              cases hpair : fieldAndLiteral operands with
              | none => simp [emitEquality, hpair] at hbuilt
              | some pair =>
                  exact holds_emitEquality_iff (ruleFor_isOrdering.1 hrule) hpair
                    (hpresent _ (field_mem_references hpair)).1 hbuilt
          | ordering comparisonOperator =>
              cases hpair : fieldAndLiteral operands with
              | none => simp [emitOrdering, hpair] at hbuilt
              | some pair =>
                  exact holds_emitOrdering_iff (ruleFor_isOrdering.2 hrule) hpair
                    (hpresent _ (field_mem_references hpair)).1 hbuilt
          | membership =>
              cases hvalues : fieldInList operands with
              | none => simp [emitMembership, hvalues] at hbuilt
              | some found =>
                  obtain ⟨rest, rfl⟩ := fieldInList_eq_some hvalues
                  exact holds_emitMembership_iff hvalues
                    (hpresent _ (by simp [Operand.references])).1 hbuilt

end Engine

/-! ## Agreement -/

/-- The tree, or its negation. -/
def negate (negated : Bool) (expression : Operand) : Operand :=
  if negated then .expression .not [expression] else expression

section Agreement

variable [Double.Rounding] {inner : StoredValue → StoredValue → Bool} {mapper : Mapper}
  {nullIsMissing : Bool} {now : Int} {doc : Json} {read : String → Json}

theorem evaluate_negate_eq_okTrue_iff {negated : Bool} {expression : Operand} {scope : Scope}
    {outcome : Outcome} (h : evaluate expression scope = .ok outcome) :
    evaluate (negate negated expression) scope = okTrue ↔
      outcome.asBoolean.polarised negated = .yes := by
  cases negated with
  | false =>
      simp only [negate, Bool.false_eq_true, if_false, h, okTrue, Except.ok.injEq,
        Truth.polarised_false, Outcome.asBoolean_eq_yes_iff]
  | true =>
      have hnot : evaluate (negate true expression) scope =
          .ok (.ofTruth outcome.asBoolean.not) := by
        rw [negate, if_pos rfl, evaluate_expression, evaluateOperator_of_rule (by rfl)]
        simp [evaluateNot, Call.arg, callOf, h, bind, Except.bind, pure, Except.pure]
      rw [hnot, okTrue, Except.ok.injEq, ← Outcome.asBoolean_eq_yes_iff,
        Outcome.asBoolean_ofTruth, Truth.polarised_true]

/-- The emitted filter and the evaluation agree, under either polarity, exactly
when it makes no difference whether the bare variables that an odd number of
negations encloses, and that read no boolean, count as true or as errors. -/
theorem emitExpression_agrees_iff {expression : Operand} {negated : Bool} {built : StoredValue}
    (hpush : canPushToDb mapper expression = true)
    (hbuilt : emitExpression (engine inner (.ofJson doc)) mapper expression negated = .ok built)
    (hplain : plainReferences expression)
    (hpresent : pathsPresent mapper nullIsMissing doc read expression) :
    (built.holds = true ↔
        evaluate (negate negated expression) (jsonScope mapper nullIsMissing now doc) = okTrue) ↔
      (creditedTruth true read expression negated = .yes ↔
        creditedTruth false read expression negated = .yes) := by
  obtain ⟨outcome, houtcome, htruth⟩ :=
    @evaluate_eq_creditedTruth _ mapper nullIsMissing now doc read _ _ _ _ hpush hbuilt hplain
      hpresent
  rw [holds_emitExpression_iff hbuilt hpresent, evaluate_negate_eq_okTrue_iff houtcome, htruth]

end Agreement

/-! ## A negated flag that holds a text -/

def negatedFlag : Operand :=
  .expression .not [.var "R.flag"]

def flagDocument (flag : Json) : Json :=
  .object [("R", .object [("flag", flag)])]

theorem pathsPresent_flagDocument (flag : Json) :
    pathsPresent planPaths false (flagDocument flag) (fun _ => flag) negatedFlag := by
  intro name hname
  obtain rfl : name = "R.flag" := by
    simpa [negatedFlag, Operand.references, Operand.referencesEach] using hname
  exact ⟨rfl, fun h => absurd h (by decide)⟩

/-- The filter returns the document, and the evaluator has an error on it. -/
theorem negatedFlag_disagrees :
    canPushToDb planPaths negatedFlag = true ∧ plainReferences negatedFlag ∧
      pathsPresent planPaths false (flagDocument (.string "x")) (fun _ => .string "x") negatedFlag ∧
      ∃ built, translateExpression (engine (fun _ _ => false)
          (.ofJson (flagDocument (.string "x")))) planPaths negatedFlag = .ok built ∧
        ¬(built.holds = true ↔
          evaluate negatedFlag (jsonScope planPaths false 0 (flagDocument (.string "x"))) =
            okTrue) := by
  refine ⟨rfl, by decide, pathsPresent_flagDocument _, _, rfl, ?_⟩
  intro h
  cases h.mp rfl

theorem emitExpression_agrees_iff_flag :
    ((StoredValue.bool false).holds = true ↔
        evaluate (negate false negatedFlag)
          (jsonScope planPaths false 0 (flagDocument (.bool true))) = okTrue) ↔
      (creditedTruth true (fun _ => .bool true) negatedFlag false = .yes ↔
        creditedTruth false (fun _ => .bool true) negatedFlag false = .yes) :=
  @emitExpression_agrees_iff _ (fun _ _ => false) planPaths false 0 (flagDocument (.bool true))
    _ _ _ _ rfl rfl (by decide) (pathsPresent_flagDocument _)

end QueryPlanAdapters.Convex
