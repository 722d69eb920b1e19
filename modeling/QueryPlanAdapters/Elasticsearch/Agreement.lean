import QueryPlanAdapters.Elasticsearch.PlanWalker
import QueryPlanAdapters.Elasticsearch.ShiftedTimestamps
import QueryPlanAdapters.Go.Meaning

/-!
# Elasticsearch: what a condition's query matches

The clause of a condition under a polarity against CEL's value of the condition, over documents
that hold the attributes it reads. Each leaf is answered by itself; the clauses of a junction,
and those of the elements of a nested collection, are answered from their parts.
-/

namespace QueryPlanAdapters.Elasticsearch

open Go (Functions Valuation comparisonOutcome literalValue meaning)

/-! ## Attributes in the index -/

/-- A scalar attribute of a type, and its term. -/
inductive Stored : ScalarType → Value → Term → Prop
  | string (s : String) : Stored .string (.string s) (.string s)
  | number {d : Double} (h : d.isFinite = true) : Stored .number (.number d) (.number d.toRat)
  | boolean (b : Bool) : Stored .boolean (.bool b) (.boolean b)
  | timestamp (s : String) (millis : Int) : Stored .timestamp (.string s) (.date millis)

/-- An attribute and the terms of its field, with or without null attributes. -/
inductive Indexed (nulls : Bool) (type : ScalarType) : Outcome → List Term → Prop
  | missing : Indexed nulls type .error []
  | null (h : nulls = true) : Indexed nulls type (.value .null) []
  | stored {v : Value} {t : Term} (h : Stored type v t) : Indexed nulls type (.value v) [t]

/-- A query matches only where a condition holds, and everywhere it holds but for nulls. -/
def Answers (nulls «matches» : Bool) (t : Truth) : Prop :=
  («matches» = true → t = .yes) ∧ (nulls = false → t = .yes → «matches» = true)

theorem Indexed.answers {nulls «matches» : Bool} {type : ScalarType} {o : Outcome}
    {terms : List Term} {t : Truth} (h : Indexed nulls type o terms)
    (hnone : terms = [] → «matches» = false) (herror : o = .error → t ≠ .yes)
    (hstored : ∀ v term, Stored type v term → o = .value v → terms = [term] →
      («matches» = true ↔ t = .yes)) : Answers nulls «matches» t := by
  cases h with
  | missing => exact ⟨fun h => by simp [hnone rfl] at h, fun _ h => absurd h (herror rfl)⟩
  | null hnulls => exact ⟨fun h => by simp [hnone rfl] at h, fun h => by simp [hnulls] at h⟩
  | stored h =>
      have hiff := hstored _ _ h rfl rfl
      exact ⟨hiff.mp, fun _ => hiff.mpr⟩

/-! ## A literal against a term -/

theorem numberToJava_spec (d : Double) :
    (numberToJava d).isFinite = d.isFinite ∧ (numberToJava d).toRat = d.toRat := by
  rw [numberToJava]
  split
  next h =>
    simp only [Double.isInteger, Bool.and_eq_true] at h
    exact ⟨h.1.1.1.symm, rfl⟩
  next => exact ⟨rfl, rfl⟩

/-- A term and a literal of its type compare in the index as in CEL. -/
theorem Stored.test {type : ScalarType} {v : Value} {t : Term} {literal : Literal}
    (h : Stored type v t) (htype : type ≠ .timestamp) (hl : inhabits type literal = true)
    (hfinite : firstNonFinite (protoValueToJava literal) = none) :
    ∃ a b : ℚ, ∀ operator : ComparisonOperator,
      t.test operator (protoValueToJava literal) = operator.test (.finite a) (.finite b) ∧
        (comparisonOutcome operator (.value v) (literalValue literal)).asBoolean =
          .ofBool (operator.test (.finite a) (.finite b)) := by
  cases h with
  | timestamp => exact absurd rfl htype
  | string s =>
      cases literal with
      | string u =>
          refine ⟨_, _, fun operator => ⟨rfl, ?_⟩⟩
          cases operator <;> simp [comparisonOutcome, literalValue, Value.ofPlan,
            ComparisonOperator.isOrdering, orderingKeys, Value.valuesEqual, Outcome.asBoolean,
            ComparisonOperator.test, compareCodePoints_eq_zero_iff, String.toList_inj]
      | _ => cases hl
  | boolean b =>
      cases literal with
      | bool c =>
          refine ⟨_, _, fun operator => ⟨rfl, ?_⟩⟩
          cases operator <;> cases b <;> cases c <;> rfl
      | _ => cases hl
  | @number d hd =>
      cases literal with
      | number e =>
          obtain ⟨hkept, hrat⟩ := numberToJava_spec e
          have hjava : (numberToJava e).isFinite = true := by
            simpa [protoValueToJava, firstNonFinite] using hfinite
          have he : e.isFinite = true := hkept ▸ hjava
          refine ⟨d.toRat, e.toRat, fun operator => ⟨?_, ?_⟩⟩
          · rw [protoValueToJava, Term.test, test_of_isFinite operator rfl hjava, hrat]
            rfl
          · rw [← test_of_isFinite operator hd he]
            cases operator <;> simp [comparisonOutcome, literalValue, Value.ofPlan,
              ComparisonOperator.isOrdering, orderingKeys, Value.valuesEqual, Value.toNumeric,
              Outcome.asBoolean, ComparisonOperator.test]
      | _ => cases hl

/-- A literal of another type is unequal to the attribute and has no order with it. -/
theorem Stored.mismatch {type : ScalarType} {v : Value} {t : Term} {literal : Literal}
    (h : Stored type v t) (hl : inhabits type literal = false) (operator : ComparisonOperator) :
    (comparisonOutcome operator (.value v) (literalValue literal)).asBoolean =
      if operator.isOrdering then .unknown else .ofBool (operator = .ne) := by
  cases h <;> cases literal <;>
    first | (cases operator <;> rfl) | cases hl

theorem inhabits_protoValueToJava (type : ScalarType) (literal : Literal) :
    inhabits type (protoValueToJava literal) = inhabits type literal := by
  cases type <;> cases literal <;> rfl

/-- The literals of the term's type that equal it are those that CEL's value equals. -/
theorem Stored.equals {type : ScalarType} {v : Value} {t : Term} {literal : Literal}
    (h : Stored type v t) (htype : type ≠ .timestamp)
    (hfinite : firstNonFinite (protoValueToJava literal) = none) :
    (inhabits type (protoValueToJava literal) && t.test .eq (protoValueToJava literal)) =
      v.valuesEqual (.ofPlan literal) := by
  have hequal : (comparisonOutcome .eq (.value v) (literalValue literal)).asBoolean =
      .ofBool (v.valuesEqual (.ofPlan literal)) := by
    simp [comparisonOutcome, literalValue, ComparisonOperator.isOrdering, Outcome.asBoolean]
  rw [inhabits_protoValueToJava, ← Truth.ofBool_inj, ← hequal]
  cases hl : inhabits type literal with
  | true =>
      obtain ⟨a, b, htest⟩ := h.test htype hl hfinite
      rw [(htest .eq).1, (htest .eq).2, Bool.true_and]
  | false => exact (h.mismatch hl .eq).symm

theorem firstNonFinite_of_mem {literals : List Literal} (h : firstNonFiniteItem literals = none)
    {literal : Literal} (hmem : literal ∈ literals) : firstNonFinite literal = none := by
  induction literals with
  | nil => cases hmem
  | cons first rest ih =>
      rw [firstNonFiniteItem, Option.or_eq_none_iff] at h
      obtain rfl | hmem := List.mem_cons.mp hmem
      · exact h.1
      · exact ih h.2 hmem

/-! ## Leaves -/

section Leaves

variable [JavaCharacter] {options : Options} {scope : Scope} {name field : String}
  {type : ScalarType} {polarity : Polarity} {query : Query} {literal : Literal}
  {operator normalized : PlanOperator} {variableFirst nulls : Bool}

/-- A scalar attribute whose type is declared. -/
structure ScalarField (options : Options) (scope : Scope) (name field : String)
    (type : ScalarType) : Prop where
  resolved : scope.field name = .ok field
  declared : options.scalarTypes.lookup field = some type

/-- The query of a comparison: a literal of another type decides it where the field is. -/
def literalQuery (field : String) (type : ScalarType) (operator : ComparisonOperator)
    (value : Literal) (whenTrue : Bool) : Query :=
  if inhabits type value then comparisonQuery field value operator whenTrue
  else if operator.isOrdering || (operator = .eq) == whenTrue then .matchNone
  else .exists field

theorem settledLeaf_comparison {operator : ComparisonOperator} {operands : List Operand}
    {whenTrue : Bool} (hdeclared : options.scalarTypes.lookup field = some type)
    (hdefault : ∀ operator, options.operatorOverrides operator = none)
    (hbare : hasTimestampWrapper operands = false)
    (hscalar : rejectNonScalarOperand (planOperator operator) literal variableFirst = .ok ())
    (h : options.settledLeaf (planOperator operator) field literal variableFirst operands whenTrue =
      .ok query) :
    (inhabits type literal = true → type ≠ .timestamp) ∧
      query = literalQuery field type operator literal whenTrue := by
  have hleaf : options.membershipLeaf (planOperator operator) field literal variableFirst operands
      whenTrue = .ok (comparisonQuery field literal operator whenTrue) := by
    rw [← polarizedQuery_eq hdefault]
    cases operator <;> rfl
  cases literal with
  | null => cases operator <;> cases whenTrue <;> cases type <;> cases h <;>
      exact ⟨fun h => absurd h Bool.false_ne_true, rfl⟩
  | array | object => cases operator <;> cases hscalar
  | bool | number | string =>
      rw [Options.settledLeaf.eq_def] at h
      have hsettled : isScalarOperandOperator (planOperator operator) = true ∧
          isStringOperator (planOperator operator) = false := by
        cases operator <;> exact ⟨rfl, rfl⟩
      simp only [hleaf, Options.typeMismatchQuery, Options.isOverridden, hdefault, hsettled.1,
        hsettled.2, Options.declaredType, hdeclared, hbare, Option.isSome_none, Bool.not_true,
        Bool.or_self, Bool.not_false, Bool.and_true, Bool.false_and, Bool.false_eq_true, if_false,
        bind, Except.bind] at h
      refine ⟨?_, ?_⟩
      · rintro - rfl
        cases h
      · rw [literalQuery]
        split at h
        next => cases h
        next mismatch hmismatch =>
          split at hmismatch
          · cases hmismatch
          · split at hmismatch
            next hinhabits =>
              cases hmismatch
              rw [if_pos hinhabits]
              exact (Except.ok.inj h).symm
            next hinhabits =>
              rw [if_neg hinhabits]
              cases operator <;> cases whenTrue <;> cases hmismatch <;>
                exact (Except.ok.inj h).symm

omit [JavaCharacter] in
theorem literalQuery_matches_nothing {regexpMatches : String → String → Bool} {d : Document}
    {operator : ComparisonOperator} {whenTrue : Bool} (hd : d.terms field = []) :
    (literalQuery field type operator literal whenTrue).matches regexpMatches d = false := by
  rw [literalQuery]
  split
  · cases operator <;> cases whenTrue <;> simp [comparisonQuery, Query.matches, hd]
  · split <;> simp [Query.matches, hd]

omit [JavaCharacter] in
/-- The query of a comparison matches the values of which the comparison holds. -/
theorem literalQuery_matches {regexpMatches : String → String → Bool} {d : Document} {v : Value}
    {t : Term} {operator : ComparisonOperator} (whenTrue : Bool) (h : Stored type v t)
    (hbare : inhabits type (protoValueToJava literal) = true → type ≠ .timestamp)
    (hfinite : firstNonFinite (protoValueToJava literal) = none) (hd : d.terms field = [t]) :
    (literalQuery field type operator (protoValueToJava literal) whenTrue).matches regexpMatches d =
      true ↔ (comparisonOutcome operator (.value v) (literalValue literal)).asBoolean.polarised
        (!whenTrue) = .yes := by
  rw [inhabits_protoValueToJava] at hbare
  rw [literalQuery, inhabits_protoValueToJava]
  cases hl : inhabits type literal with
  | true =>
      obtain ⟨a, b, htest⟩ := h.test (hbare hl) hl hfinite
      have hmatches : (comparisonQuery field (protoValueToJava literal) operator whenTrue).matches
          regexpMatches d =
            (some t).any fun _ => operator.test (.finite a) (.finite b) == whenTrue := by
        apply comparisonQuery_matches_terms hd
        rintro _ ⟨⟩ op
        exact (htest op).1
      rw [if_pos rfl, hmatches, (htest operator).2]
      cases whenTrue <;> simp
  | false =>
      rw [if_neg Bool.false_ne_true, h.mismatch hl]
      cases operator <;> cases whenTrue <;> simp [ComparisonOperator.isOrdering, Query.matches, hd]

end Leaves

/-! ## Conditions -/

/-- Conditions of booleans, of comparisons with literals and of memberships in them, and of `exists` and `all` over the
elements of a nested collection. -/
inductive Condition (options : Options) : Scope → Operand → Prop
  | flag {scope : Scope} {name field : String} (h : ScalarField options scope name field .boolean) :
      Condition options scope (.var name)
  | comparison {scope : Scope} {name field : String} {type : ScalarType}
      (h : ScalarField options scope name field type) (operator : ComparisonOperator)
      (variableFirst : Bool) (literal : Literal) :
      Condition options scope
        (.expression (planOperator operator) (leafOperands variableFirst name literal))
  | membership {scope : Scope} {name field : String} {type : ScalarType}
      (h : ScalarField options scope name field type) (members : List Literal) :
      Condition options scope (.expression .in [.var name, .value (.array members)])
  | junction {scope : Scope} {operands : List Operand} (conjunction : Bool)
      (h : ∀ o ∈ operands, Condition options scope o) :
      Condition options scope (.expression (if conjunction then .and else .or) operands)
  | not {scope : Scope} {operand : Operand} (h : Condition options scope operand) :
      Condition options scope (.expression .not [operand])
  | quantifier {name field element : String} {body : Operand} (universal : Bool)
      (hfield : (Scope.root options.fieldMap).field name = .ok field)
      (hnested : field ∈ options.nestedPaths)
      (h : Condition options (.lambda field element) body) :
      Condition options (.root options.fieldMap) (.expression (if universal then .all else .exists)
        [.var name, .expression .lambda [body, .var element]])

/-- The scalar attributes are the terms of their fields. -/
def IndexesScalars (options : Options) (nulls : Bool) (scope : Scope) (env : Valuation)
    (d : Document) : Prop :=
  ∀ name field type, ScalarField options scope name field type →
    Indexed nulls type (env name) (d.terms field)

/-- A document of the attributes that a scope reads. The elements of a nested collection are
documents of their own. -/
structure Describes (options : Options) (nulls : Bool) (scope : Scope) (env : Valuation)
    (d : Document) : Prop where
  root : ∀ fieldMap, scope = .root fieldMap → fieldMap = options.fieldMap
  scalars : IndexesScalars options nulls scope env d
  nested : ∀ name field fieldMap, scope = .root fieldMap → scope.field name = .ok field →
    field ∈ options.nestedPaths → env name = .error ∧ d.nested field = [] ∨
      ∃ items, env name = .value (.array items) ∧
        List.Forall₂ (fun element v => ∀ x, IndexesScalars options nulls (.lambda field x)
          (env.bind x v) element) (d.nested field) items

theorem forall₂_of_mapM {α β : Type} {f : α → Translation β} {as : List α} {bs : List β}
    (h : as.mapM f = .ok bs) : List.Forall₂ (fun b a => a ∈ as ∧ f a = .ok b) bs as := by
  induction as generalizing bs with
  | nil =>
      cases h
      exact .nil
  | cons a as ih =>
      rw [List.mapM_cons] at h
      obtain ⟨b, hb, h⟩ := Except.bind_eq_ok_iff.mp h
      obtain ⟨rest, hrest, h⟩ := Except.bind_eq_ok_iff.mp h
      cases h
      exact .cons ⟨List.mem_cons_self, hb⟩
        ((ih hrest).imp fun _ _ h => ⟨List.mem_cons_of_mem a h.1, h.2⟩)

section Parts

variable {α β : Type} {nulls : Bool} {f : α → Bool} {g : β → Truth} {as : List α} {bs : List β}

theorem Answers.any (h : List.Forall₂ (fun a b => Answers nulls (f a) (g b)) as bs) :
    Answers nulls (as.any f) (Truth.any (bs.map g)) := by
  induction h with
  | nil => simp [Answers]
  | cons h _ ih =>
      simp only [Answers, List.any_cons, List.map_cons, Truth.any_cons, Bool.or_eq_true,
        Truth.or_eq_yes_iff]
      exact ⟨Or.imp h.1 ih.1, fun hnulls => Or.imp (h.2 hnulls) (ih.2 hnulls)⟩

theorem Answers.all (h : List.Forall₂ (fun a b => Answers nulls (f a) (g b)) as bs) :
    Answers nulls (as.all f) (Truth.all (bs.map g)) := by
  induction h with
  | nil => exact ⟨fun _ => rfl, fun _ _ => rfl⟩
  | cons h _ ih =>
      simp only [Answers, List.all_cons, List.map_cons, Truth.all_cons, Bool.and_eq_true,
        Truth.and_eq_yes_iff]
      exact ⟨And.imp h.1 ih.1, fun hnulls => And.imp (h.2 hnulls) (ih.2 hnulls)⟩

end Parts

section Walk

variable [JavaCharacter] {walker : PlanWalker} {functions : Functions} {scope : Scope}
  {node : Operand} {nulls : Bool} {regexpMatches : String → String → Bool}

theorem operand_leaf (hroot : ∀ fieldMap, scope = .root fieldMap →
    fieldMap = walker.options.fieldMap) {operator : PlanOperator}
    (hop : operator = .in ∨ ∃ op, operator = planOperator op) (variableFirst : Bool)
    (name : String) (literal : Literal) (polarity : Polarity) :
    walker.operand (.expression operator (leafOperands variableFirst name literal)) scope polarity =
      walker.options.plainLeaf operator (leafOperands variableFirst name literal) scope polarity := by
  rw [PlanWalker.operand_expression]
  obtain rfl | ⟨op, rfl⟩ := hop
  · cases variableFirst <;> cases scope <;> first | rfl | (obtain rfl := hroot _ rfl; rfl)
  · cases op <;> cases variableFirst <;> cases scope <;>
      first | rfl | (obtain rfl := hroot _ rfl; rfl)

omit [JavaCharacter] in
/-- CEL's value of a comparison with a literal, the attribute on the left. -/
theorem meaning_leafOperands {env : Valuation} (operator : ComparisonOperator)
    (variableFirst : Bool) (name : String) (literal : Literal) :
    meaning functions (.expression (planOperator operator)
        (leafOperands variableFirst name literal)) env =
      comparisonOutcome (if variableFirst then operator else operator.mirrored) (env name)
        (literalValue literal) := by
  have hop : Go.comparisonOps (planOperator operator) = some operator := by
    cases operator <;> rfl
  cases variableFirst with
  | true => exact Go.meaning_comparison hop _ _
  | false =>
      rw [if_neg Bool.false_ne_true, Go.comparisonOutcome_mirrored]
      exact Go.meaning_comparison hop _ _

/-- Every clause of a condition answers it. -/
theorem Condition.answers (hdefault : ∀ operator, walker.options.operatorOverrides operator = none)
    (h : Condition walker.options scope node) :
    ∀ {env : Valuation} {d : Document} {polarity : Polarity} {query : Query},
      Describes walker.options nulls scope env d →
      walker.operand node scope polarity = .ok query →
      Answers nulls (query.matches regexpMatches d)
        ((meaning functions node env).asBoolean.polarised (!polarity.holds)) := by
  induction h with
  | @flag scope name field hfield =>
      intro env d polarity query hd h
      have hquery : query = .term field (.bool polarity.holds) := by
        obtain ⟨_, hsame, h⟩ := Except.bind_eq_ok_iff.mp h
        obtain rfl := Except.ok.inj (hfield.resolved.symm.trans hsame)
        rw [Options.applyOperator, Options.operatorOrDefault, hdefault] at h
        exact (Except.ok.inj h).symm
      refine (hd.scalars _ _ _ hfield).answers ?_ ?_ ?_
      · intro hnone
        rw [hquery, Query.matches, hnone, List.any_nil]
      · intro herror
        rw [Go.meaning_var, herror]
        simp [Outcome.asBoolean]
      · intro v t hstored hv hterms
        rw [hquery, Query.matches, hterms, Go.meaning_var, hv]
        cases hstored with
        | boolean b => cases b <;> cases polarity <;> decide
  | @comparison _ name _ _ hfield operator variableFirst literal =>
      intro env d polarity query hd h
      rw [operand_leaf hd.root (.inr ⟨operator, rfl⟩)] at h
      obtain ⟨hfinite, hscalar, h⟩ := plainLeaf_eq_ok hfield.resolved
        (normalizeLeafOperator_eq operator variableFirst)
        (fun h => by cases variableFirst <;> cases operator <;> cases h) h
      have hbare : hasTimestampWrapper (leafOperands variableFirst name literal) = false := by
        cases variableFirst <;> rfl
      obtain ⟨htype, rfl⟩ := settledLeaf_comparison hfield.declared hdefault hbare hscalar h
      rw [meaning_leafOperands]
      refine (hd.scalars _ _ _ hfield).answers ?_ ?_ ?_
      · intro hnone
        exact literalQuery_matches_nothing hnone
      · intro herror
        rw [herror]
        simp [comparisonOutcome, Outcome.asBoolean]
      · intro v t hstored hv hterms
        rw [hv]
        exact literalQuery_matches polarity.holds hstored htype hfinite hterms
  | @membership _ name field type hfield members =>
      intro env d polarity query hd h
      have h := (operand_leaf hd.root (.inl rfl) true name (.array members) polarity).symm.trans h
      obtain ⟨hfinite, -, h⟩ := plainLeaf_eq_ok hfield.resolved rfl (fun _ => rfl) h
      rw [protoValueToJava, protoValuesToJava_eq_map] at h hfinite
      obtain ⟨htype, rfl⟩ := settledLeaf_membership hfield.declared (hdefault .in) rfl h
      rw [Go.meaning_binary rfl, Go.meaning_var, Go.meaning_value, literalValue, Go.ofPlan_array]
      refine (hd.scalars _ _ _ hfield).answers ?_ ?_ ?_
      · intro hnone
        exact membershipQuery_matches (x := none) hnone _ _
      · intro herror
        rw [herror]
        simp [Outcome.toValue, Outcome.asBoolean]
      · intro v t hstored hv hterms
        have hmembers : ((members.map protoValueToJava).filter (inhabits type)).any (t.test .eq) =
            (members.map Value.ofPlan).any v.valuesEqual := by
          rw [List.any_filter, List.any_map, List.any_map, Bool.eq_iff_iff, List.any_eq_true,
            List.any_eq_true]
          refine exists_congr fun literal => and_congr_right fun hliteral => ?_
          rw [Function.comp_apply, Function.comp_apply,
            hstored.equals htype (firstNonFinite_of_mem hfinite (List.mem_map_of_mem hliteral))]
        rw [hv, membershipQuery_matches (x := some t) hterms, Option.any_some, hmembers]
        show _ ↔ (Truth.ofBool ((members.map Value.ofPlan).any v.valuesEqual)).polarised _ = .yes
        cases polarity <;> simp [Polarity.holds]
  | @junction scope operands conjunction _ ih =>
      intro env d polarity query hd h
      obtain ⟨clauses, hclauses, hquery⟩ : ∃ clauses,
          operands.mapM (fun o => walker.operand o scope polarity) = .ok clauses ∧
            query = PlanWalker.junction (conjunction == polarity.holds) clauses := by
        rw [PlanWalker.operand_expression] at h
        cases conjunction <;>
          obtain ⟨clauses, hclauses, h⟩ := Except.bind_eq_ok_iff.mp h <;>
          rw [List.mapM_map] at hclauses <;>
          refine ⟨clauses, hclauses, (Except.ok.inj h).symm.trans ?_⟩ <;> cases polarity <;> rfl
      have hparts := (forall₂_of_mapM hclauses).imp fun q o h => ih o h.1 hd h.2
      have htruth : (meaning functions (.expression (if conjunction then .and else .or) operands)
          env).asBoolean.polarised (!polarity.holds) =
            if conjunction == polarity.holds then Truth.all (operands.map fun o =>
              (meaning functions o env).asBoolean.polarised (!polarity.holds))
            else Truth.any (operands.map fun o =>
              (meaning functions o env).asBoolean.polarised (!polarity.holds)) := by
        rw [Go.meaning_expression, Go.expressionMeaning.eq_def]
        cases conjunction <;> cases polarity <;>
          simp [Polarity.holds, Truth.not_all, Truth.not_any, Function.comp_def]
      rw [hquery, htruth, PlanWalker.junction]
      cases conjunction == polarity.holds with
      | true => simpa using Answers.all hparts
      | false => simpa using Answers.any hparts
  | not _ ih =>
      intro env d polarity query hd h
      rw [PlanWalker.operand_expression] at h
      rw [Go.meaning_not, Outcome.asBoolean_ofTruth, Truth.polarised_not]
      have hanswers := ih hd h
      cases polarity <;> exact hanswers
  | @quantifier name field element body universal hfield hnested _ ih =>
      intro env d polarity query hd h
      obtain ⟨hallowed, q, hq, rfl⟩ : universal = !polarity.holds ∧ ∃ q,
          walker.operand body (.lambda field element) polarity = .ok q ∧
            query = .nestedQuery field q := by
        rw [PlanWalker.operand_expression] at h
        have hcontains : walker.options.nestedPaths.contains field = true := by simpa using hnested
        cases universal <;> cases polarity <;>
          obtain ⟨_, hsame, h⟩ := Except.bind_eq_ok_iff.mp h <;>
          obtain rfl := Except.ok.inj (hfield.symm.trans hsame) <;> rw [if_pos hcontains] at h <;>
          first
          | cases h
          | obtain ⟨q, hq, h⟩ := Except.bind_eq_ok_iff.mp h
            exact ⟨rfl, q, hq, (Except.ok.inj h).symm⟩
      have hop : Go.lambdaBinding (if universal then .all else .exists) = true := by
        cases universal <;> rfl
      rw [Go.meaning_overElements hop, Go.meaning_var, Query.matches]
      obtain ⟨hmissing, hnested⟩ | ⟨items, hitems, hparts⟩ := hd.nested _ _ _ rfl hfield hnested
      · rw [hmissing, hnested]
        simp [Answers, Outcome.range, Outcome.asBoolean]
      · have hanswers := Answers.any <| hparts.imp fun inner v h =>
          @ih (env.bind element v) inner polarity q
            ⟨fun _ h => Scope.noConfusion h, h element, fun _ _ _ h => Scope.noConfusion h⟩ hq
        have htruth : (Go.macroResult (if universal then .all else .exists) items fun v =>
            meaning functions body (env.bind element v)).asBoolean.polarised (!polarity.holds) =
              Truth.any (items.map fun v =>
                (meaning functions body (env.bind element v)).asBoolean.polarised
                  (!polarity.holds)) := by
          subst hallowed
          cases polarity <;>
            simp [Go.macroResult, Go.macroFold, Polarity.holds, Truth.not_all, Function.comp_def]
        rw [hitems]
        exact htruth ▸ hanswers

/-- The query of a plan matches only documents of which its condition holds, and all of those
where no attribute is null. -/
theorem walk_matches {query : Query} {env : Valuation} {d : Document}
    (hdefault : ∀ operator, walker.options.operatorOverrides operator = none)
    (hcondition : Condition walker.options walker.root node)
    (hd : Describes walker.options nulls walker.root env d)
    (h : walker.translate node = .ok query) :
    (query.matches regexpMatches d = true → meaning functions node env = .value (.bool true)) ∧
      (nulls = false → meaning functions node env = .value (.bool true) →
        query.matches regexpMatches d = true) := by
  have hanswers : Answers nulls (query.matches regexpMatches d)
      (meaning functions node env).asBoolean := hcondition.answers hdefault hd h
  rwa [Answers, Outcome.asBoolean_eq_yes_iff] at hanswers

end Walk

/-- One boolean field. -/
def openWalker : PlanWalker where
  options :=
    { timestampOptions with fieldMap := [("R.attr.open", "open")], scalarTypes := [("open", .boolean)] }
  collections := ⟨fun _ _ _ _ => exceptUnsupported, fun _ _ _ _ => exceptUnsupported,
    fun _ _ => exceptUnsupported, fun _ _ => exceptUnsupported⟩
  valueOf _ := ""
  doubleText _ := ""

/-- `!(!R.attr.open || false == R.attr.open)` -/
def openCondition : Operand :=
  .expression .not [.expression .or [.expression .not [.var "R.attr.open"],
    .expression .eq [.value (.bool false), .var "R.attr.open"]]]

theorem walk_matches_open :
    ∃ query, @PlanWalker.translate latinCharacter openWalker openCondition = .ok query ∧
      query.matches (fun _ _ => false) (.node (fun _ => [.boolean true]) fun _ => []) = true ∧
      meaning (.filtering fun _ _ => .error) openCondition (fun _ => .value (.bool true)) =
        .value (.bool true) := by
  have hfield : ScalarField openWalker.options openWalker.root "R.attr.open" "open" .boolean :=
    ⟨rfl, rfl⟩
  have hcondition : Condition openWalker.options openWalker.root openCondition := by
    refine .not (.junction false fun o ho => ?_)
    rw [List.mem_pair] at ho
    obtain rfl | rfl := ho
    · exact .not (.flag hfield)
    · exact .comparison hfield .eq false (.bool false)
  have hd : Describes openWalker.options false openWalker.root (fun _ => .value (.bool true))
      (.node (fun _ => [.boolean true]) fun _ => []) := by
    refine ⟨fun _ h => (Scope.root.inj h).symm, fun name field type h => ?_,
      fun _ _ _ _ _ h => absurd h List.not_mem_nil⟩
    have htype : type = .boolean := by
      have hdeclared : List.lookup field [("open", ScalarType.boolean)] = some type := h.declared
      rw [List.lookup_cons] at hdeclared
      split at hdeclared
      · exact (Option.some.inj hdeclared).symm
      · cases hdeclared
    exact htype ▸ .stored (.boolean true)
  obtain ⟨query, hquery, hmatches⟩ : ∃ query,
      @PlanWalker.translate latinCharacter openWalker openCondition = .ok query ∧
        query.matches (fun _ _ => false) (.node (fun _ => [.boolean true]) fun _ => []) = true :=
    exists_of_any (by decide +kernel)
  exact ⟨query, hquery, hmatches,
    (@walk_matches latinCharacter openWalker _ _ false _ query _ _ (fun _ => rfl) hcondition hd
      hquery).1 hmatches⟩

end QueryPlanAdapters.Elasticsearch
