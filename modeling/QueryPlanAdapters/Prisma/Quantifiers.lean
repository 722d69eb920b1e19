import QueryPlanAdapters.Prisma.Leaves
import QueryPlanAdapters.Prisma.Records

/-!
# Prisma: quantified conditions are translated soundly under negation

The filter of a condition, and the filter of its negation, are what the condition's own
semantics says they are, and so is what is recorded with the lambda around it. This is
shown for every condition and both directions at once, by induction on the recursion.
-/

namespace QueryPlanAdapters.Prisma

open Sql

/-! ## The conditions of the plan -/

mutual

/-- What a plan expression says about the record of its scope. -/
inductive Denotes : TranslationContext → Node → Condition → Prop where
  | compared {context : TranslationContext} {operator : PlanOperator} {op : ComparisonOperator}
      {name field : String} {v : Literal} (hop : comparisonOperator operator = some op)
      (hname : ReadsColumn context name field) (hv : isComparable v = true) :
      Denotes context (.expression operator [.var name, .value v]) (.compared op field v)
  | comparedFirst {context : TranslationContext} {operator : PlanOperator}
      {op : ComparisonOperator} {name field : String} {v : Literal}
      (hop : comparisonOperator operator = some op) (hname : ReadsColumn context name field)
      (hv : isComparable v = true) :
      Denotes context (.expression operator [.value v, .var name])
        (.compared op.mirrored field v)
  | and {context : TranslationContext} {operands : List Node} {c : Condition}
      (hne : operands ≠ []) (h : DenotesEach context true operands c) :
      Denotes context (.expression .and operands) c
  | or {context : TranslationContext} {operands : List Node} {c : Condition}
      (hne : operands ≠ []) (h : DenotesEach context false operands c) :
      Denotes context (.expression .or operands) c
  | not {context : TranslationContext} {operand : Node} {c : Condition}
      (h : Denotes context operand c) : Denotes context (.expression .not [operand]) (.not c)
  | «exists» {context : TranslationContext} {collection name : String} {body : Node}
      {relation : RelationConfig} {c : Condition} (hrelation : ReadsRelation context collection relation)
      (h : Denotes (enterLambdaScope context collection
        { variableName := name, relationModel := relation.model }) body c) :
      Denotes context
        (.expression .exists [.var collection, .expression .lambda [body, .var name]])
        (.exists relation c)
  | all {context : TranslationContext} {collection name : String} {body : Node}
      {relation : RelationConfig} {c : Condition} (hrelation : ReadsRelation context collection relation)
      (h : Denotes (enterLambdaScope context collection
        { variableName := name, relationModel := relation.model }) body c) :
      Denotes context (.expression .all [.var collection, .expression .lambda [body, .var name]])
        (.all relation c)

/-- The operands of a junction, as a chain that ends in the empty one. -/
inductive DenotesEach : TranslationContext → Bool → List Node → Condition → Prop where
  | nil {context : TranslationContext} {isAnd : Bool} :
      DenotesEach context isAnd [] (.empty isAnd)
  | cons {context : TranslationContext} {isAnd : Bool} {operand : Node} {operands : List Node}
      {first rest : Condition} (hfirst : Denotes context operand first)
      (hrest : DenotesEach context isAnd operands rest) :
      DenotesEach context isAnd (operand :: operands) (.junction isAnd first rest)

end

/-! ## What a translation leaves behind -/

section Simulation

open Condition

variable {ρ : Type} (engine : Engine) (store : Store ρ)

/-- What is recorded with a lambda for a condition in its body: the columns the condition
reads, and when a macro in it is UNKNOWN. -/
structure Records (c : Condition) (negated : Bool) (before after : ScopeRecord) : Prop where
  nullableFields (field : String) :
    field ∈ after.nullableFields ↔ field ∈ before.nullableFields ∨ field ∈ c.columns
  unknownFilters : ∃ new, after.unknownFilters = before.unknownFilters ++ new ∧
    (∀ filter ∈ new, filter.isEmpty = false) ∧
    ∀ r, typed engine store c r →
      ((∃ filter ∈ new, filter.truth engine store r = .yes) ↔ recorded engine store c negated r = true)

/-- The records of a translation, of which only the innermost has changed. -/
def RecordsInnermost (context : TranslationContext) (c : Condition) (negated : Bool)
    (scopes scopes' : List ScopeRecord) : Prop :=
  ∃ update : ScopeRecord → ScopeRecord,
    scopes' = scopes.modify (context.scopes.length - 1) update ∧
      (context.scopes ≠ [] → ∀ before, Records engine store c negated before (update before))

/-- A filter that is what the condition, or its negation, is filtered by. -/
structure Translated (context : TranslationContext) (c : Condition) (negated : Bool)
    (scopes : List ScopeRecord) (filter : PrismaFilter) (scopes' : List ScopeRecord) : Prop where
  isEmpty : filter.isEmpty = false
  truth (r : ρ) (htyped : typed engine store c r) :
    filter.truth engine store r = filtered engine store c negated r
  records : RecordsInnermost engine store context c negated scopes scopes'

variable {engine store} {context : TranslationContext} {c first rest : Condition} {negated : Bool}
  {before middle after : ScopeRecord} {scopes scopes' scopes'' : List ScopeRecord}

theorem RecordsInnermost.length
    (h : RecordsInnermost engine store context c negated scopes scopes') :
    scopes'.length = scopes.length := by
  obtain ⟨update, rfl, -⟩ := h
  exact List.length_modify ..

/-- Nothing is recorded for a condition without columns that is never UNKNOWN. -/
theorem Records.refl (hcolumns : c.columns = [])
    (hrecorded : ∀ r, typed engine store c r → recorded engine store c negated r = false) :
    Records engine store c negated before before where
  nullableFields := by simp [hcolumns]
  unknownFilters := by
    refine ⟨[], by simp, by simp, fun r htyped => ?_⟩
    simp [hrecorded r htyped]

theorem RecordsInnermost.refl (hcolumns : c.columns = [])
    (hrecorded : ∀ r, typed engine store c r → recorded engine store c negated r = false) :
    RecordsInnermost engine store context c negated scopes scopes := by
  refine ⟨id, ?_, fun _ before => Records.refl hcolumns hrecorded⟩
  exact (List.modify_id _ _).symm

/-- What the parts of a junction record, one after the other. -/
theorem Records.junction {isAnd : Bool} (hfirst : Records engine store first negated before middle)
    (hrest : Records engine store rest negated middle after) :
    Records engine store (.junction isAnd first rest) negated before after where
  nullableFields field := by
    rw [hrest.nullableFields, hfirst.nullableFields, or_assoc]
    simp [columns]
  unknownFilters := by
    obtain ⟨new, hnew, hne, hfirst⟩ := hfirst.unknownFilters
    obtain ⟨more, hmore, hne', hrest⟩ := hrest.unknownFilters
    refine ⟨new ++ more, by rw [hmore, hnew, List.append_assoc], ?_, ?_⟩
    · intro filter hfilter
      exact (List.mem_append.mp hfilter).elim (hne filter) (hne' filter)
    · intro r htyped
      simp only [List.mem_append, or_and_right, exists_or, hfirst r htyped.1, hrest r htyped.2,
        recorded, Bool.or_eq_true]

theorem RecordsInnermost.junction {isAnd : Bool}
    (hfirst : RecordsInnermost engine store context first negated scopes scopes')
    (hrest : RecordsInnermost engine store context rest negated scopes' scopes'') :
    RecordsInnermost engine store context (.junction isAnd first rest) negated scopes scopes'' := by
  obtain ⟨update, rfl, hfirst⟩ := hfirst
  obtain ⟨update', rfl, hrest⟩ := hrest
  refine ⟨update' ∘ update, List.modify_modify_eq .., fun hne before => ?_⟩
  exact (hfirst hne before).junction (hrest hne _)

end Simulation

/-! ## Shapes of the conditions -/

/-- What holds of a condition without macros: it visits the names of its columns only, and
no macro of it reads a NULL. -/
structure MacroFree (context : TranslationContext) (names : List String) (c : Condition) :
    Prop where
  visited : ∀ name ∈ names, ∃ field ∈ c.columns, ReadsColumn context name field
  complete {ρ : Type} (engine : Engine) (store : Store ρ) (r : ρ) : c.complete engine store r

theorem MacroFree.junction {context : TranslationContext} {isAnd : Bool} {names more : List String}
    {first rest : Condition} (hfirst : MacroFree context names first)
    (hrest : MacroFree context more rest) :
    MacroFree context (names ++ more) (.junction isAnd first rest) where
  visited name hname := by
    obtain h | h := List.mem_append.mp hname
    · obtain ⟨field, hfield, hreads⟩ := hfirst.visited name h
      exact ⟨field, List.mem_append_left _ hfield, hreads⟩
    · obtain ⟨field, hfield, hreads⟩ := hrest.visited name h
      exact ⟨field, List.mem_append_right _ hfield, hreads⟩
  complete engine store r := ⟨hfirst.complete engine store r, hrest.complete engine store r⟩

theorem MacroFree.compared {context : TranslationContext} {op : ComparisonOperator}
    {name field : String} {v : Literal} (hname : ReadsColumn context name field) :
    MacroFree context [name] (.compared op field v) where
  visited := by
    intro other hother
    obtain rfl := List.mem_singleton.mp hother
    exact ⟨field, List.mem_singleton.mpr rfl, hname⟩
  complete _ _ _ := trivial

theorem DenotesEach.macroFree {context : TranslationContext} {isAnd : Bool} {operands : List Node}
    {c : Condition} (h : DenotesEach context isAnd operands c)
    (hfree : containsCollectionOperatorEach operands = false)
    (ih : ∀ operand ∈ operands, ∀ c, Denotes context operand c →
      containsCollectionOperator operand = false →
      MacroFree context (visitedReferences operand) c) :
    MacroFree context (visitedReferencesEach operands) c := by
  induction operands generalizing c with
  | nil =>
      cases h
      exact ⟨by simp [visitedReferencesEach], fun _ _ _ => trivial⟩
  | cons operand operands ihrest =>
      obtain ⟨hfirst, hrest⟩ := List.forall_mem_cons.mp ih
      rw [containsCollectionOperatorEach, Bool.or_eq_false_iff] at hfree
      cases h with
      | cons hdenotes hdenotesRest =>
          exact (hfirst _ hdenotes hfree.1).junction (ihrest hdenotesRest hfree.2 hrest)

theorem Denotes.macroFree {node : Node} :
    ∀ {context : TranslationContext} {c : Condition}, Denotes context node c →
      containsCollectionOperator node = false →
      MacroFree context (visitedReferences node) c := by
  induction node using Operand.induction with
  | value v => intro context c h; cases h
  | var name => intro context c h; cases h
  | expression operator operands ih =>
      intro context c h hfree
      rw [containsCollectionOperator, Bool.or_eq_false_iff] at hfree
      cases h with
      | compared hop hname hv =>
          rw [visitedReferences, if_neg (by rintro rfl; cases hop)]
          exact MacroFree.compared hname
      | comparedFirst hop hname hv =>
          rw [visitedReferences, if_neg (by rintro rfl; cases hop)]
          exact MacroFree.compared hname
      | and hne h => exact h.macroFree hfree.2 fun o ho c hc => ih o ho hc
      | or hne h => exact h.macroFree hfree.2 fun o ho c hc => ih o ho hc
      | @not _ operand c h =>
          rw [containsCollectionOperatorEach, Bool.or_eq_false_iff] at hfree
          have hoperand := ih operand (List.mem_singleton.mpr rfl) h hfree.2.1
          have hvisited : Prisma.visitedReferences (.expression .not [operand]) =
              Prisma.visitedReferences operand := List.append_nil _
          rw [hvisited]
          exact ⟨hoperand.visited, hoperand.complete⟩
      | «exists» hrelation h => simp [isCollectionOperator] at hfree
      | all hrelation h => simp [isCollectionOperator] at hfree

/-- An expression without macros needs no hop, and its hop lookup records some of its
columns. -/
theorem MacroFree.hops {context : TranslationContext} (hcontext : Entered context) {node : Node}
    {c : Condition} (h : MacroFree context (visitedReferences node) c) :
    (buildExpressionHopsExistFilter node context).result = none ∧
      ∃ fields : List String, (∀ field ∈ fields, field ∈ c.columns) ∧
        (buildExpressionHopsExistFilter node context).Records context fields := by
  obtain ⟨hresult, fields, hfields, hrecords⟩ := hopFilters_records hcontext
    (fun name hname => h.visited name (List.mem_eraseDups.mp hname))
  refine ⟨?_, fields, hfields, ?_⟩
  · simp [buildExpressionHopsExistFilter, hresult]
  · rw [buildExpressionHopsExistFilter, ← List.append_nil fields]
    apply hrecords.bind
    rw [hresult]
    exact Reading.Records.pure context _

/-! ## Translating -/

section Translating

open Condition

variable {ρ : Type} {engine : Engine} {store : Store ρ} {context : TranslationContext}
  {c : Condition} {negated : Bool} {scopes scopes' : List ScopeRecord} {fields : List String}

/-- Recording a column of the condition first changes nothing. -/
theorem RecordsInnermost.of_modify (hfields : ∀ field ∈ fields, field ∈ c.columns)
    (h : RecordsInnermost engine store context c negated
      (scopes.modify (context.scopes.length - 1) (fields.foldl ScopeRecord.addNullable)) scopes') :
    RecordsInnermost engine store context c negated scopes scopes' := by
  obtain ⟨update, rfl, h⟩ := h
  refine ⟨update ∘ fields.foldl ScopeRecord.addNullable, List.modify_modify_eq .., ?_⟩
  intro hne before
  obtain ⟨hnullable, hunknown⟩ := h hne (fields.foldl ScopeRecord.addNullable before)
  refine ⟨fun field => ?_, ?_⟩
  · rw [Function.comp_apply, hnullable, ScopeRecord.mem_foldl_addNullable, or_assoc]
    have hcolumn := hfields field
    tauto
  · rwa [ScopeRecord.foldl_addNullable_unknownFilters] at hunknown

/-- Recording a column of the condition once more changes nothing. -/
theorem RecordsInnermost.modify (hfields : ∀ field ∈ fields, field ∈ c.columns)
    (h : RecordsInnermost engine store context c negated scopes scopes') :
    RecordsInnermost engine store context c negated scopes
      (scopes'.modify (context.scopes.length - 1) (fields.foldl ScopeRecord.addNullable)) := by
  obtain ⟨update, rfl, h⟩ := h
  refine ⟨fields.foldl ScopeRecord.addNullable ∘ update, List.modify_modify_eq .., ?_⟩
  intro hne before
  obtain ⟨hnullable, hunknown⟩ := h hne before
  refine ⟨fun field => ?_, ?_⟩
  · rw [Function.comp_apply, ScopeRecord.mem_foldl_addNullable, hnullable, or_assoc]
    have hcolumn := hfields field
    tauto
  · rwa [Function.comp_apply, ScopeRecord.foldl_addNullable_unknownFilters]

/-- A comparison records its column. -/
theorem RecordsInnermost.compared {op : ComparisonOperator} {field : String} {v : Literal} :
    RecordsInnermost engine store context (.compared op field v) negated scopes
      (scopes.modify (context.scopes.length - 1) ([field].foldl ScopeRecord.addNullable)) := by
  refine ⟨_, rfl, fun _ before => ⟨fun column => ?_, ?_⟩⟩
  · rw [ScopeRecord.mem_foldl_addNullable]
    rfl
  · refine ⟨[], ?_, by simp, by simp [recorded]⟩
    rw [ScopeRecord.foldl_addNullable_unknownFilters, List.append_nil]

/-- A translation, by a builder, of every condition in one direction or the other. -/
def Builder.build (b : Builder) (negated : Bool) (node : Node) (context : TranslationContext) :
    Translation PrismaFilter :=
  if negated then b.negative node context else b.positive node context

/-- A builder that translates conditions into filters that say the same. -/
def Builder.Sound (engine : Engine) (store : Store ρ) (b : Builder) : Prop :=
  ∀ {context : TranslationContext} {node : Node} {c : Condition} (negated : Bool)
    {scopes scopes' : List ScopeRecord} {filter : PrismaFilter},
    Entered context → Denotes context node c → scopes.length = context.scopes.length →
    b.build negated node context scopes = .ok (filter, scopes') →
    Translated engine store context c negated scopes filter scopes'

variable {b : Builder}

/-- Comparing a column with a constant. -/
theorem translated_comparison {op : ComparisonOperator} {name field : String} {v : Literal}
    {filter : PrismaFilter} (hcontext : Entered context) (hname : ReadsColumn context name field)
    (hv : isComparable v = true) (hlength : scopes.length = context.scopes.length)
    (hrun : (do
      let fieldRef ← reading (resolveFieldReference name context)
      buildComparisonFilter context fieldRef op v : Translation PrismaFilter) scopes =
        .ok (filter, scopes')) :
    Translated engine store context (.compared op field v) false scopes filter scopes' := by
  obtain ⟨fieldRef, middle, hread, hrun⟩ := Translation.bind_eq_ok_iff.mp hrun
  obtain ⟨rfl, rfl⟩ := (reading_eq_ok_iff (hname.records hcontext) hlength).mp hread
  obtain ⟨hfilter, rfl⟩ := Translation.lift_eq_ok_iff.mp hrun
  have hcolumn : (resolveFieldReference name context).result.IsColumn field :=
    ⟨hname.direct, hname.path, hname.ne_empty, hname.omitted⟩
  have hcompares : Compares engine op field v filter :=
    compares_buildComparisonFilter hcolumn hv hfilter
  exact ⟨hcompares.isEmpty, fun r htyped => hcompares.truth store r htyped,
    RecordsInnermost.compared⟩

/-- A column is compared with a constant, in either order. -/
theorem relationalOperator_column (operator : PlanOperator) (op : ComparisonOperator)
    (name : String) (v : Literal) (context : TranslationContext) :
    b.relationalOperator operator op [.var name, .value v] context = (do
        let fieldRef ← reading (resolveFieldReference name context)
        buildComparisonFilter context fieldRef op v) ∧
      b.relationalOperator operator op [.value v, .var name] context = (do
        let fieldRef ← reading (resolveFieldReference name context)
        buildComparisonFilter context fieldRef op.mirrored v) := by
  constructor
  all_goals
    rw [Builder.relationalOperator, isTernaryComparison, isEqualityOver, isEqualityOver]
    simp only [List.any_cons, List.any_nil, isTernary, isMapLiteralLookup, isUpperAscii,
      Bool.or_false, Bool.and_false]
    rfl

/-- A junction of the values of its operands. -/
def junctionTruth (isAnd : Bool) (ts : List Truth) : Truth :=
  if isAnd then Truth.all ts else Truth.any ts

/-- The operands of a junction, translated in one direction. -/
theorem translated_operands (hb : b.Sound engine store) (hcontext : Entered context)
    {isAnd : Bool} {operands : List Node} {filters : List PrismaFilter}
    (h : DenotesEach context isAnd operands c) (hlength : scopes.length = context.scopes.length)
    (hrun : operands.mapM (fun operand => b.build negated operand context) scopes =
      .ok (filters, scopes')) :
    (∀ r, typed engine store c r →
      junctionTruth (isAnd ^^ negated) (filters.map fun filter => filter.truth engine store r) =
        filtered engine store c negated r) ∧
      RecordsInnermost engine store context c negated scopes scopes' := by
  induction operands generalizing c filters scopes with
  | nil =>
      cases h
      obtain ⟨rfl, rfl⟩ := Translation.pure_eq_ok_iff.mp hrun
      refine ⟨fun r _ => ?_, RecordsInnermost.refl rfl fun _ _ => rfl⟩
      cases isAnd <;> cases negated <;> rfl
  | cons operand operands ih =>
      cases h with
      | @cons _ _ _ _ first rest hfirst hrest =>
          rw [List.mapM_cons] at hrun
          obtain ⟨filter, middle, hoperand, hrun⟩ := Translation.bind_eq_ok_iff.mp hrun
          obtain ⟨others, last, hoperands, hrun⟩ := Translation.bind_eq_ok_iff.mp hrun
          obtain ⟨rfl, rfl⟩ := Translation.pure_eq_ok_iff.mp hrun
          have htranslated := hb negated hcontext hfirst hlength hoperand
          have hmiddle : middle.length = context.scopes.length :=
            htranslated.records.length.trans hlength
          obtain ⟨htruth, hrecords⟩ := ih hrest hmiddle hoperands
          refine ⟨fun r htyped => ?_, htranslated.records.junction hrecords⟩
          rw [filtered, ← htranslated.truth r htyped.1, ← htruth r htyped.2]
          cases isAnd <;> cases negated <;> rfl

/-- The negation of a filter that holds exactly where its condition does. -/
theorem translated_plainNegation (hb : b.Sound engine store) (hcontext : Entered context)
    {node : Node} {filter : PrismaFilter} (h : Denotes context node c)
    (hfree : containsCollectionOperator node = false)
    (hlength : scopes.length = context.scopes.length)
    (hrun : b.plainNegation node context scopes = .ok (filter, scopes')) :
    Translated engine store context c true scopes filter scopes' := by
  have hmacroFree := h.macroFree hfree
  obtain ⟨hnone, fields, hfields, hrecords⟩ := hmacroFree.hops hcontext
  obtain ⟨positive, middle, hpositive, hrun⟩ := Translation.bind_eq_ok_iff.mp hrun
  have htranslated := hb false hcontext h hlength hpositive
  have hmiddle : middle.length = context.scopes.length := htranslated.records.length.trans hlength
  obtain ⟨hops, last, hread, hrun⟩ := Translation.bind_eq_ok_iff.mp hrun
  obtain ⟨rfl, rfl⟩ := (reading_eq_ok_iff hrecords hmiddle).mp hread
  obtain ⟨negation, last, hnegate, hrun⟩ := Translation.bind_eq_ok_iff.mp hrun
  obtain ⟨hnegation, rfl⟩ := Translation.lift_eq_ok_iff.mp hnegate
  obtain ⟨rfl, rfl⟩ := Translation.pure_eq_ok_iff.mp hrun
  rw [negateFilter, if_neg (by simp [htranslated.isEmpty]), Except.ok.injEq] at hnegation
  subst hnegation
  rw [hnone]
  have hcomplete := hmacroFree.complete engine store
  refine ⟨rfl, fun r htyped => ?_, ?_⟩
  · rw [Option.elim_none, PrismaFilter.truth_NOT htranslated.isEmpty, htranslated.truth r htyped,
      filtered_of_complete false htyped (hcomplete r), filtered_of_complete true htyped (hcomplete r)]
    rfl
  · obtain ⟨update, hupdate, hrecords⟩ := htranslated.records.modify hfields
    refine ⟨update, hupdate, fun hne before => ?_⟩
    obtain ⟨hnullable, new, hnew, hne', hunknown⟩ := hrecords hne before
    refine ⟨hnullable, new, hnew, hne', fun r htyped => ?_⟩
    rw [hunknown r htyped, recorded_of_complete (hcomplete r), recorded_of_complete (hcomplete r)]

/-- The parts of a macro over a relation, with its body translated. -/
structure MacroParts (engine : Engine) (store : Store ρ) (relation : RelationConfig)
    (body : Condition) (parts : CollectionLambdaParts) : Prop where
  head : parts.head = relation
  restRelations : parts.restRelations = []
  filterValue : parts.filterValue = parts.elementFilter
  isEmpty : parts.elementFilter.isEmpty = false
  truth (e : ρ) (htyped : typed engine store body e) :
    parts.elementFilter.truth engine store e = filtered engine store body false e
  records : Records engine store body false {}
    { nullableFields := parts.nullableFields, unknownFilters := parts.unknownFilters }

/-- Translating the body of a macro leaves the records of the enclosing lambdas alone. -/
theorem translated_parts (hb : b.Sound engine store) (hcontext : Entered context)
    {operator : PlanOperator} {collection name : String} {body : Node} {relation : RelationConfig}
    {parts : CollectionLambdaParts} (hrelation : ReadsRelation context collection relation)
    (h : Denotes (enterLambdaScope context collection
      { variableName := name, relationModel := relation.model }) body c)
    (hlength : scopes.length = context.scopes.length)
    (hrun : b.buildCollectionLambdaParts operator
      [.var collection, .expression .lambda [body, .var name]] context scopes =
        .ok (parts, scopes')) :
    MacroParts engine store relation c parts ∧ scopes' = scopes := by
  obtain ⟨hrelations, -, htype⟩ := hrelation.resolve hcontext
  rw [Builder.buildCollectionLambdaParts] at hrun
  obtain ⟨lambda, start, hlambda, hrun⟩ := Translation.bind_eq_ok_iff.mp hrun
  obtain ⟨hoperands, rfl⟩ := Translation.lift_eq_ok_iff.mp hlambda
  obtain rfl : (body, name) = lambda := Except.ok.inj hoperands
  obtain ⟨reference, middle, hread, hrun⟩ := Translation.bind_eq_ok_iff.mp hrun
  obtain ⟨rfl, rfl⟩ := (reading_eq_ok_iff (hrelation.records hcontext) hlength).mp hread
  obtain ⟨relations, middle, hlift, hrun⟩ := Translation.bind_eq_ok_iff.mp hrun
  obtain ⟨hcollection, rfl⟩ := Translation.lift_eq_ok_iff.mp hlift
  obtain rfl : (relation, []) = relations := by
    simpa [hrelations, Builder.collectionRelations, htype] using hcollection
  have hunchanged : start.modify (context.scopes.length - 1) (fun record =>
      [].foldl ScopeRecord.addNullable record) = start := List.modify_id ..
  obtain ⟨⟨condition, record⟩, middle, hscope, hrun⟩ := Translation.bind_eq_ok_iff.mp hrun
  obtain ⟨rfl, rfl⟩ := Translation.pure_eq_ok_iff.mp hrun
  obtain ⟨last, hbody, rfl, rfl⟩ := Translation.withLambdaScope_eq_ok_iff.mp hscope
  rw [hunchanged] at hbody
  have hdepth : (enterLambdaScope context collection
      { variableName := name, relationModel := relation.model }).scopes.length =
        context.scopes.length + 1 := List.length_append
  have htranslated := hb false (.lambda hcontext hrelation name) h (by simp [hdepth, hlength]) hbody
  obtain ⟨update, hlast, hrecords⟩ := htranslated.records
  have hinnermost : last = start ++ [update {}] := by
    rw [hlast, hdepth, Nat.add_sub_cancel, ← hlength, List.modify_eq_take_drop]
    simp
  refine ⟨⟨rfl, rfl, rfl, htranslated.isEmpty, htranslated.truth, ?_⟩, ?_⟩
  · simpa [hinnermost] using hrecords (by simp [enterLambdaScope]) {}
  · simp [hinnermost]

namespace MacroParts

variable {relation : RelationConfig} {parts : CollectionLambdaParts} {r e : ρ}

variable (h : MacroParts engine store relation c parts)
include h

/-- The columns recorded with the body are those it reads. -/
theorem mem_nullableFields {field : String} :
    field ∈ parts.nullableFields ↔ field ∈ c.columns := by
  simpa using h.records.nullableFields field

theorem witness : (buildNullWitnessFilter parts.nullableFields).truth engine store e = .yes ↔
      readsNull store c e = true := by
  simp only [truth_buildNullWitnessFilter, h.mem_nullableFields, readsNull, List.any_eq_true]

theorem readsNull_of_isEmpty
    (hempty : parts.nullableFields.isEmpty = true) (e : ρ) : readsNull store c e = false := by
  rw [readsNull, List.any_eq_false]
  intro field hfield
  have hmem := h.mem_nullableFields.mpr hfield
  simp [List.isEmpty_iff.mp hempty] at hmem

/-- The recorded filters of a body say when a macro in it is UNKNOWN. -/
theorem unknownFilters : (∀ filter ∈ parts.unknownFilters, filter.isEmpty = false) ∧
      ∀ e, typed engine store c e →
        ((∃ filter ∈ parts.unknownFilters, filter.truth engine store e = .yes) ↔
          recorded engine store c false e = true) := by
  obtain ⟨new, hnew, hne, hunknown⟩ := h.records.unknownFilters
  obtain rfl : parts.unknownFilters = new := by simpa using hnew
  exact ⟨hne, hunknown⟩

/-- Without a filter for it, the body is never UNKNOWN. -/
theorem unknownElement_none
    (hnone : buildUnknownElementFilter parts = none) (htyped : typed engine store c e) :
    (recorded engine store c false e || readsNull store c e) = false := by
  have hempty : parts.unknownFilters = [] ∧ parts.nullableFields.isEmpty = true := by
    rw [buildUnknownElementFilter] at hnone
    split at hnone
    next hfilters =>
      obtain ⟨hunknown, hwitness⟩ := List.append_eq_nil_iff.mp hfilters
      refine ⟨hunknown, ?_⟩
      by_contra hsome
      simp [hsome] at hwitness
    next => cases hnone
    next => cases hnone
  have hrecorded : ¬recorded engine store c false e = true := by
    rw [← h.unknownFilters.2 e htyped, hempty.1]
    simp
  simp [hrecorded, h.readsNull_of_isEmpty hempty.2 e]

/-- The filter for an UNKNOWN body holds of the elements the body is UNKNOWN on. -/
theorem unknownElement_some {filter : PrismaFilter}
    (hsome : buildUnknownElementFilter parts = some filter) :
    filter.isEmpty = false ∧ ∀ e, typed engine store c e →
      (filter.truth engine store e = .yes ↔
        (recorded engine store c false e || readsNull store c e) = true) := by
  obtain ⟨hne, hunknown⟩ := h.unknownFilters
  have hwitness : ∀ other ∈ (if parts.nullableFields.isEmpty then []
      else [buildNullWitnessFilter parts.nullableFields]),
      other = buildNullWitnessFilter parts.nullableFields := by
    split <;> simp
  have hiff : ∀ e, typed engine store c e →
      ((∃ other ∈ parts.unknownFilters ++ (if parts.nullableFields.isEmpty then []
        else [buildNullWitnessFilter parts.nullableFields]), other.truth engine store e = .yes) ↔
        (recorded engine store c false e || readsNull store c e) = true) := by
    intro e htyped
    simp only [List.mem_append, or_and_right, exists_or, hunknown e htyped, Bool.or_eq_true]
    refine or_congr_right ?_
    split
    next hempty => simp [h.readsNull_of_isEmpty hempty e]
    next => simp [h.witness]
  have hisEmpty : ∀ other ∈ parts.unknownFilters ++ (if parts.nullableFields.isEmpty then []
      else [buildNullWitnessFilter parts.nullableFields]), other.isEmpty = false := by
    intro other hother
    obtain hother | hother := List.mem_append.mp hother
    · exact hne other hother
    · rw [hwitness other hother]
      exact buildNullWitnessFilter_isEmpty _
  rw [buildUnknownElementFilter] at hsome
  split at hsome
  next => cases hsome
  next single hfilters =>
    obtain rfl := Option.some.inj hsome
    rw [hfilters] at hiff hisEmpty
    refine ⟨hisEmpty single (List.mem_singleton.mpr rfl), fun e htyped => ?_⟩
    rw [← hiff e htyped]
    simp
  next filters _ _ =>
    obtain rfl := Option.some.inj hsome
    refine ⟨rfl, fun e htyped => ?_⟩
    rw [← hiff e htyped, PrismaFilter.truth_OR, Truth.any_eq_yes_iff, List.mem_map]

theorem wrapCollectionElementFilter (filter : PrismaFilter) :
    wrapCollectionElementFilter parts filter = relationFilter relation .some filter := by
  simp [Prisma.wrapCollectionElementFilter, h.head, h.restRelations, wrapInRelations]

end MacroParts

section Macros

variable {relation : RelationConfig} {parts : CollectionLambdaParts} {filter : PrismaFilter}

theorem truth_exists (h : MacroParts engine store relation c parts) {r : ρ}
    (htyped : ∀ e ∈ visible engine store relation r, typed engine store c e) :
    (relationFilter relation .some parts.elementFilter).truth engine store r =
      filtered engine store (.exists relation c) false r := by
  rw [truth_relationFilter_some h.isEmpty, filtered]
  congr 1
  rw [Bool.eq_iff_iff]
  simp only [List.any_eq_true, decide_eq_true_eq]
  refine exists_congr fun e => and_congr_right fun he => ?_
  rw [h.truth e (htyped e he)]

theorem truth_wrap_yes_iff {r : ρ} (hempty : filter.isEmpty = false) :
    (relationFilter relation .some filter).truth engine store r = .yes ↔
      ∃ e ∈ visible engine store relation r, filter.truth engine store e = .yes := by
  rw [truth_relationFilter_some hempty]
  simp

theorem recordUnknown_eq_ok (hlength : scopes.length = context.scopes.length)
    (hrun : recordUnknown context filter scopes = .ok ((), scopes')) :
    scopes' = scopes.modify (context.scopes.length - 1) (·.addUnknown filter) := by
  rw [recordUnknown] at hrun
  split at hrun
  next hroot =>
    obtain ⟨-, rfl⟩ := Translation.pure_eq_ok_iff.mp hrun
    have hnone : scopes = [] := by simpa [List.isEmpty_iff.mp hroot] using hlength
    simp [hnone]
  next => exact (Prod.mk.inj (Except.ok.inj hrun)).2.symm

/-- `exists`, with what is recorded with the enclosing lambda. -/
theorem translated_exists (h : MacroParts engine store relation c parts)
    (hlength : scopes.length = context.scopes.length)
    (hrun : positiveCollectionFilter .exists parts context scopes = .ok (filter, scopes')) :
    Translated engine store context (.exists relation c) false scopes filter scopes' := by
  have hcolumns : (Condition.exists relation c).columns = [] := rfl
  rw [positiveCollectionFilter, h.head, h.filterValue] at hrun
  have htruth : ∀ r, typed engine store (.exists relation c) r →
      (relationFilter relation .some parts.elementFilter).truth engine store r =
        filtered engine store (.exists relation c) false r := fun r htyped => truth_exists h htyped
  have hisEmpty : (relationFilter relation .some parts.elementFilter).isEmpty = false := by
    rw [relationFilter]
    cases relation.subqueryFilter <;> rfl
  cases hunknown : buildUnknownElementFilter parts with
  | none =>
      simp only [hunknown] at hrun
      obtain ⟨rfl, rfl⟩ := Translation.pure_eq_ok_iff.mp hrun
      refine ⟨hisEmpty, htruth, RecordsInnermost.refl hcolumns fun r htyped => ?_⟩
      have hnone : ((visible engine store relation r).any fun e =>
          recorded engine store c false e || readsNull store c e) = false := by
        rw [List.any_eq_false]
        intro e he
        simp [h.unknownElement_none hunknown (htyped e he)]
      simp [recorded, hnone]
  | some unknownElement =>
      simp only [hunknown] at hrun
      obtain ⟨⟨⟩, middle, hrecord, hrun⟩ := Translation.bind_eq_ok_iff.mp hrun
      obtain ⟨rfl, rfl⟩ := Translation.pure_eq_ok_iff.mp hrun
      refine ⟨hisEmpty, htruth, (·.addUnknown _), recordUnknown_eq_ok hlength hrecord, ?_⟩
      refine fun _ before => ⟨by simp [hcolumns, ScopeRecord.addUnknown], _, rfl, ?_, ?_⟩
      · simp [PrismaFilter.isEmpty]
      intro r htyped
      obtain ⟨hne, hunknown⟩ := h.unknownElement_some hunknown
      have hwrapped : (∃ e ∈ visible engine store relation r,
          unknownElement.truth engine store e = .yes) ↔
            ((visible engine store relation r).any fun e =>
              recorded engine store c false e || readsNull store c e) = true := by
        rw [List.any_eq_true]
        exact exists_congr fun e => and_congr_right fun he => hunknown e (htyped e he)
      simp only [List.mem_singleton, exists_eq_left, PrismaFilter.truth_AND, List.map_cons,
        List.map_nil, Truth.all_cons, Truth.all_nil, Truth.and_yes, Truth.and_eq_yes_iff,
        PrismaFilter.truth_NOT hisEmpty, Truth.not_eq_yes_iff, h.wrapCollectionElementFilter,
        truth_wrap_yes_iff hne, hwrapped, htruth r htyped]
      simp [filtered, recorded]

theorem relationFilter_isEmpty (operator : RelationOperator) (inner : PrismaFilter) :
    (relationFilter relation operator inner).isEmpty = false := by
  rw [relationFilter]
  split
  next => rfl
  next => split <;> (try split) <;> rfl

/-- `all`, which holds of no element with a NULL. -/
theorem translated_all (h : MacroParts engine store relation c parts)
    (hrun : positiveCollectionFilter .all parts context scopes = .ok (filter, scopes')) :
    Translated engine store context (.all relation c) false scopes filter scopes' := by
  have hfilter : filter = excludeNullElements
      (relationFilter relation .every parts.elementFilter) parts ∧ scopes' = scopes := by
    rw [positiveCollectionFilter, h.head, h.filterValue, h.restRelations] at hrun
    obtain ⟨hfilter, hscopes⟩ := Translation.pure_eq_ok_iff.mp hrun
    exact ⟨hfilter.symm, hscopes.symm⟩
  obtain ⟨rfl, rfl⟩ := hfilter
  have hevery : ∀ r, typed engine store (.all relation c) r →
      (relationFilter relation .every parts.elementFilter).truth engine store r =
        .ofBool ((visible engine store relation r).all fun e =>
          filtered engine store c false e ≠ .no) := by
    intro r htyped
    rw [truth_relationFilter_every h.isEmpty]
    congr 1
    rw [Bool.eq_iff_iff]
    simp only [List.all_eq_true]
    refine forall₂_congr fun e he => ?_
    rw [h.truth e (htyped e he)]
  refine ⟨?_, fun r htyped => ?_, RecordsInnermost.refl rfl fun _ _ => rfl⟩
  · rw [excludeNullElements]
    split
    next => exact relationFilter_isEmpty ..
    next => rfl
  · rw [excludeNullElements, filtered]
    split
    next hempty =>
      simp [hevery r htyped, h.readsNull_of_isEmpty hempty]
    next =>
      have hnone : (relationFilter relation .none
          (buildNullWitnessFilter parts.nullableFields)).truth engine store r =
            .ofBool ((visible engine store relation r).all fun e => !readsNull store c e) := by
        rw [truth_relationFilter_none (buildNullWitnessFilter_isEmpty _)]
        congr 1
        rw [Bool.eq_iff_iff]
        simp [h.witness]
      rw [PrismaFilter.truth_AND, List.map_cons, List.map_singleton, h.head, hnone,
        hevery r htyped]
      simp only [Truth.all_cons, Truth.all_nil, Truth.and_yes, Truth.and_ofBool,
        Bool.false_eq_true, if_false]
      congr 1
      rw [Bool.eq_iff_iff]
      simp only [Bool.and_eq_true, List.all_eq_true]
      exact ⟨fun hboth e he => ⟨hboth.1 e he, hboth.2 e he⟩,
        fun hboth => ⟨fun e he => (hboth e he).1, fun e he => (hboth e he).2⟩⟩

/-- The negation of `exists`, which excludes the elements its body is UNKNOWN on. -/
theorem translated_not_exists (h : MacroParts engine store relation c parts)
    (hrun : negatedCollectionFilter .exists parts scopes = .ok (filter, scopes')) :
    Translated engine store context (.exists relation c) true scopes filter scopes' := by
  have hleading : buildLeadingHopsExistFilter parts.head parts.restRelations = none := by
    simp [buildLeadingHopsExistFilter, h.restRelations]
  have hisEmpty : (relationFilter relation .some parts.elementFilter).isEmpty = false :=
    relationFilter_isEmpty ..
  have hbase : ∀ r, typed engine store (.exists relation c) r →
      (PrismaFilter.NOT (relationFilter relation .some parts.elementFilter)).truth engine store r =
        .ofBool ((visible engine store relation r).all fun e =>
          filtered engine store c false e ≠ .yes) := by
    intro r htyped
    rw [PrismaFilter.truth_NOT hisEmpty, truth_exists h htyped, filtered]
    simp only [Bool.false_eq_true, if_false, Truth.not_ofBool]
    congr 1
    rw [Bool.eq_iff_iff]
    simp
  rw [negatedCollectionFilter, hleading, h.head, h.filterValue] at hrun
  cases hunknown : buildUnknownElementFilter parts with
  | none =>
      simp only [hunknown] at hrun
      obtain ⟨rfl, rfl⟩ := Translation.pure_eq_ok_iff.mp hrun
      refine ⟨rfl, fun r htyped => ?_, RecordsInnermost.refl rfl fun _ _ => by simp [recorded]⟩
      rw [Option.elim_none, hbase r htyped, filtered]
      simp only [if_true]
      congr 1
      rw [Bool.eq_iff_iff]
      simp only [List.all_eq_true]
      refine forall₂_congr fun e he => ?_
      simp [h.unknownElement_none hunknown (htyped e he)]
  | some unknownElement =>
      simp only [hunknown] at hrun
      obtain ⟨rfl, rfl⟩ := Translation.pure_eq_ok_iff.mp hrun
      obtain ⟨hne, hiff⟩ := h.unknownElement_some hunknown
      refine ⟨rfl, fun r htyped => ?_, RecordsInnermost.refl rfl fun _ _ => by simp [recorded]⟩
      have hwrapped : (relationFilter relation .some unknownElement).truth engine store r =
          .ofBool ((visible engine store relation r).any fun e =>
            recorded engine store c false e || readsNull store c e) := by
        rw [truth_relationFilter_some hne]
        congr 1
        rw [Bool.eq_iff_iff]
        simp only [List.any_eq_true, decide_eq_true_eq]
        exact exists_congr fun e => and_congr_right fun he => hiff e (htyped e he)
      rw [Option.elim_none, PrismaFilter.truth_AND, List.map_cons, List.map_singleton,
        h.wrapCollectionElementFilter, hbase r htyped,
        PrismaFilter.truth_NOT (relationFilter_isEmpty ..), hwrapped, filtered]
      simp only [Truth.all_cons, Truth.all_nil, Truth.and_yes, Truth.and_ofBool, Truth.not_ofBool,
        if_true]
      congr 1
      rw [Bool.eq_iff_iff]
      simp only [Bool.and_eq_true, List.all_eq_true, Bool.not_eq_true', List.any_eq_false]
      exact ⟨fun hboth e he => ⟨hboth.1 e he, by simpa using hboth.2 e he⟩,
        fun hboth => ⟨fun e he => (hboth e he).1, fun e he => by simpa using (hboth e he).2⟩⟩

/-- The negation of `all`. -/
theorem translated_not_all (h : MacroParts engine store relation c parts)
    (hrun : negatedCollectionFilter .all parts scopes = .ok (filter, scopes')) :
    Translated engine store context (.all relation c) true scopes filter scopes' := by
  rw [negatedCollectionFilter] at hrun
  obtain ⟨negation, middle, hnegate, hwrap⟩ := Translation.bind_eq_ok_iff.mp hrun
  obtain ⟨hnegation, rfl⟩ := Translation.lift_eq_ok_iff.mp hnegate
  obtain ⟨rfl, rfl⟩ := Translation.pure_eq_ok_iff.mp hwrap
  rw [negateFilter, if_neg (by simp [h.isEmpty]), Except.ok.injEq] at hnegation
  subst hnegation
  rw [h.wrapCollectionElementFilter]
  refine ⟨relationFilter_isEmpty .., fun r htyped => ?_, RecordsInnermost.refl rfl fun _ _ => rfl⟩
  rw [truth_relationFilter_some rfl, filtered]
  simp only [if_true]
  congr 1
  rw [Bool.eq_iff_iff]
  simp only [List.any_eq_true, decide_eq_true_eq]
  refine exists_congr fun e => and_congr_right fun he => ?_
  rw [PrismaFilter.truth_NOT h.isEmpty, Truth.not_eq_yes_iff, h.truth e (htyped e he)]

end Macros

/-- A junction in either direction, as the junction of its translated operands. -/
theorem translated_junction (hb : b.Sound engine store) (hcontext : Entered context)
    {isAnd : Bool} {operands : List Node} {filter : PrismaFilter}
    (h : DenotesEach context isAnd operands c) (hlength : scopes.length = context.scopes.length)
    (hrun : (do
      let filters ← operands.mapM fun operand => b.build negated operand context
      return if isAnd ^^ negated then PrismaFilter.AND filters else .OR filters :
        Translation PrismaFilter) scopes = .ok (filter, scopes')) :
    Translated engine store context c negated scopes filter scopes' := by
  obtain ⟨filters, last, hoperands, hreturn⟩ := Translation.bind_eq_ok_iff.mp hrun
  obtain ⟨rfl, rfl⟩ := Translation.pure_eq_ok_iff.mp hreturn
  obtain ⟨htruth, hrecords⟩ := translated_operands hb hcontext h hlength hoperands
  refine ⟨by split <;> rfl, fun r htyped => ?_, hrecords⟩
  rw [← htruth r htyped, junctionTruth]
  split
  next => rw [PrismaFilter.truth_AND]
  next => rw [PrismaFilter.truth_OR]

/-- A macro in either direction. -/
theorem translated_quantifier (hb : b.Sound engine store) (hcontext : Entered context)
    {collection name : String} {body : Node} {relation : RelationConfig} {filter : PrismaFilter}
    (hrelation : ReadsRelation context collection relation)
    (h : Denotes (enterLambdaScope context collection
      { variableName := name, relationModel := relation.model }) body c)
    (hlength : scopes.length = context.scopes.length) :
    (b.collectionMacro .exists [.var collection, .expression .lambda [body, .var name]] context
        negated scopes = .ok (filter, scopes') →
      Translated engine store context (.exists relation c) negated scopes filter scopes') ∧
    (b.collectionMacro .all [.var collection, .expression .lambda [body, .var name]] context
        negated scopes = .ok (filter, scopes') →
      Translated engine store context (.all relation c) negated scopes filter scopes') := by
  constructor
  · intro hrun
    obtain ⟨parts, middle, hbuild, hbuilds⟩ := Translation.bind_eq_ok_iff.mp hrun
    obtain ⟨hparts, rfl⟩ := translated_parts hb hcontext hrelation h hlength hbuild
    cases negated with
    | false => exact translated_exists hparts hlength hbuilds
    | true => exact translated_not_exists hparts hbuilds
  · intro hrun
    obtain ⟨parts, middle, hbuild, hbuilds⟩ := Translation.bind_eq_ok_iff.mp hrun
    obtain ⟨hparts, rfl⟩ := translated_parts hb hcontext hrelation h hlength hbuild
    cases negated with
    | false => exact translated_all hparts hbuilds
    | true => exact translated_not_all hparts hbuilds

theorem RecordsInnermost.not
    (h : RecordsInnermost engine store context c (!negated) scopes scopes') :
    RecordsInnermost engine store context (.not c) negated scopes scopes' := by
  obtain ⟨update, hupdate, h⟩ := h
  exact ⟨update, hupdate, fun hne before =>
    ⟨(h hne before).nullableFields, (h hne before).unknownFilters⟩⟩

theorem Translated.not {filter : PrismaFilter}
    (h : Translated engine store context c (!negated) scopes filter scopes') :
    Translated engine store context (.not c) negated scopes filter scopes' :=
  ⟨h.isEmpty, h.truth, h.records.not⟩

/-- One step of the translation of a condition. -/
theorem translated_positiveStep (hb : b.Sound engine store) (hcontext : Entered context)
    {node : Node} {filter : PrismaFilter} (h : Denotes context node c)
    (hlength : scopes.length = context.scopes.length)
    (hrun : b.positiveStep node context scopes = .ok (filter, scopes')) :
    Translated engine store context c false scopes filter scopes' := by
  cases h with
  | @compared _ operator op name field v hop hname hv =>
      have hstep : b.positiveStep (.expression operator [.var name, .value v]) context =
          b.relationalOperator operator op [.var name, .value v] context := by
        cases operator <;> simp [comparisonOperator] at hop <;> subst hop <;> rfl
      rw [hstep, (relationalOperator_column ..).1] at hrun
      exact translated_comparison hcontext hname hv hlength hrun
  | @comparedFirst _ operator op name field v hop hname hv =>
      have hstep : b.positiveStep (.expression operator [.value v, .var name]) context =
          b.relationalOperator operator op [.value v, .var name] context := by
        cases operator <;> simp [comparisonOperator] at hop <;> subst hop <;> rfl
      rw [hstep, (relationalOperator_column ..).2] at hrun
      exact translated_comparison hcontext hname hv hlength hrun
  | @and _ operands _ hne h =>
      have hstep : b.positiveStep (.expression .and operands) context = (do
          let filters ← operands.mapM fun operand => b.build false operand context
          return .AND filters) := by
        cases operands with
        | nil => exact absurd rfl hne
        | cons => rfl
      rw [hstep] at hrun
      exact translated_junction hb hcontext h hlength hrun
  | @or _ operands _ hne h =>
      have hstep : b.positiveStep (.expression .or operands) context = (do
          let filters ← operands.mapM fun operand => b.build false operand context
          return .OR filters) := by
        cases operands with
        | nil => exact absurd rfl hne
        | cons => rfl
      rw [hstep] at hrun
      exact translated_junction hb hcontext h hlength hrun
  | not h => exact (hb true hcontext h hlength hrun).not
  | «exists» hrelation h => exact (translated_quantifier hb hcontext hrelation h hlength).1 hrun
  | all hrelation h => exact (translated_quantifier hb hcontext hrelation h hlength).2 hrun

/-- The negation that is pushed into an expression when it has to be, and else is plain. -/
theorem translated_negation (hb : b.Sound engine store) (hcontext : Entered context)
    {node : Node} {filter : PrismaFilter} (h : Denotes context node c)
    {pushed : Translation PrismaFilter}
    (hpushed : pushed scopes = .ok (filter, scopes') →
      Translated engine store context c true scopes filter scopes')
    (hlength : scopes.length = context.scopes.length)
    (hrun : (do
      let pushes ←
        if containsCollectionOperator node || containsMapLiteralLookup node then pure true
        else reading (referencesRequiredHop node context)
      if !pushes then b.plainNegation node context else pushed : Translation PrismaFilter) scopes =
        .ok (filter, scopes')) :
    Translated engine store context c true scopes filter scopes' := by
  cases hpushes : containsCollectionOperator node || containsMapLiteralLookup node with
  | true =>
    rw [hpushes] at hrun
    exact hpushed hrun
  | false =>
    rw [hpushes] at hrun
    have hfree : containsCollectionOperator node = false := (Bool.or_eq_false_iff.mp hpushes).1
    obtain ⟨required, middle, hread, hnegate⟩ := Translation.bind_eq_ok_iff.mp hrun
    obtain ⟨hnone, fields, hfields, hrecords⟩ := (h.macroFree hfree).hops hcontext
    have hrequired : (referencesRequiredHop node context).Records context (fields ++ []) :=
      hrecords.bind (Reading.Records.pure context _)
    rw [List.append_nil] at hrequired
    obtain ⟨rfl, rfl⟩ := (reading_eq_ok_iff hrequired hlength).mp hread
    rw [referencesRequiredHop, Reading.bind_result, hnone] at hnegate
    have hplain := translated_plainNegation hb hcontext h hfree
      ((List.length_modify ..).trans hlength) hnegate
    exact ⟨hplain.isEmpty, hplain.truth, hplain.records.of_modify hfields⟩

theorem translated_negativeStep (hb : b.Sound engine store) (hcontext : Entered context)
    {node : Node} {filter : PrismaFilter} (h : Denotes context node c)
    (hlength : scopes.length = context.scopes.length)
    (hrun : b.negativeStep node context scopes = .ok (filter, scopes')) :
    Translated engine store context c true scopes filter scopes' := by
  cases hnode : h with
  | @compared _ operator op name field v hop hname hv =>
      have hstep : b.negativeStep (.expression operator [.var name, .value v]) context = (do
          let pushes ←
            if containsCollectionOperator (.expression operator [.var name, .value v]) ||
              containsMapLiteralLookup (.expression operator [.var name, .value v]) then pure true
            else reading (referencesRequiredHop (.expression operator [.var name, .value v]) context)
          if !pushes then b.plainNegation (.expression operator [.var name, .value v]) context
          else b.plainNegation (.expression operator [.var name, .value v]) context) := by
        cases operator <;> simp [comparisonOperator] at hop <;> subst hop <;> rfl
      rw [hstep] at hrun
      refine translated_negation hb hcontext h (fun hplain => ?_) hlength hrun
      refine translated_plainNegation hb hcontext h ?_ hlength hplain
      cases operator <;> simp [comparisonOperator] at hop <;> rfl
  | @comparedFirst _ operator op name field v hop hname hv =>
      have hstep : b.negativeStep (.expression operator [.value v, .var name]) context = (do
          let pushes ←
            if containsCollectionOperator (.expression operator [.value v, .var name]) ||
              containsMapLiteralLookup (.expression operator [.value v, .var name]) then pure true
            else reading (referencesRequiredHop (.expression operator [.value v, .var name]) context)
          if !pushes then b.plainNegation (.expression operator [.value v, .var name]) context
          else b.plainNegation (.expression operator [.value v, .var name]) context) := by
        cases operator <;> simp [comparisonOperator] at hop <;> subst hop <;> rfl
      rw [hstep] at hrun
      refine translated_negation hb hcontext h (fun hplain => ?_) hlength hrun
      refine translated_plainNegation hb hcontext h ?_ hlength hplain
      cases operator <;> simp [comparisonOperator] at hop <;> rfl
  | @and _ operands _ hne heach =>
      exact translated_negation hb hcontext h
        (translated_junction hb hcontext heach hlength) hlength hrun
  | @or _ operands _ hne heach =>
      exact translated_negation hb hcontext h
        (translated_junction hb hcontext heach hlength) hlength hrun
  | not hoperand => exact (hb false hcontext hoperand hlength hrun).not
  | «exists» hrelation hbody =>
      exact translated_negation hb hcontext h
        (translated_quantifier hb hcontext hrelation hbody hlength).1 hlength hrun
  | all hrelation hbody =>
      exact translated_negation hb hcontext h
        (translated_quantifier hb hcontext hrelation hbody hlength).2 hlength hrun

/-- Every condition is translated into a filter that says the same, in both directions. -/
theorem builder_sound (engine : Engine) (store : Store ρ) (handlers : Builder) (fuel : Nat) :
    (builder handlers fuel).Sound engine store := by
  induction fuel with
  | zero =>
      intro context node c negated scopes scopes' filter hcontext h hlength hrun
      cases negated <;> cases hrun
  | succ fuel ih =>
      intro context node c negated scopes scopes' filter hcontext h hlength hrun
      cases negated with
      | false => exact translated_positiveStep ih hcontext h hlength hrun
      | true => exact translated_negativeStep ih hcontext h hlength hrun

end Translating

/-! ## Soundness -/

section Soundness

open Condition

/-- The caller's mapper: an object, or a function. -/
inductive CallerMapper where
  | object (entries : String → Option MapperConfig)
  | function (resolve : String → MapperConfig)

/-- Resolving through the caller's mapper records nothing. -/
def CallerMapper.toMapper : CallerMapper → Mapper
  | object entries => .object entries
  | function resolve => .function fun key => pure (resolve key)

theorem entered_rootContext (mapper : CallerMapper) (model : Option String)
    (nullRepresentation : NullAttributeRepresentation) :
    Entered (rootContext mapper.toMapper model nullRepresentation) := by
  refine .root rfl fun key => ?_
  cases mapper <;> rfl

/-- A record with a relation `ys`, whose records have a relation `xs`. -/
def nestedMapper : CallerMapper :=
  let xs : MapperConfig := { MapperConfig.ofField "xs" with
    relation := some { name := "xs", type := .many, model := none, field := none, fields := none,
                       subqueryFilter := none } }
  .object fun key =>
    if key = "R.ys" then
      some { MapperConfig.ofField "ys" with
        relation := some { name := "ys", type := .many, model := none, field := none,
                           fields := some [("xs", xs)], subqueryFilter := none } }
    else none

/-- Record 0 has record 1 in `ys`, which has record 2 in `xs`. -/
def nestedStore (a : SqlValue) : Store Nat where
  column _ _ := a
  related r _ := if r < 2 then [r + 1] else []

/-- The operators that are translated elsewhere, refused. -/
def refusing : Builder where
  positive _ _ := unsupported ""
  negative _ _ := unsupported ""
  other _ _ _ := unsupported ""
  ternaryComparison _ _ _ _ := unsupported ""
  mapLiteralLookup _ _ _ _ := unsupported ""
  upperAsciiComparison _ _ _ := unsupported ""
  computedComparison _ _ _ _ := unsupported ""
  foldKnownValueCollection _ _ _ _ _ := unsupported ""

/-- `R.ys.exists(y, y.xs.all(x, x.a == 1))` -/
def nestedMacros : Node :=
  .expression .exists [.var "R.ys", .expression .lambda
    [.expression .all [.var "y.xs", .expression .lambda
      [.expression .eq [.var "x.a", .value (.number 1)], .var "x"]], .var "y"]]

def nestedRelation (name : String) : RelationConfig where
  name
  type := .many
  model := none
  field := none
  subqueryFilter := none

def nestedCondition : Condition :=
  .exists (nestedRelation "ys") (.all (nestedRelation "xs") (.compared .eq "a" (.number 1)))

theorem denotes_nestedMacros :
    Denotes (rootContext nestedMapper.toMapper none .omitted) nestedMacros nestedCondition := by
  refine .exists ⟨trivial, _, _, rfl, rfl, rfl, rfl⟩ ?_
  refine .all ⟨⟨"xs", by decide, by decide⟩, _, _, rfl, rfl, rfl, rfl⟩ ?_
  refine .compared rfl ⟨⟨"a", by decide, by decide⟩, rfl, rfl, by decide, by decide, by decide, by decide⟩ rfl

end Soundness

end QueryPlanAdapters.Prisma
