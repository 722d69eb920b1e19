import QueryPlanAdapters.Prisma.Condition

/-!
# Prisma: the columns and collections of the current scope

Inside a lambda, a column of its element is recorded with the lambda as soon as it is
resolved, unless it is declared not to be nullable; a relation is not.
-/

namespace QueryPlanAdapters.Prisma

/-- Whether a reference is to an attribute of the current scope's record. -/
def TranslationContext.isCurrent (context : TranslationContext) (reference : String) : Prop :=
  match context.scopes.getLast? with
  | none => True
  | some scope => ∃ member, isBareName member = true ∧
      reference = scope.variableName ++ "." ++ member

/-- A reference to a nullable column of the current record, whose NULL is a missing
attribute. -/
structure ReadsColumn (context : TranslationContext) (reference field : String) : Prop where
  current : context.isCurrent reference
  direct : (resolveFieldReference reference context).result.relations = none
  path : (resolveFieldReference reference context).result.path = [field]
  bare : isBareName field = true
  ne_empty : field ≠ ""
  nullable : (resolveFieldReference reference context).result.nullable ≠ some false
  omitted :
    (resolveFieldReference reference context).result.nullAttributeRepresentation ≠ some .explicit

/-- A reference to a to-many relation of the current record. -/
def ReadsRelation (context : TranslationContext) (collection : String)
    (relation : RelationConfig) : Prop :=
  context.isCurrent collection ∧ ∃ config mapping,
    (lookupMapping context.mapper collection).result = some config ∧
      config.relation = some mapping ∧ mapping.type = .many ∧ relation = toRelationConfig mapping

/-- The contexts a translation enters: the root, whose mapper records nothing, and the
lambdas over relations of the record around them. -/
inductive Entered : TranslationContext → Prop where
  | root {context : TranslationContext} (hscopes : context.scopes = [])
      (hmapper : ∀ key, (lookupMapping context.mapper key).recorded = []) : Entered context
  | lambda {context : TranslationContext} {collection : String} {relation : RelationConfig}
      (h : Entered context) (hrelation : ReadsRelation context collection relation)
      (name : String) :
      Entered (enterLambdaScope context collection
        { variableName := name, relationModel := relation.model })

variable {collection reference : String} {config : MapperConfig} {context : TranslationContext}

theorem strippedKey_append (variableName member : String) :
    strippedKey variableName (variableName ++ "." ++ member) = some member := by
  simp [strippedKey, startsWithText]

theorem append_dot_ne (variableName member : String) :
    variableName ++ "." ++ member ≠ variableName := by
  intro h
  have hlength := congrArg String.length h
  have hdot : ".".length = 1 := rfl
  simp only [String.length_append] at hlength
  omega

/-- An attribute of the element is looked up among the collection's fields. -/
theorem scopedMapper_element (context : TranslationContext)
    (collection variableName member : String) :
    scopedMapper context collection variableName (variableName ++ "." ++ member) =
      elementReference context.mapper collection context.scopes.length member := by
  simp only [scopedMapper, if_neg (append_dot_ne _ _), strippedKey_append]
  rfl

/-- What an attribute of the element records. -/
theorem elementReference_recorded {mapper : Mapper} {member : String}
    (hfields : (lookupElementFields mapper collection).recorded = [])
    (hmember : isBareName member = true) (depth : Nat) :
    (elementReference mapper collection depth member).recorded =
      (recordNullableElementField depth
        (elementReference mapper collection depth member).result member).recorded := by
  have hdot : '.' ∉ member.toList := by simpa [isBareName] using hmember
  rw [elementReference, Reading.bind_recorded, hfields, Reading.bind_result, List.nil_append]
  cases (lookupElementFields mapper collection).result with
  | none => simp [hdot]
  | some fields =>
      rw [pathParts_of_isBareName hmember]
      by_cases hempty : member = ""
      · subst hempty
        simp [elementConfig]
      · simp [elementConfig]

/-- A mapped collection's fields are looked up where its mapping is. -/
theorem lookupElementFields_recorded {mapper : Mapper}
    (hconfig : (lookupMapping mapper collection).result = some config)
    (hrecorded : (lookupMapping mapper collection).recorded = []) :
    (lookupElementFields mapper collection).recorded = [] := by
  simp [lookupElementFields, hconfig, hrecorded]

/-- The lookup of a current attribute in a lambda. -/
theorem lookupMapping_element {context : TranslationContext} {collection : String}
    {scope : LambdaScope} {member : String} :
    lookupMapping (enterLambdaScope context collection scope).mapper
        (scope.variableName ++ "." ++ member) =
      some <$> elementReference context.mapper collection context.scopes.length member := by
  rw [enterLambdaScope, lookupMapping, scopedMapper_element]
  rfl

/-- Resolving a relation of the current record records nothing. -/
theorem ReadsRelation.lookup_recorded (hcontext : Entered context) {relation : RelationConfig}
    (h : ReadsRelation context collection relation) :
    (lookupMapping context.mapper collection).recorded = [] := by
  induction hcontext generalizing collection relation with
  | root hscopes hmapper => exact hmapper collection
  | lambda houter hrelation name ih =>
      obtain ⟨hcurrent, config, mapping, hconfig, hmapping, -⟩ := h
      obtain ⟨member, hmember, rfl⟩ : ∃ member, isBareName member = true ∧
          collection = name ++ "." ++ member := by
        simpa [TranslationContext.isCurrent, enterLambdaScope] using hcurrent
      obtain ⟨-, outerConfig, -, houterConfig, -⟩ := id hrelation
      rw [@lookupMapping_element _ _ { variableName := name, relationModel := _ }] at hconfig ⊢
      rw [Reading.map_result] at hconfig
      rw [Reading.map_recorded, elementReference_recorded
        (lookupElementFields_recorded houterConfig (ih hrelation)) hmember,
        Option.some.inj hconfig]
      simp [recordNullableElementField, hmapping]

@[simp] theorem walkFields_nil (fields : List (String × MapperConfig)) (walk : FieldWalk) :
    walkFields fields [] walk = walk := by
  rw [walkFields]

/-- A mapped relation resolves to itself. -/
theorem resolveFieldReference_relation {mapping : RelationMapping}
    (hconfig : (lookupMapping context.mapper reference).result = some config)
    (hmapping : config.relation = some mapping) :
    (resolveFieldReference reference context).result.relations =
        some [toRelationConfig mapping] ∧
      (resolveFieldReference reference context).recorded =
        (lookupMapping context.mapper reference).recorded := by
  constructor
  · have hparts : joinParts (List.take 0 (pathParts reference)) = "" := rfl
    simp only [resolveFieldReference, Reading.bind_result, hconfig, Reading.pure_result,
      Option.orElse, Option.bind_some, hmapping, resolveThroughRelation, Option.elim_none, hparts,
      if_true, walkFields_nil]
    cases mapping.fields <;> rfl
  · simp [resolveFieldReference, hconfig, hmapping]

/-- A mapped column resolves to itself. -/
theorem resolveFieldReference_column
    (hconfig : (lookupMapping context.mapper reference).result = some config)
    (hmapping : config.relation = none) :
    (resolveFieldReference reference context).result =
        { path := [(truthy config.field).getD reference]
          nullable := config.nullable
          relations := none
          valueType := config.valueType
          nullAttributeRepresentation := config.nullAttributeRepresentation } ∧
      (resolveFieldReference reference context).recorded =
        (lookupMapping context.mapper reference).recorded := by
  constructor <;> simp [resolveFieldReference, hconfig, hmapping]

/-- A relation of the current record resolves to itself. -/
theorem ReadsRelation.resolve (hcontext : Entered context) {relation : RelationConfig}
    (h : ReadsRelation context collection relation) :
    (resolveFieldReference collection context).result.relations = some [relation] ∧
      (resolveFieldReference collection context).recorded = [] ∧ relation.type = .many := by
  have hrecorded := h.lookup_recorded hcontext
  obtain ⟨-, config, mapping, hconfig, hmapping, htype, rfl⟩ := h
  obtain ⟨hrelations, hresolved⟩ := resolveFieldReference_relation hconfig hmapping
  exact ⟨hrelations, hresolved.trans hrecorded, htype⟩

/-- Over a mapper that records nothing, resolving a reference records nothing. -/
theorem resolveFieldReference_recorded
    (hmapper : ∀ key, (lookupMapping context.mapper key).recorded = []) (reference : String) :
    (resolveFieldReference reference context).recorded = [] := by
  have hprefix : ∀ parts count, (matchedPrefix context.mapper parts count).recorded = [] := by
    intro parts count
    induction count with
    | zero => rfl
    | succ count ih =>
        rw [matchedPrefix, Reading.bind_recorded, hmapper, List.nil_append]
        split
        · rfl
        · exact ih
  rw [resolveFieldReference]
  simp only [Reading.bind_recorded, hmapper, List.nil_append]
  split
  · rw [Reading.bind_recorded, Reading.pure_recorded]
    split <;> rfl
  · rw [Reading.bind_recorded, hprefix]
    split <;> rfl

theorem isBareName_ne_append (variableName member : String) {field : String}
    (h : isBareName field = true) : variableName ++ "." ++ member ≠ field := by
  rintro rfl
  simp [isBareName] at h

/-- Resolving a nullable column of a lambda's element records it with the lambda, and of the
root records nothing. -/
theorem ReadsColumn.recorded (hcontext : Entered context)
    {field : String} (h : ReadsColumn context reference field) :
    (resolveFieldReference reference context).recorded =
      if context.scopes.isEmpty then [] else [(context.scopes.length - 1, field)] := by
  obtain ⟨hcurrent, hdirect, hpath, hbare, hne, hnullable, -⟩ := h
  cases hcontext with
  | root hroot hmapper => simp [hroot, resolveFieldReference_recorded hmapper]
  | @lambda outer collection relation houter hrelation name =>
      obtain ⟨member, hmember, rfl⟩ : ∃ member, isBareName member = true ∧
          reference = name ++ "." ++ member := by
        simpa [TranslationContext.isCurrent, enterLambdaScope] using hcurrent
      obtain ⟨-, outerConfig, -, houterConfig, -⟩ := id hrelation
      have hlookup := @lookupMapping_element outer collection
        { variableName := name, relationModel := relation.model } member
      have hrecorded := elementReference_recorded
        (lookupElementFields_recorded houterConfig (hrelation.lookup_recorded houter)) hmember
        outer.scopes.length
      generalize elementReference outer.mapper collection outer.scopes.length member = element
        at hlookup hrecorded
      have hconfig := congrArg Reading.result hlookup
      rw [Reading.map_result] at hconfig
      have hmapping : element.result.relation = none := by
        cases hmapping : element.result.relation with
        | none => rfl
        | some mapping =>
            rw [(resolveFieldReference_relation hconfig hmapping).1] at hdirect
            exact absurd hdirect (by simp)
      obtain ⟨hresult, hresolved⟩ := resolveFieldReference_column hconfig hmapping
      rw [hresult] at hpath hnullable
      have hfield : truthy element.result.field = some field := by
        cases hcolumn : truthy element.result.field with
        | none =>
            rw [hcolumn] at hpath
            exact absurd (List.cons.inj hpath).1 (isBareName_ne_append name member hbare)
        | some column => simpa [hcolumn] using hpath
      rw [hresolved, hlookup, Reading.map_recorded, hrecorded]
      simp [recordNullableElementField, hmapping, hfield, hnullable, enterLambdaScope]

end QueryPlanAdapters.Prisma
