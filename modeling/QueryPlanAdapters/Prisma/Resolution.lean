import QueryPlanAdapters.Prisma.Placement
import QueryPlanAdapters.Prisma.Records

/-!
# Prisma: a local reference resolves to its place

At the root every reference resolves to what the mapper declares it to be. In a lambda
body the members of the lambda's own variable do, and what is recorded with the lambda
is their columns.
-/

namespace QueryPlanAdapters.Prisma

variable {entries : String → Option MapperConfig}

/-! ## Relations along a path -/

/-- Whether each of the relations that lead on from a path is declared there. -/
def DeclaredAlong (entries : String → Option MapperConfig) :
    List String → List RelationConfig → Prop
  | _, [] => True
  | path, relation :: relations =>
      (∃ mapping, DeclaredRelation entries (path ++ [relation.name]) mapping ∧
        relation = toRelationConfig mapping) ∧
      DeclaredAlong entries (path ++ [relation.name]) relations

/-- The path at the end of some relations. -/
def pathThrough (path : List String) (relations : List RelationConfig) : List String :=
  path ++ relations.map RelationConfig.name

variable {a : Attribute} {parts : List String} {reference member : String} {config : MapperConfig}
  {lambdas : List (String × String)}

@[simp] theorem pathThrough_nil (path : List String) : pathThrough path [] = path :=
  List.append_nil path

@[simp] theorem pathThrough_cons (path : List String) (relation : RelationConfig)
    (relations : List RelationConfig) :
    pathThrough path (relation :: relations) = pathThrough (path ++ [relation.name]) relations := by
  simp [pathThrough]

theorem DeclaredAlong.of_append {path : List String} {relations more : List RelationConfig}
    (h : DeclaredAlong entries path (relations ++ more)) :
    DeclaredAlong entries path relations ∧
      DeclaredAlong entries (pathThrough path relations) more := by
  induction relations generalizing path with
  | nil => exact ⟨trivial, by simpa using h⟩
  | cons relation relations ih =>
      obtain ⟨hrest, hmore⟩ := ih h.2
      exact ⟨⟨h.1, hrest⟩, by rwa [pathThrough_cons]⟩

/-- The relations that a declared relation's fields lead to. -/
def FieldsDeclared (entries : String → Option MapperConfig) (path : List String)
    (fields : List (String × MapperConfig)) : Prop :=
  ∀ name config mapping, fields.lookup name = some config → config.relation = some mapping →
    DeclaredRelation entries (path ++ [mapping.name]) mapping

theorem DeclaredRelation.fields {path : List String} {mapping : RelationMapping}
    (h : DeclaredRelation entries path mapping) :
    FieldsDeclared entries path (mapping.fields.getD []) :=
  fun _ _ _ hconfig hmapping => .field h hconfig hmapping

/-! ## Walking to an attribute -/

theorem truthy_of_ne_empty {s : String} (h : s ≠ "") : truthy (some s) = some s := by
  simp [truthy, h]

theorem truthy_ne_empty {s : Option String} {name : String} (h : truthy s = some name) :
    name ≠ "" := by
  simpa using (Option.filter_eq_some_iff.mp h).2

theorem truthy_getD {s : Option String} {name : String} (h : name ≠ "") :
    truthy (some ((truthy s).getD name)) = some ((truthy s).getD name) := by
  cases hs : truthy s with
  | none => exact truthy_of_ne_empty h
  | some other => exact truthy_of_ne_empty (truthy_ne_empty hs)

/-- The relations and the column that a walk ends with, for an attribute. -/
def EndsAt (path : List String) (relations : List RelationConfig) (field : Option String) :
    Attribute → Prop
  | .column place name => place = pathThrough path relations ∧ truthy field = some name
  | .relation place mapping projection =>
      place = pathThrough path relations ∧ relations.getLast? = some (toRelationConfig mapping) ∧
        projection = truthy field

theorem attributeAt_walk {path : List String} {fields : List (String × MapperConfig)}
    (h : attributeAt path fields parts = some a)
    (hfields : FieldsDeclared entries path fields) (walk : FieldWalk) :
    ∃ relations, (walkFields fields parts walk).relations = walk.relations ++ relations ∧
      DeclaredAlong entries path relations ∧
      EndsAt path relations (walkFields fields parts walk).field a := by
  induction parts generalizing path fields walk with
  | nil => cases h
  | cons name rest ih =>
      by_cases hempty : name = ""
      · subst hempty
        cases rest <;> simp [attributeAt] at h
      · cases rest with
        | nil =>
            obtain rfl : Attribute.ofConfig path name (fields.lookup name) = a := by
              simpa [attributeAt, hempty] using h
            cases hrelation : (fields.lookup name).bind MapperConfig.relation with
            | none =>
                refine ⟨[], ?_, trivial, ?_⟩
                · simp [walkFields, hempty, hrelation]
                · simp [Attribute.ofConfig, hrelation, EndsAt, walkFields, hempty,
                    truthy_of_ne_empty hempty, truthy_getD]
            | some mapping =>
                obtain ⟨config, hconfig, hmapping⟩ := Option.bind_eq_some_iff.mp hrelation
                have hdeclared := hfields name config mapping hconfig hmapping
                refine ⟨[toRelationConfig mapping], ?_, ⟨⟨mapping, hdeclared, rfl⟩, trivial⟩, ?_⟩
                · simp [walkFields, hempty, hrelation]
                · simp [Attribute.ofConfig, hrelation, EndsAt, walkFields, hempty, toRelationConfig]
        | cons next rest =>
            simp only [attributeAt, hempty, if_false] at h
            obtain ⟨config, hconfig, h⟩ := Option.bind_eq_some_iff.mp h
            obtain ⟨mapping, hmapping, h⟩ := Option.bind_eq_some_iff.mp h
            have hdeclared := hfields name config mapping hconfig hmapping
            have hwalk : walkFields fields (name :: next :: rest) walk =
                walkFields (mapping.fields.getD []) (next :: rest)
                  { walk with
                    relations := walk.relations ++ [toRelationConfig mapping]
                    field := mapping.field } := by
              rw [walkFields]
              simp [hempty, hconfig, hmapping]
            obtain ⟨relations, hrelations, halong, hends⟩ := ih h hdeclared.fields
              { walk with
                relations := walk.relations ++ [toRelationConfig mapping]
                field := mapping.field }
            refine ⟨toRelationConfig mapping :: relations, ?_, ⟨⟨mapping, hdeclared, rfl⟩, halong⟩, ?_⟩
            · rw [hwalk, hrelations]
              simp
            · rw [hwalk]
              cases a with
              | column place column => simpa [EndsAt, toRelationConfig] using hends
              | relation place end_ projection =>
                  obtain ⟨hplace, hlast, hprojection⟩ := hends
                  refine ⟨by simpa [toRelationConfig] using hplace, ?_, hprojection⟩
                  rw [List.getLast?_cons, hlast]
                  rfl

/-- A relation that declared fields lead to is declared. -/
theorem attributeAt_declared {path place : List String} {fields : List (String × MapperConfig)}
    {mapping : RelationMapping} {projection : Option String}
    (h : attributeAt path fields parts = some (.relation place mapping projection))
    (hfields : FieldsDeclared entries path fields) : DeclaredRelation entries place mapping := by
  induction parts generalizing path fields with
  | nil => cases h
  | cons name rest ih =>
      cases rest with
      | nil =>
          rw [attributeAt] at h
          split at h
          next => cases h
          next =>
            rw [Attribute.ofConfig] at h
            split at h
            next next hbind =>
              obtain ⟨config, hconfig, hmapping⟩ := Option.bind_eq_some_iff.mp hbind
              obtain ⟨rfl, rfl, -⟩ := Attribute.relation.inj (Option.some.inj h)
              exact hfields name config next hconfig hmapping
            next => cases h
      | cons next rest =>
          simp only [attributeAt] at h
          split at h
          next => cases h
          next =>
            obtain ⟨config, hconfig, h⟩ := Option.bind_eq_some_iff.mp h
            obtain ⟨relation, hrelation, h⟩ := Option.bind_eq_some_iff.mp h
            exact ih h (hfields name config relation hconfig hrelation).fields

/-! ## References from the queried record -/

theorem joinParts_ne_empty {part : String} (h : part ≠ "") (parts : List String) :
    joinParts (part :: parts) ≠ "" := by
  cases parts with
  | nil => simpa [joinParts] using h
  | cons next parts =>
      rw [joinParts, String.intercalate_cons_cons]
      intro hempty
      simpa using congrArg String.length hempty

/-- The longest mapped beginning of a reference that is declared through a relation. -/
theorem rootAttributeThrough_matched {count : Nat}
    (h : rootAttributeThrough entries reference parts count = some a) :
    ((matchedPrefix (.object entries) parts count).result = none ∧ a = .column [] reference) ∨
      ∃ i config relation, (matchedPrefix (.object entries) parts count).result =
          some (i + 1, config) ∧ entries (joinParts (parts.take (i + 1))) = some config ∧
        config.relation = some relation ∧
        (relation.fields = none → truthy relation.field = none) ∧
        attributeAt [relation.name] (relation.fields.getD []) (parts.drop (i + 1)) = some a := by
  induction count with
  | zero => exact .inl ⟨rfl, (Option.some.inj h).symm⟩
  | succ count ih =>
      rw [rootAttributeThrough] at h
      rw [matchedPrefix, Reading.bind_result, lookupMapping, Reading.pure_result]
      cases hconfig : entries (joinParts (parts.take (count + 1))) with
      | none =>
          rw [hconfig] at h
          exact ih h
      | some config =>
          rw [hconfig] at h
          obtain ⟨relation, hrelation, h⟩ := Option.bind_eq_some_iff.mp h
          split at h
          next => cases h
          next hprojected =>
            refine .inr ⟨count, config, relation, rfl, hconfig, hrelation, ?_, h⟩
            intro hfields
            simpa [hfields] using hprojected

theorem lookup_getD {fields : Option (List (String × MapperConfig))} {name : String}
    (h : (fields.getD []).lookup name = some config) :
    fields.bind (·.lookup name) = some config := by
  cases fields with
  | none => cases h
  | some fields => exact h

theorem relationAlong_attribute {path place : List String} {relation mapping : RelationMapping}
    {projection : Option String}
    (h : attributeAt path (relation.fields.getD []) parts = some (.relation place mapping projection)) :
    relationAlong (some relation) parts = some mapping := by
  induction parts generalizing path relation with
  | nil => cases h
  | cons name rest ih =>
      by_cases hempty : name = ""
      · subst hempty
        cases rest <;> simp [attributeAt] at h
      · have hstep : ∀ {config : MapperConfig} {next : RelationMapping},
            (relation.fields.getD []).lookup name = some config → config.relation = some next →
              relationAlong (some relation) (name :: rest) = relationAlong (some next) rest := by
          intro config next hconfig hnext
          have hfields := lookup_getD hconfig
          rw [relationAlong, List.foldl_cons, relationAlong]
          congr 1
          obtain ⟨fields, hsome, hlookup⟩ := Option.bind_eq_some_iff.mp hfields
          simp [hsome, hlookup, hnext]
        cases rest with
        | nil =>
            have hconfig : Attribute.ofConfig path name ((relation.fields.getD []).lookup name) =
                .relation place mapping projection := by
              simpa [attributeAt, hempty] using h
            rw [Attribute.ofConfig] at hconfig
            split at hconfig
            next next hbind =>
              obtain ⟨config, hlookup, hnext⟩ := Option.bind_eq_some_iff.mp hbind
              rw [hstep hlookup hnext]
              exact congrArg some (Attribute.relation.inj hconfig).2.1
            next => cases hconfig
        | cons next rest =>
            simp only [attributeAt, hempty, if_false] at h
            obtain ⟨config, hlookup, h⟩ := Option.bind_eq_some_iff.mp h
            obtain ⟨next, hnext, h⟩ := Option.bind_eq_some_iff.mp h
            rw [hstep hlookup hnext]
            exact ih h

/-- The fields of the collection at the end of the chain. -/
theorem rootAttributeThrough_fields {count : Nat}
    {path : List String} {mapping : RelationMapping} {projection : Option String}
    (h : rootAttributeThrough entries reference parts count =
      some (.relation path mapping projection)) :
    chainedElementFields (.object entries) parts count = ⟨mapping.fields, []⟩ := by
  induction count with
  | zero => cases h
  | succ count ih =>
      rw [rootAttributeThrough] at h
      have hlookup : ∀ f : Option MapperConfig → Reading (Option (List (String × MapperConfig))),
          (lookupMapping (.object entries) (joinParts (parts.take (count + 1))) >>= f) =
            f (entries (joinParts (parts.take (count + 1)))) := fun _ => rfl
      rw [chainedElementFields, hlookup]
      cases hconfig : entries (joinParts (parts.take (count + 1))) with
      | none =>
          rw [hconfig] at h
          exact ih h
      | some config =>
          rw [hconfig] at h
          obtain ⟨relation, hrelation, h⟩ := Option.bind_eq_some_iff.mp h
          split at h
          next => cases h
          next =>
            simp only [Option.bind_some, hrelation]
            rw [relationAlong_attribute h]
            rfl

/-! ## Resolved references -/

/-- Whether a reference resolves, from the record at the end of a path, to an attribute. -/
structure ResolvesTo (entries : String → Option MapperConfig) (context : TranslationContext)
    (path : List String) (reference : String) (a : Attribute) : Prop where
  along : DeclaredAlong entries path
    ((resolveFieldReference reference context).result.relations.getD [])
  ends : ∃ field, EndsAt path
      ((resolveFieldReference reference context).result.relations.getD []) field a ∧
    ∀ name, truthy field = some name →
      (resolveFieldReference reference context).result.path = [name]

/-- A reference that resolves through no relation. -/
theorem ResolvesTo.column {context : TranslationContext} {path : List String}
    {reference name : String}
    (hrelations : (resolveFieldReference reference context).result.relations = none)
    (hpath : (resolveFieldReference reference context).result.path = [name]) (hne : name ≠ "") :
    ResolvesTo entries context path reference (.column path name) where
  along := by simp [hrelations, DeclaredAlong]
  ends := by
    refine ⟨some name, by simp [hrelations, EndsAt, truthy_of_ne_empty hne], fun other hother => ?_⟩
    obtain ⟨hname, -⟩ := Option.filter_eq_some_iff.mp hother
    rwa [Option.some.inj hname] at hpath

/-- A reference through a relation that declares no fields. -/
theorem attributeAt_nil {path : List String} (h : attributeAt path [] parts = some a) :
    ∃ name, parts = [name] ∧ a = .column path name ∧ name ≠ "" := by
  match parts with
  | [] => cases h
  | [name] =>
      rw [attributeAt] at h
      split at h
      next => cases h
      next hne => exact ⟨name, rfl, (Option.some.inj h).symm, hne⟩
  | name :: next :: rest =>
      simp only [attributeAt] at h
      split at h <;> cases h

theorem DeclaredRelation.along {mapping : RelationMapping}
    (h : DeclaredRelation entries [mapping.name] mapping) :
    DeclaredAlong entries [] [toRelationConfig mapping] :=
  ⟨⟨mapping, h, rfl⟩, trivial⟩

/-- What the rest of a reference resolves to, after a relation it starts with. -/
theorem resolveThroughRelation_attribute {relation : RelationMapping} {lastPart : Option String}
    (hdeclared : DeclaredRelation entries [relation.name] relation)
    (hprojected : relation.fields = none → truthy relation.field = none)
    (h : attributeAt [relation.name] (relation.fields.getD []) parts = some a)
    {context : TranslationContext}
    (hresolve : (resolveFieldReference reference context).result =
      resolveThroughRelation config relation false lastPart parts) :
    ResolvesTo entries context [] reference a := by
  cases hfields : relation.fields with
  | none =>
      rw [hfields] at h
      obtain ⟨name, rfl, rfl, hne⟩ := attributeAt_nil h
      have hrelations : (resolveFieldReference reference context).result.relations =
          some [toRelationConfig relation] := by
        simp [hresolve, resolveThroughRelation, hfields]
      have hpath : (resolveFieldReference reference context).result.path = [name] := by
        simp [hresolve, resolveThroughRelation, hfields, hprojected hfields]
      refine ⟨by rw [hrelations]; exact hdeclared.along, some name, ?_, fun other hother => ?_⟩
      · simp [hrelations, EndsAt, pathThrough, toRelationConfig, truthy_of_ne_empty hne]
      · obtain ⟨hname, -⟩ := Option.filter_eq_some_iff.mp hother
        rwa [Option.some.inj hname] at hpath
  | some fields =>
      rw [hfields, Option.getD_some] at h
      have hwalkFields := hdeclared.fields
      rw [hfields, Option.getD_some] at hwalkFields
      obtain ⟨relations, hwalk, halong, hends⟩ := attributeAt_walk h hwalkFields
        { relations := [toRelationConfig relation], field := relation.field, leafConfig := none }
      generalize hwalkEnd : walkFields fields parts
        { relations := [toRelationConfig relation], field := relation.field, leafConfig := none } =
          walk at hwalk hends
      have hrelations : (resolveFieldReference reference context).result.relations =
          some (toRelationConfig relation :: relations) := by
        rw [hresolve]
        simp [resolveThroughRelation, hfields, hwalkEnd, hwalk]
      refine ⟨?_, walk.field, ?_, fun name hname => ?_⟩
      · rw [hrelations]
        exact ⟨⟨relation, hdeclared, rfl⟩, halong⟩
      · rw [hrelations, Option.getD_some]
        cases a with
        | column place column => simpa [EndsAt, toRelationConfig] using hends
        | relation place mapping projection =>
            obtain ⟨hplace, hlast, hprojection⟩ := hends
            refine ⟨by simpa [toRelationConfig] using hplace, ?_, hprojection⟩
            rw [List.getLast?_cons, hlast]
            rfl
      · rw [hresolve]
        simp [resolveThroughRelation, hfields, hwalkEnd, hname]

/-- At the root, a reference resolves to what it is declared to be. -/
theorem rootAttribute_resolves {context : TranslationContext}
    (hmapper : context.mapper = .object entries) (h : rootAttribute entries reference = some a) :
    ResolvesTo entries context [] reference a := by
  have hlookup : ∀ key, lookupMapping context.mapper key = ⟨entries key, []⟩ := by
    intro key
    rw [hmapper]
    rfl
  rw [rootAttribute] at h
  split at h
  next => cases h
  next hparts =>
  have hne : reference ≠ "" := by
    rintro rfl
    exact hparts (by decide)
  split at h
  next hnone =>
    obtain ⟨hmatched, rfl⟩ | ⟨i, config, relation, hmatched, hconfig, hrelation, hprojected, hattribute⟩ :=
      rootAttributeThrough_matched h
    · rw [← hmapper] at hmatched
      apply ResolvesTo.column _ _ hne
      all_goals simp [resolveFieldReference, hlookup, hnone, hmatched, truthy]
    · rw [← hmapper] at hmatched
      have hdeclared : DeclaredRelation entries [relation.name] relation := .root hconfig hrelation
      have hremaining : joinParts ((pathParts reference).take (i + 1)) ≠ "" := by
        cases hcases : pathParts reference with
        | nil => exact absurd hcases (pathParts_ne_nil reference)
        | cons part parts =>
            rw [List.take_succ_cons]
            apply joinParts_ne_empty
            rintro rfl
            exact hparts (by simp [hcases])
      have hresolve : (resolveFieldReference reference context).result =
          resolveThroughRelation config relation false (pathParts reference).getLast?
            ((pathParts reference).drop (i + 1)) := by
        simp [resolveFieldReference, hlookup, hnone, hmatched, hrelation, hremaining]
      exact resolveThroughRelation_attribute hdeclared hprojected hattribute hresolve
  next config hconfig =>
    split at h
    next hrelation =>
      obtain rfl := Option.some.inj h
      rw [Attribute.ofConfig]
      simp only [Option.bind_some, hrelation]
      apply ResolvesTo.column _ _ (truthy_ne_empty (truthy_getD hne))
      all_goals simp [resolveFieldReference, hlookup, hconfig, hrelation]
    next mapping hrelation =>
      obtain rfl := Option.some.inj h
      have hdeclared : DeclaredRelation entries [mapping.name] mapping := .root hconfig hrelation
      have hresolve : (resolveFieldReference reference context).result =
          resolveThroughRelation config mapping true (pathParts reference).getLast? [] := by
        have hempty : joinParts [] = "" := rfl
        simp [resolveFieldReference, hlookup, hconfig, hrelation, hempty]
      have hrelations : (resolveFieldReference reference context).result.relations =
          some [toRelationConfig mapping] := by
        rw [hresolve, resolveThroughRelation]
        cases mapping.fields <;> simp
      refine ⟨by rw [hrelations]; exact hdeclared.along, ?_⟩
      obtain ⟨last, hlast⟩ : ∃ last, (pathParts reference).getLast? = some last :=
        ⟨_, List.getLast?_eq_some_getLast (pathParts_ne_nil reference)⟩
      have hlastNe : last ≠ "" := by
        rintro rfl
        exact hparts (List.mem_of_getLast? hlast)
      refine ⟨mapping.field.orElse fun _ =>
        mapping.fields.map fun fields => ((fields.lookup last).bind MapperConfig.field).getD last,
        ⟨?_, ?_, ?_⟩, fun name hname => ?_⟩
      · rw [hrelations]
        rfl
      · rw [hrelations]
        rfl
      · rw [hlast]
        rfl
      · rw [hresolve, hlast]
        cases hfields : mapping.fields with
        | none =>
            simp [hfields] at hname
            simp [resolveThroughRelation, hfields, hname]
        | some fields =>
            simp [hfields] at hname
            simp [resolveThroughRelation, hfields, truthy_of_ne_empty hlastNe, hname]
/-! ## References in a lambda body -/

/-- The contexts of a translation, with the lambdas they are in and the path of relations
that leads to the record of the innermost. -/
inductive Enters (entries : String → Option MapperConfig) :
    List (String × String) → TranslationContext → List String → Prop where
  | root {context : TranslationContext} (hscopes : context.scopes = [])
      (hmapper : context.mapper = .object entries) : Enters entries [] context []
  | lambda {lambdas : List (String × String)} {context : TranslationContext}
      {path place : List String} {collection : String} {mapping : RelationMapping}
      {projection : Option String} (h : Enters entries lambdas context path)
      (hlocal : IsLocal entries lambdas collection)
      (hdeclared : declaredAttribute entries lambdas collection =
        some (.relation place mapping projection)) (scope : LambdaScope) :
      Enters entries ((scope.variableName, collection) :: lambdas)
        (enterLambdaScope context collection scope) place

@[simp] theorem isReachedFrom_append (variableName member : String) :
    isReachedFrom variableName (variableName ++ "." ++ member) = true := by
  simp [isReachedFrom, startsWithText]

@[simp] theorem isReachedFrom_self (variableName : String) :
    isReachedFrom variableName variableName = true := by
  simp [isReachedFrom]

theorem strippedKey_self (variableName : String) : strippedKey variableName variableName = none := by
  rw [strippedKey, if_neg]
  intro hstarts
  have hlength := (List.isPrefixOf_iff_prefix.mp hstarts).length_le
  simp at hlength

/-- A reference mapped to a relation as a whole. -/
theorem ResolvesTo.relation {context : TranslationContext} {path : List String}
    {mapping : RelationMapping}
    (hlookup : (lookupMapping context.mapper reference).result = some config)
    (hmapping : config.relation = some mapping)
    (hdeclared : DeclaredRelation entries (path ++ [mapping.name]) mapping) :
    ResolvesTo entries context path reference
      (.relation (path ++ [mapping.name]) mapping (truthy mapping.field)) := by
  have hrelations := (resolveFieldReference_relation hlookup hmapping).1
  have hempty : joinParts [] = "" := rfl
  refine ⟨?_, mapping.field, ?_, fun name hname => ?_⟩
  · rw [hrelations]
    exact ⟨⟨mapping, hdeclared, rfl⟩, trivial⟩
  · rw [hrelations]
    exact ⟨rfl, rfl, rfl⟩
  · have hfield : mapping.field = some name := (Option.filter_eq_some_iff.mp hname).1
    have hresolve : (resolveFieldReference reference context).result =
        resolveThroughRelation config mapping true (pathParts reference).getLast? [] := by
      simp [resolveFieldReference, hlookup, hmapping, hempty]
    rw [hresolve, resolveThroughRelation]
    rw [hfield] at hname
    cases mapping.fields <;> simp [hfield, hname]

/-- What is known of a reference to a collection. -/
structure ReadsCollection (entries : String → Option MapperConfig) (context : TranslationContext)
    (path : List String) (collection : String) (place : List String) (mapping : RelationMapping)
    (projection : Option String) : Prop where
  fields : lookupElementFields context.mapper collection = ⟨mapping.fields, []⟩
  lookup : (lookupMapping context.mapper collection).recorded = []
  resolves : ResolvesTo entries context path collection (.relation place mapping projection)
  recorded : (resolveFieldReference collection context).recorded = []
  declared : DeclaredRelation entries place mapping

/-- A collection of the queried record. -/
theorem rootAttribute_collection {context : TranslationContext} {collection : String}
    {place : List String} {mapping : RelationMapping} {projection : Option String}
    (hmapper : context.mapper = .object entries)
    (h : rootAttribute entries collection = some (.relation place mapping projection)) :
    ReadsCollection entries context [] collection place mapping projection := by
  have hlookup : ∀ key, lookupMapping context.mapper key = ⟨entries key, []⟩ := by
    intro key
    rw [hmapper]
    rfl
  have hresolves := rootAttribute_resolves hmapper h
  have hrecorded := resolveFieldReference_recorded (fun key => by rw [hlookup]) collection
  rw [rootAttribute] at h
  split at h
  next => cases h
  next hparts =>
  split at h
  next hnone =>
    have hthrough : rootAttributeThrough entries collection (pathParts collection)
        ((pathParts collection).length - 1) = some (.relation place mapping projection) := by
      obtain ⟨count, hcount⟩ : ∃ count, (pathParts collection).length = count + 1 :=
        Nat.exists_eq_succ_of_ne_zero (by simp [pathParts_ne_nil])
      rw [hcount, rootAttributeThrough, List.take_of_length_le hcount.le,
        List.drop_of_length_le hcount.le] at h
      rw [hcount]
      split at h
      next => exact h
      next =>
        obtain ⟨relation, -, h⟩ := Option.bind_eq_some_iff.mp h
        split at h <;> cases h
    have hfields := rootAttributeThrough_fields hthrough
    refine ⟨?_, by rw [hlookup], hresolves, hrecorded, ?_⟩
    · rw [lookupElementFields, hmapper, lookupMapping, hnone]
      exact congrArg (fun x => (⟨x.result, [] ++ x.recorded⟩ : Reading _)) hfields
    · obtain ⟨-, hcolumn⟩ | ⟨i, config, relation, -, hconfig, hrelation, -, hattribute⟩ :=
        rootAttributeThrough_matched hthrough
      · cases hcolumn
      · exact attributeAt_declared hattribute (DeclaredRelation.root hconfig hrelation).fields
  next config hconfig =>
    split at h
    next hrelation =>
      simp [Attribute.ofConfig, hrelation] at h
    next relation hrelation =>
      obtain ⟨rfl, rfl, -⟩ := Attribute.relation.inj (Option.some.inj h)
      refine ⟨?_, by rw [hlookup], hresolves, hrecorded, .root hconfig hrelation⟩
      rw [lookupElementFields, hmapper, lookupMapping, hconfig]
      exact congrArg (fun fields => (⟨fields, []⟩ : Reading _)) (by simp [hrelation])

/-- The mapping of a member of an element, or the one that it has by default. -/
def memberConfig (mapping : RelationMapping) (member : String) : MapperConfig :=
  ((mapping.fields.getD []).lookup member).getD (.ofField member)

/-- A member is looked up among the fields of its collection. -/
theorem elementReference_member {mapper : Mapper} {collection : String}
    {mapping : RelationMapping} (hfields : lookupElementFields mapper collection = ⟨mapping.fields, []⟩)
    (hmember : isBareName member = true) (depth : Nat) :
    elementReference mapper collection depth member =
      ⟨memberConfig mapping member,
        (recordNullableElementField depth (memberConfig mapping member) member).recorded⟩ := by
  have hdot : '.' ∉ member.toList := by simpa [isBareName] using hmember
  have hresult : (elementReference mapper collection depth member).result =
      memberConfig mapping member := by
    rw [elementReference, hfields, Reading.bind_result, memberConfig]
    cases mapping.fields with
    | none => simp [hdot]
    | some fields =>
        simp only [Option.getD_some]
        rw [pathParts_of_isBareName hmember]
        by_cases hempty : member = ""
        · subst hempty
          rfl
        · simp [elementConfig]
  have hrecorded := elementReference_recorded (congrArg Reading.recorded hfields) hmember depth
  rw [hresult] at hrecorded
  exact congrArg₂ Reading.mk hresult hrecorded

section Element

variable {context : TranslationContext} {path place : List String} {collection : String}
  {mapping : RelationMapping} {projection : Option String}

/-- The lookup of a member in a lambda body. -/
theorem ReadsCollection.lookup_member
    (h : ReadsCollection entries context path collection place mapping projection)
    (scope : LambdaScope) {member : String} (hmember : isBareName member = true) :
    lookupMapping (enterLambdaScope context collection scope).mapper
        (scope.variableName ++ "." ++ member) =
      ⟨some (memberConfig mapping member),
        (recordNullableElementField context.scopes.length (memberConfig mapping member)
          member).recorded⟩ := by
  rw [lookupMapping_element, elementReference_member h.fields hmember]
  exact congrArg₂ Reading.mk rfl (List.append_nil _)

/-- The lookup of the variable itself, in a lambda over a projected collection. -/
theorem ReadsCollection.lookup_variable
    (h : ReadsCollection entries context path collection place mapping projection)
    (scope : LambdaScope) {field : String} (hfield : truthy mapping.field = some field) :
    ∃ config, lookupMapping (enterLambdaScope context collection scope).mapper scope.variableName =
        ⟨some config, []⟩ ∧ config.relation = none ∧ config.field = some field := by
  obtain ⟨field', ⟨-, hlast, -⟩, -⟩ := h.resolves.ends
  have hprojection : truthy (((resolveFieldReference collection context).result.relations.bind
      List.getLast?).bind RelationConfig.field) = some field := by
    cases hrelations : (resolveFieldReference collection context).result.relations with
    | none => simp [hrelations] at hlast
    | some relations =>
        rw [hrelations, Option.getD_some] at hlast
        rw [Option.bind_some, hlast]
        exact hfield
  have hresult : (projectedElement context collection).result = some {
      field := some field
      valueType := ((lookupMapping context.mapper collection).result.bind
        MapperConfig.valueType).orElse fun _ =>
          (mapping.fields.bind (·.lookup field)).bind MapperConfig.valueType
      nullAttributeRepresentation := some .explicit
      nullable := (mapping.fields.bind (·.lookup field)).bind MapperConfig.nullable
      relation := none } := by
    simp [projectedElement, hprojection, h.fields]
  have hrecorded : (projectedElement context collection).recorded = [] := by
    simp [projectedElement, hprojection, h.recorded, h.lookup, h.fields]
  obtain ⟨config, hconfig, hrelation, hcolumn⟩ : ∃ config,
      (projectedElement context collection).result = some config ∧ config.relation = none ∧
        config.field = some field := by
    refine ⟨_, hresult, ?_, ?_⟩ <;> rfl
  refine ⟨config, congrArg₂ Reading.mk ?_ ?_, hrelation, hcolumn⟩
  · simp [scopedMapper, hconfig]
  · simp [scopedMapper, hconfig, hrecorded]

end Element

/-- What is declared of a member of an element. -/
theorem declaredAttribute_member
    {variableName collection : String} (hmember : isBareName member = true)
    (h : declaredAttribute entries ((variableName, collection) :: lambdas)
      (variableName ++ "." ++ member) = some a) :
    ∃ place mapping projection, declaredAttribute entries lambdas collection =
        some (.relation place mapping projection) ∧ member ≠ "" ∧
      a = .ofConfig place member ((mapping.fields.getD []).lookup member) := by
  rw [declaredAttribute, if_pos (isReachedFrom_append _ _), strippedKey_append] at h
  split at h
  next place mapping projection hcollection =>
    simp only [pathParts_of_isBareName hmember, attributeAt] at h
    split at h
    next => cases h
    next hne => exact ⟨place, mapping, projection, hcollection, hne, (Option.some.inj h).symm⟩
  next => cases h

/-- What is declared of an element itself. -/
theorem declaredAttribute_variable {variableName collection : String}
    (h : declaredAttribute entries ((variableName, collection) :: lambdas) variableName = some a) :
    ∃ place mapping projection field, declaredAttribute entries lambdas collection =
        some (.relation place mapping projection) ∧ truthy mapping.field = some field ∧
      a = .column place field := by
  rw [declaredAttribute, if_pos (isReachedFrom_self _), strippedKey_self] at h
  split at h
  next place mapping projection hcollection =>
    obtain ⟨field, hfield, rfl⟩ := Option.map_eq_some_iff.mp h
    exact ⟨place, mapping, projection, field, hcollection, hfield, rfl⟩
  next => cases h

/-- A local collection is read from its place. -/
theorem Enters.collection {lambdas : List (String × String)} {context : TranslationContext}
    {path place : List String} {collection : String} {mapping : RelationMapping}
    {projection : Option String} (h : Enters entries lambdas context path)
    (hlocal : IsLocal entries lambdas collection)
    (hdeclared : declaredAttribute entries lambdas collection =
      some (.relation place mapping projection)) :
    ReadsCollection entries context path collection place mapping projection := by
  induction h generalizing collection place mapping projection with
  | root hscopes hmapper => exact rootAttribute_collection hmapper hdeclared
  | @lambda lambdas context path elements outer outerMapping outerProjection hcontext houterLocal
      houter scope ih =>
      have hreads := ih houterLocal houter
      obtain rfl | ⟨member, hmember, rfl, -⟩ := hlocal
      · obtain ⟨_, _, _, _, _, _, hcolumn⟩ := declaredAttribute_variable hdeclared
        cases hcolumn
      · obtain ⟨place', mapping', projection', houter', hne, hattribute⟩ :=
          declaredAttribute_member hmember hdeclared
        obtain ⟨rfl, rfl, rfl⟩ := Attribute.relation.inj (Option.some.inj (houter.symm.trans houter'))
        rw [Attribute.ofConfig] at hattribute
        split at hattribute
        next next hbind =>
          obtain ⟨config, hconfig, hmapping⟩ := Option.bind_eq_some_iff.mp hbind
          obtain ⟨rfl, rfl, rfl⟩ := Attribute.relation.inj hattribute
          have hlookup := hreads.lookup_member scope hmember
          have hmemberConfig : memberConfig outerMapping member = config := by
            simp [memberConfig, hconfig]
          have hrecord : (recordNullableElementField context.scopes.length config member).recorded =
              [] := by simp [recordNullableElementField, hmapping]
          rw [hmemberConfig, hrecord] at hlookup
          have hconfigResult := congrArg Reading.result hlookup
          have hdeclaredHere := hreads.declared.fields member config mapping hconfig hmapping
          refine ⟨?_, congrArg Reading.recorded hlookup,
            .relation hconfigResult hmapping hdeclaredHere, ?_, hdeclaredHere⟩
          · rw [lookupElementFields, hlookup]
            exact congrArg (fun fields => (⟨fields, []⟩ : Reading _)) (by simp [hmapping])
          · rw [(resolveFieldReference_relation hconfigResult hmapping).2, hlookup]
        next => cases hattribute

/-- The mapping of a member that is declared to be a column. -/
theorem memberConfig_column {mapping : RelationMapping} {name : String}
    {path place : List String} (hne : member ≠ "")
    (hnamed : ∀ config, (mapping.fields.getD []).lookup member = some config →
      config.relation = none → truthy config.field ≠ none)
    (h : Attribute.column place name =
      .ofConfig path member ((mapping.fields.getD []).lookup member)) :
    path = place ∧ (memberConfig mapping member).relation = none ∧
      truthy (memberConfig mapping member).field = some name := by
  rw [Attribute.ofConfig] at h
  rw [memberConfig]
  cases hlookup : (mapping.fields.getD []).lookup member with
  | none =>
      rw [hlookup] at h
      obtain ⟨rfl, rfl⟩ := Attribute.column.inj h
      exact ⟨rfl, rfl, truthy_of_ne_empty hne⟩
  | some config =>
      rw [hlookup] at h
      rw [Option.bind_some] at h
      split at h
      next => cases h
      next hrelation =>
        obtain ⟨rfl, rfl⟩ := Attribute.column.inj h
        refine ⟨rfl, hrelation, ?_⟩
        cases hfield : truthy config.field with
        | none => exact absurd hfield (hnamed config hlookup hrelation)
        | some field => simp [hfield]

/-- A local reference resolves to what it is declared to be, and records its column. -/
theorem Enters.resolves {context : TranslationContext} {path : List String}
    (h : Enters entries lambdas context path) (hlocal : IsLocal entries lambdas reference)
    (hdeclared : declaredAttribute entries lambdas reference = some a) :
    ResolvesTo entries context path reference a ∧
      ∃ columns : List String, (∀ column ∈ columns, a.place = some (path, column)) ∧
        (resolveFieldReference reference context).Records context columns := by
  cases a with
  | relation place mapping projection =>
      have hreads := h.collection hlocal hdeclared
      exact ⟨hreads.resolves, [], by simp, by simp [Reading.Records, hreads.recorded]⟩
  | column place name =>
      cases h with
      | root hscopes hmapper =>
          refine ⟨rootAttribute_resolves hmapper hdeclared, [], by simp, ?_⟩
          have hlookup : ∀ key, (lookupMapping context.mapper key).recorded = [] := by
            intro key
            rw [hmapper]
            rfl
          rw [Reading.Records, resolveFieldReference_recorded hlookup]
          simp
      | @lambda lambdas context elements _ collection mapping projection hcontext hcollectionLocal
          hcollection scope =>
          have hreads := hcontext.collection hcollectionLocal hcollection
          obtain rfl | ⟨member, hmember, rfl, hnamed⟩ := hlocal
          · obtain ⟨place', mapping', projection', field, hcollection', hfield, hcolumn⟩ :=
              declaredAttribute_variable hdeclared
            obtain ⟨rfl, rfl, rfl⟩ :=
              Attribute.relation.inj (Option.some.inj (hcollection.symm.trans hcollection'))
            obtain ⟨rfl, rfl⟩ := Attribute.column.inj hcolumn
            obtain ⟨config, hlookup, hrelation, hname⟩ := hreads.lookup_variable scope hfield
            obtain ⟨hresult, hrecorded⟩ :=
              resolveFieldReference_column (congrArg Reading.result hlookup) hrelation
            have hne := truthy_ne_empty hfield
            refine ⟨.column (by rw [hresult]) ?_ hne, [], by simp, ?_⟩
            · simp [hresult, hname, truthy_of_ne_empty hne]
            · rw [Reading.Records, hrecorded, hlookup]
              simp
          · obtain ⟨place', mapping', projection', hcollection', hne, hattribute⟩ :=
              declaredAttribute_member hmember hdeclared
            obtain ⟨rfl, rfl, rfl⟩ :=
              Attribute.relation.inj (Option.some.inj (hcollection.symm.trans hcollection'))
            obtain ⟨rfl, hrelation, hfield⟩ := memberConfig_column hne
              (fun config hconfig hnone => hnamed _ _ _ config hcollection hconfig hnone) hattribute
            have hlookup := hreads.lookup_member scope hmember
            obtain ⟨hresult, hrecorded⟩ :=
              resolveFieldReference_column (congrArg Reading.result hlookup) hrelation
            refine ⟨.column (by rw [hresult]) (by simp [hresult, hfield])
              (truthy_ne_empty hfield), ?_⟩
            rw [recordNullableElementField, hrelation, hfield] at hlookup
            by_cases hnullable : (memberConfig mapping member).nullable = some false
            · refine ⟨[], by simp, ?_⟩
              rw [Reading.Records, hrecorded, hlookup]
              simp [hnullable]
            · refine ⟨[name], by simp [Attribute.place], ?_⟩
              rw [Reading.Records, hrecorded, hlookup]
              simp [hnullable, enterLambdaScope]

end QueryPlanAdapters.Prisma
