import QueryPlanAdapters.Prisma.Resolution
import QueryPlanAdapters.Prisma.Quantifiers

/-!
# Prisma: every leaf lands on the model it belongs to

When every reference left in a lambda body is to the lambda's own element, each leaf of
the filter is at the declared place of a reference. This is shown for both directions of
the translator at once, with what it records for the lambdas around, by induction on the
recursion.
-/

namespace QueryPlanAdapters.Prisma

variable {entries : String → Option MapperConfig} {places : Set (List String × String)}

/-! ## Filters around a leaf -/

/-- A relation declared at the end of a path. -/
abbrev DeclaredNext (entries : String → Option MapperConfig) (path : List String)
    (relation : RelationConfig) : Prop :=
  ∃ mapping, DeclaredRelation entries (path ++ [relation.name]) mapping ∧
    relation = toRelationConfig mapping

variable {fieldRef : ResolvedFieldReference} {v : Literal}

theorem Lands.relationFilter {path : List String} {relation : RelationConfig}
    (operator : RelationOperator) {inner : PrismaFilter} (hrelation : DeclaredNext entries path relation)
    (h : Lands entries places (path ++ [relation.name]) inner) :
    Lands entries places path (relationFilter relation operator inner) := by
  obtain ⟨mapping, hmapping, hrelation⟩ := hrelation
  rw [Prisma.relationFilter]
  split
  next => exact .relation _ h
  next declared hdeclared =>
    have hfilter : mapping.subqueryFilter = some declared := by rwa [hrelation] at hdeclared
    have hlands : Lands entries places (path ++ [relation.name]) declared :=
      .declared hmapping hfilter
    have hboth : ∀ filter, Lands entries places (path ++ [relation.name]) filter →
        Lands entries places (path ++ [relation.name]) (.AND [declared, filter]) := by
      intro filter hinner
      exact .AND (by simp [hlands, hinner])
    split
    · split
      · exact .relation _ h
      · exact .relation _ (hboth _ (.NOT h))
    · apply Lands.relation
      split
      · exact hlands
      · exact hboth _ h

theorem Lands.wrapInRelations {path : List String} {relations : List RelationConfig}
    {filter : PrismaFilter} (halong : DeclaredAlong entries path relations)
    (h : Lands entries places (pathThrough path relations) filter) :
    Lands entries places path (wrapInRelations relations filter) := by
  induction relations generalizing path with
  | nil =>
      rw [pathThrough_nil] at h
      exact h
  | cons relation relations ih =>
      rw [pathThrough_cons] at h
      exact .relationFilter _ halong.1 (ih halong.2 h)

theorem Lands.hopsExist {path : List String} {hops : List RelationConfig} {filter : PrismaFilter}
    (halong : DeclaredAlong entries path hops) (h : buildHopsExistFilter hops = some filter) :
    Lands entries places path filter := by
  rw [buildHopsExistFilter] at h
  split at h
  next => cases h
  next =>
    obtain rfl := Option.some.inj h
    exact .wrapInRelations halong .empty

/-! ## Leaves -/

/-- Whether the column of a resolved reference is at one of the places. -/
structure FieldAt (entries : String → Option MapperConfig) (places : Set (List String × String))
    (path : List String) (fieldRef : ResolvedFieldReference) : Prop where
  along : DeclaredAlong entries path (fieldRef.relations.getD [])
  leaf : ∀ fieldName, getLeafField fieldRef.path = .ok fieldName →
    (pathThrough path (fieldRef.relations.getD []), fieldName) ∈ places

theorem FieldAt.wrap {path : List String} {fieldName : String}
    {filter : PrismaFilter} (h : FieldAt entries places path fieldRef)
    (hname : getLeafField fieldRef.path = .ok fieldName)
    (hfilter : ∀ path', (path', fieldName) ∈ places → Lands entries places path' filter) :
    Lands entries places path (wrapInRelations (fieldRef.relations.getD []) filter) :=
  .wrapInRelations h.along (hfilter _ (h.leaf fieldName hname))

theorem FieldAt.buildFieldFilter {path : List String}
    {operator : FieldOperator} {filter : PrismaFilter}
    (h : FieldAt entries places path fieldRef)
    (hrun : buildFieldFilter fieldRef operator v = .ok filter) : Lands entries places path filter := by
  obtain ⟨fieldName, hname, hfilter⟩ := Except.bind_eq_ok_iff.mp hrun
  obtain rfl := Except.ok.inj hfilter
  exact h.wrap hname fun path' hplace => .field operator v hplace

theorem FieldAt.guardedFieldFilter {path : List String}
    {fieldName : String} {operator : FieldOperator} {filter : PrismaFilter}
    (h : FieldAt entries places path fieldRef) (hname : getLeafField fieldRef.path = .ok fieldName)
    (hrun : guardedFieldFilter fieldRef (.field fieldName operator v) = .ok filter) :
    Lands entries places path filter := by
  obtain ⟨name, hname', hfilter⟩ := Except.bind_eq_ok_iff.mp hrun
  obtain rfl := Except.ok.inj (hname.symm.trans hname')
  obtain rfl := Except.ok.inj hfilter
  refine h.wrap hname fun path' hplace => .AND ?_
  simp [Lands.field _ _ hplace]

theorem FieldAt.booleanOrdering {path : List String}
    {operator : ComparisonOperator} {b : Bool} {filter : PrismaFilter}
    (h : FieldAt entries places path fieldRef)
    (hrun : buildBooleanOrderingFilter fieldRef operator b = .ok filter) :
    Lands entries places path filter := by
  rw [buildBooleanOrderingFilter] at hrun
  split at hrun
  next => exact h.buildFieldFilter hrun
  next =>
    obtain ⟨fieldName, hname, hfilter⟩ := Except.bind_eq_ok_iff.mp hrun
    obtain rfl := Except.ok.inj hfilter
    refine h.wrap hname fun path' hplace => ?_
    have hboth : ∀ filter ∈ [PrismaFilter.field fieldName .equals (.bool false),
        .field fieldName .equals (.bool true)], Lands entries places path' filter := by
      simp [Lands.field _ _ hplace]
    split
    · exact .AND hboth
    · exact .OR hboth

theorem Lands.fractionalBracket {path : List String} {fieldName : String}
    (operator : ComparisonOperator) (value : Double) (h : (path, fieldName) ∈ places) :
    Lands entries places path (fractionalBracket fieldName operator value) := by
  have hleaf : ∀ op v, Lands entries places path (.field fieldName op v) := fun op v => .field op v h
  have hbracket : Lands entries places path (.AND [.field fieldName .equals (.number value),
      .field fieldName .gt (.number value.floor), .field fieldName .lt (.number value.ceil)]) :=
    .AND (by simp [hleaf])
  cases operator with
  | gt => exact .OR (by simp [hleaf])
  | ge => exact .AND (by simp [hleaf])
  | lt => exact .OR (by simp [hleaf])
  | le => exact .AND (by simp [hleaf])
  | eq => exact hbracket
  | ne => exact .NOT hbracket

theorem FieldAt.buildComparisonFilter {path : List String}
    {context : TranslationContext} {operator : ComparisonOperator}
    {filter : PrismaFilter} (h : FieldAt entries places path fieldRef)
    (hrun : buildComparisonFilter context fieldRef operator v = .ok filter) :
    Lands entries places path filter := by
  obtain ⟨-, hrun⟩ := Except.bind_unit_eq_ok_iff.mp hrun
  split at hrun
  next => exact h.buildFieldFilter (Except.bind_unit_eq_ok_iff.mp hrun).2
  next =>
    split at hrun
    next => exact h.booleanOrdering hrun
    next =>
      split at hrun
      next =>
        obtain ⟨fieldName, hname, hequality⟩ := Except.bind_eq_ok_iff.mp hrun
        obtain ⟨equality, hguarded, hfilter⟩ := Except.bind_eq_ok_iff.mp hequality
        have hlands := h.guardedFieldFilter hname hguarded
        obtain rfl := Except.ok.inj hfilter
        split
        · exact hlands
        · exact .NOT hlands
      next =>
        split at hrun
        next =>
          split at hrun
          next => exact h.buildFieldFilter hrun
          next =>
            obtain ⟨fieldName, hname, hfilter⟩ := Except.bind_eq_ok_iff.mp hrun
            obtain rfl := Except.ok.inj hfilter
            exact h.wrap hname fun path' hplace => .fractionalBracket _ _ hplace
        next => exact h.buildFieldFilter hrun

/-! ## Macros -/

/-- What is recorded with a lambda whose element is at the end of a path. -/
structure RecordLands (entries : String → Option MapperConfig) (places : Set (List String × String))
    (path : List String) (record : ScopeRecord) : Prop where
  nullableFields : ∀ field ∈ record.nullableFields, (path, field) ∈ places
  unknownFilters : ∀ filter ∈ record.unknownFilters, Lands entries places path filter

/-- The parts of a macro whose elements are at the end of a path. -/
structure PartsLand (entries : String → Option MapperConfig) (places : Set (List String × String))
    (path : List String) (parts : CollectionLambdaParts) : Prop where
  head : DeclaredNext entries path parts.head
  rest : DeclaredAlong entries (path ++ [parts.head.name]) parts.restRelations
  filterValue : parts.filterValue = wrapInRelations parts.restRelations parts.elementFilter
  element : Lands entries places (pathThrough path (parts.head :: parts.restRelations))
    parts.elementFilter
  record : RecordLands entries places (pathThrough path (parts.head :: parts.restRelations))
    { nullableFields := parts.nullableFields, unknownFilters := parts.unknownFilters }

variable (entries) in
theorem Lands.nullWitness {path : List String} {nullableFields : List String}
    (h : ∀ field ∈ nullableFields, (path, field) ∈ places) :
    Lands entries places path (buildNullWitnessFilter nullableFields) := by
  have hchecks : ∀ filter ∈ nullableFields.map fun field => PrismaFilter.shorthand field .null,
      Lands entries places path filter := by
    intro filter hfilter
    obtain ⟨field, hfield, rfl⟩ := List.mem_map.mp hfilter
    exact .shorthand _ (h field hfield)
  rw [buildNullWitnessFilter]
  split
  next check hcheck => exact hchecks check (by rw [hcheck]; exact List.mem_singleton.mpr rfl)
  next => exact .OR hchecks

namespace PartsLand

variable {path : List String} {parts : CollectionLambdaParts}

variable (h : PartsLand entries places path parts)
include h

theorem wrap {filter : PrismaFilter}
    (hfilter : Lands entries places (pathThrough path (parts.head :: parts.restRelations)) filter) :
    Lands entries places path (wrapCollectionElementFilter parts filter) := by
  rw [pathThrough_cons] at hfilter
  exact .relationFilter _ h.head (.wrapInRelations h.rest hfilter)

theorem overHead (operator : RelationOperator) :
    Lands entries places path (relationFilter parts.head operator parts.filterValue) := by
  have helement := h.element
  rw [pathThrough_cons] at helement
  rw [h.filterValue]
  exact .relationFilter _ h.head (.wrapInRelations h.rest helement)

theorem unknownElement {filter : PrismaFilter}
    (hfilter : buildUnknownElementFilter parts = some filter) :
    Lands entries places (pathThrough path (parts.head :: parts.restRelations)) filter := by
  have hwitness := Lands.nullWitness entries h.record.nullableFields
  have heach : ∀ filter ∈ parts.unknownFilters ++
      (if parts.nullableFields.isEmpty then [] else [buildNullWitnessFilter parts.nullableFields]),
      Lands entries places (pathThrough path (parts.head :: parts.restRelations)) filter := by
    intro filter hfilter
    obtain hfilter | hfilter := List.mem_append.mp hfilter
    · exact h.record.unknownFilters filter hfilter
    · split at hfilter
      · cases hfilter
      · obtain rfl := List.mem_singleton.mp hfilter
        exact hwitness
  rw [buildUnknownElementFilter] at hfilter
  split at hfilter
  next => cases hfilter
  next only honly =>
    obtain rfl := Option.some.inj hfilter
    exact heach only (by rw [honly]; exact List.mem_singleton.mpr rfl)
  next =>
    obtain rfl := Option.some.inj hfilter
    exact .OR heach

theorem leadingHops {filter : PrismaFilter}
    (hfilter : buildLeadingHopsExistFilter parts.head parts.restRelations = some filter) :
    Lands entries places path filter := by
  rw [buildLeadingHopsExistFilter] at hfilter
  split at hfilter
  next => cases hfilter
  next hne =>
    apply Lands.hopsExist _ hfilter
    have hsplit := List.dropLast_append_getLast (by simpa using hne : parts.restRelations ≠ [])
    have hrest := h.rest
    rw [← hsplit] at hrest
    exact ⟨h.head, hrest.of_append.1⟩

theorem positiveChainAll : Lands entries places path (positiveChainAllFilter parts) := by
  have huniversal : ∀ relations path', DeclaredAlong entries path' relations →
      Lands entries places (pathThrough path' relations) parts.elementFilter →
        Lands entries places path' (relations.foldr (fun relation universal =>
          relationFilter relation (if relation.type = .one then .is else .every) universal)
          parts.elementFilter) := by
    intro relations
    induction relations with
    | nil =>
        intro path' _ h
        rwa [pathThrough_nil] at h
    | cons relation relations ih =>
        intro path' halong h
        rw [pathThrough_cons] at h
        exact .relationFilter _ halong.1 (ih _ halong.2 h)
  have helement := h.element
  rw [pathThrough_cons] at helement
  have hall := Lands.relationFilter .every h.head (huniversal _ _ h.rest helement)
  have hwitness := h.wrap (.nullWitness entries h.record.nullableFields)
  have hhops : ∀ filter ∈ (buildLeadingHopsExistFilter parts.head parts.restRelations).toList,
      Lands entries places path filter := fun filter hfilter =>
    h.leadingHops (Option.mem_toList.mp hfilter)
  rw [positiveChainAllFilter]
  split
  · apply Lands.AND
    intro filter hfilter
    obtain hfilter | hfilter := List.mem_append.mp hfilter
    · exact hhops filter hfilter
    · obtain rfl := List.mem_singleton.mp hfilter
      exact hall
  · apply Lands.AND
    intro filter hfilter
    simp only [List.mem_append, List.mem_singleton] at hfilter
    obtain (hfilter | rfl) | rfl := hfilter
    · exact hhops filter hfilter
    · exact hall
    · exact .NOT hwitness

/-- A direct relation's elements are those of its head. -/
theorem excludeNullElements (hdirect : parts.restRelations = []) {base : PrismaFilter}
    (hbase : Lands entries places path base) :
    Lands entries places path (excludeNullElements base parts) := by
  rw [Prisma.excludeNullElements]
  split
  · exact hbase
  · apply Lands.AND
    have hwitness := Lands.nullWitness entries h.record.nullableFields
    rw [hdirect, pathThrough_cons, pathThrough_nil] at hwitness
    simp [hbase, Lands.relationFilter .none h.head hwitness]

end PartsLand

/-! ## Translating -/

/-- The records of a translation, of which only the innermost has changed. -/
def Updates (entries : String → Option MapperConfig) (places : Set (List String × String))
    (path : List String) (context : TranslationContext) (scopes scopes' : List ScopeRecord) : Prop :=
  ∃ update, scopes' = scopes.modify (context.scopes.length - 1) update ∧
    ∀ record, RecordLands entries places path record → RecordLands entries places path (update record)

section Translating

variable {lambdas : List (String × String)} {context : TranslationContext} {path : List String}
  {reference : String} {scopes scopes' scopes'' : List ScopeRecord} {rewritten : Bool}

namespace Updates

theorem refl : Updates entries places path context scopes scopes :=
  ⟨id, (List.modify_id _ _).symm, fun _ h => h⟩

theorem trans (h : Updates entries places path context scopes scopes')
    (h' : Updates entries places path context scopes' scopes'') :
    Updates entries places path context scopes scopes'' := by
  obtain ⟨update, rfl, hupdate⟩ := h
  obtain ⟨update', rfl, hupdate'⟩ := h'
  exact ⟨update' ∘ update, List.modify_modify_eq .., fun record hrecord =>
    hupdate' _ (hupdate record hrecord)⟩

theorem length (h : Updates entries places path context scopes scopes') :
    scopes'.length = scopes.length := by
  obtain ⟨update, rfl, -⟩ := h
  exact List.length_modify ..

end Updates

/-- A lookup that records columns of the current record. -/
def Reading.RecordsAt {α : Type} (places : Set (List String × String)) (path : List String)
    (context : TranslationContext) (x : Reading α) : Prop :=
  ∃ columns : List String, (∀ column ∈ columns, (path, column) ∈ places) ∧
    x.Records context columns

variable {α : Type} {op : ComparisonOperator} {v : Literal} {collection : String}

theorem Reading.RecordsAt.pure (a : α) :
    (Pure.pure a : Reading α).RecordsAt places path context :=
  ⟨[], by simp, Reading.Records.pure context a⟩

theorem Reading.RecordsAt.bind {β : Type} {x : Reading α} {f : α → Reading β}
    (hx : x.RecordsAt places path context) (hf : (f x.result).RecordsAt places path context) :
    (x >>= f).RecordsAt places path context := by
  obtain ⟨columns, hcolumns, hrecords⟩ := hx
  obtain ⟨more, hmore, hrecordsMore⟩ := hf
  refine ⟨columns ++ more, fun column hcolumn => ?_, hrecords.bind hrecordsMore⟩
  exact (List.mem_append.mp hcolumn).elim (hcolumns column) (hmore column)

variable (entries) in
/-- Running such a lookup. -/
theorem Updates.reading {x : Reading α} {a : α} (hx : x.RecordsAt places path context)
    (hlength : scopes.length = context.scopes.length)
    (hrun : reading x scopes = .ok (a, scopes')) :
    x.result = a ∧ Updates entries places path context scopes scopes' := by
  obtain ⟨columns, hcolumns, hrecords⟩ := hx
  obtain ⟨hresult, rfl⟩ := (reading_eq_ok_iff hrecords hlength).mp hrun
  refine ⟨hresult, _, rfl, fun record hrecord => ⟨fun field hfield => ?_, fun filter hfilter => ?_⟩⟩
  · obtain hfield | hfield := ScopeRecord.mem_foldl_addNullable.mp hfield
    · exact hrecord.nullableFields field hfield
    · exact hcolumns field hfield
  · rw [ScopeRecord.foldl_addNullable_unknownFilters] at hfilter
    exact hrecord.unknownFilters filter hfilter

/-- A reference that a condition may make. -/
structure Refers (entries : String → Option MapperConfig) (places : Set (List String × String))
    (lambdas : List (String × String)) (reference : String) : Prop where
  isLocal : IsLocal entries lambdas reference
  declared : IsPlaced entries places lambdas reference ∨ IsRelation entries lambdas reference

/-- The relations of a reference are declared, and what it records are columns. -/
theorem Refers.resolves (h : Refers entries places lambdas reference)
    (hcontext : Enters entries lambdas context path) :
    DeclaredAlong entries path
        ((resolveFieldReference reference context).result.relations.getD []) ∧
      (resolveFieldReference reference context).RecordsAt places path context := by
  obtain ⟨place, hplace, hdeclared⟩ | ⟨place, mapping, projection, hdeclared⟩ := h.declared
  · obtain ⟨a, hattribute, hat⟩ := Option.bind_eq_some_iff.mp hdeclared
    obtain ⟨hresolves, columns, hcolumns, hrecords⟩ := hcontext.resolves h.isLocal hattribute
    refine ⟨hresolves.along, columns, fun column hcolumn => ?_, hrecords⟩
    rw [Option.some.inj ((hcolumns column hcolumn).symm.trans hat)]
    exact hplace
  · obtain ⟨hresolves, columns, hcolumns, hrecords⟩ := hcontext.resolves h.isLocal hdeclared
    have hreads := hcontext.collection h.isLocal hdeclared
    exact ⟨hresolves.along, [], by simp, by simp [Reading.Records, hreads.recorded]⟩

/-- A placed reference resolves to a column at one of the places. -/
theorem IsPlaced.fieldAt (h : IsPlaced entries places lambdas reference)
    (hlocal : IsLocal entries lambdas reference) (hcontext : Enters entries lambdas context path) :
    FieldAt entries places path (resolveFieldReference reference context).result := by
  obtain ⟨place, hplace, hdeclared⟩ := h
  obtain ⟨a, hattribute, hat⟩ := Option.bind_eq_some_iff.mp hdeclared
  obtain ⟨⟨halong, field, hends, hpath⟩, -⟩ := hcontext.resolves hlocal hattribute
  refine ⟨halong, fun fieldName hname => ?_⟩
  obtain ⟨name, hfield, hplaceAt⟩ : ∃ name, truthy field = some name ∧
      place = (pathThrough path
        ((resolveFieldReference reference context).result.relations.getD []), name) := by
    cases a with
    | column at_ name =>
        obtain ⟨rfl, hfield⟩ := hends
        exact ⟨name, hfield, (Option.some.inj hat).symm⟩
    | relation at_ mapping projection =>
        obtain ⟨rfl, -, rfl⟩ := hends
        obtain ⟨name, hfield, hat⟩ := Option.map_eq_some_iff.mp hat
        exact ⟨name, hfield, hat.symm⟩
  rw [hpath name hfield] at hname
  rw [getLeafField, List.getLast?_singleton, truthy_of_ne_empty (truthy_ne_empty hfield)] at hname
  obtain rfl := Except.ok.inj hname
  rwa [← hplaceAt]

/-! ### Hops -/

theorem DeclaredAlong.requiredHops {relations : List RelationConfig}
    (h : DeclaredAlong entries path relations) :
    DeclaredAlong entries path (requiredHops relations) := by
  rw [Prisma.requiredHops]
  split
  next => trivial
  next last hlast =>
    split
    next => exact h
    next =>
      have hne : relations ≠ [] := by
        rintro rfl
        cases hlast
      rw [← List.dropLast_append_getLast hne] at h
      exact h.of_append.1

theorem Refers.hopFilters {names : List String}
    (h : ∀ name ∈ names, Refers entries places lambdas name)
    (hcontext : Enters entries lambdas context path) :
    (∀ filter ∈ (hopFilters context names).result, Lands entries places path filter) ∧
      (hopFilters context names).RecordsAt places path context := by
  induction names with
  | nil => exact ⟨by simp [Prisma.hopFilters], .pure _⟩
  | cons name names ih =>
      obtain ⟨hname, hnames⟩ := List.forall_mem_cons.mp h
      obtain ⟨hfilters, hrecords⟩ := ih hnames
      obtain ⟨halong, hrecordsName⟩ := hname.resolves hcontext
      refine ⟨fun filter hfilter => ?_, hrecordsName.bind (hrecords.bind (.pure _))⟩
      rw [Prisma.hopFilters] at hfilter
      obtain hfilter | hfilter := List.mem_append.mp hfilter
      · exact .hopsExist halong.requiredHops (Option.mem_toList.mp hfilter)
      · exact hfilters filter hfilter

theorem mem_visitedReferencesEach {operands : List Node} {name : String} :
    name ∈ visitedReferencesEach operands ↔ ∃ operand ∈ operands, name ∈ visitedReferences operand := by
  induction operands with
  | nil => simp [visitedReferencesEach]
  | cons operand operands ih => simp [visitedReferencesEach, ih]

theorem Local.each {operator : PlanOperator} {operands : List Node}
    (h : Local entries lambdas (.expression operator operands))
    (hop : isCollectionOperator operator = false) :
    ∀ operand ∈ operands, Local entries lambdas operand := by
  cases h with
  | operands _ h => exact h
  | lambda hcollection _ _ => simp [hop] at hcollection

theorem not_isCollectionOperator {operator : PlanOperator}
    (h : (comparisonOperator operator).isSome = true) : isCollectionOperator operator = false := by
  cases operator <;> first | rfl | cases h

section Visited

variable {P : String → Prop}

theorem forall_visited_value (v : Literal) : ∀ name ∈ visitedReferences (.value v), P name := by
  intro name hname
  cases hname

theorem forall_visited_var {other : String} (h : P other) :
    ∀ name ∈ visitedReferences (.var other), P name := by
  intro name hname
  obtain rfl := List.mem_singleton.mp hname
  exact h

theorem forall_visited_expression {operator : PlanOperator} {operands : List Node}
    (h : ∀ operand ∈ operands, ∀ name ∈ visitedReferences operand, P name) :
    ∀ name ∈ visitedReferences (.expression operator operands), P name := by
  intro name hname
  rw [visitedReferences] at hname
  split at hname
  next => cases hname
  next =>
    obtain ⟨operand, hoperand, hname⟩ := mem_visitedReferencesEach.mp hname
    exact h operand hoperand name hname

theorem forall_visited_pair {operator : PlanOperator} {first second : Node}
    (hfirst : ∀ name ∈ visitedReferences first, P name)
    (hsecond : ∀ name ∈ visitedReferences second, P name) :
    ∀ name ∈ visitedReferences (.expression operator [first, second]), P name := by
  apply forall_visited_expression
  intro operand hoperand
  obtain rfl | hoperand := List.mem_cons.mp hoperand
  · exact hfirst
  · obtain rfl := List.mem_singleton.mp hoperand
    exact hsecond

theorem forall_visited_single {operator : PlanOperator} {operand : Node}
    (h : ∀ name ∈ visitedReferences operand, P name) :
    ∀ name ∈ visitedReferences (.expression operator [operand]), P name := by
  apply forall_visited_expression
  intro other hother
  obtain rfl := List.mem_singleton.mp hother
  exact h

end Visited

theorem Local.isLocal {name : String} (h : Local entries lambdas (.var name)) :
    IsLocal entries lambdas name := by
  cases h with
  | var h => exact h

section LocalMacros

variable {operator : PlanOperator} {body : Node}

theorem Local.quantified {collection variableName : String}
    (hop : operator = .exists ∨ operator = .all)
    (h : Local entries lambdas
      (.expression operator [.var collection, .expression .lambda [body, .var variableName]])) :
    IsLocal entries lambdas collection ∧
      Local entries ((variableName, collection) :: lambdas) body := by
  cases h with
  | operands hoperator => obtain rfl | rfl := hop <;> cases hoperator
  | lambda _ hcollection hbody => exact ⟨hcollection, hbody⟩

theorem Local.constantCollection {v : Literal} {lambda : List Node}
    (hop : operator = .exists ∨ operator = .all)
    (h : Local entries lambdas
      (.expression operator [.value v, .expression .lambda lambda])) : False := by
  cases h with
  | operands hoperator => obtain rfl | rfl := hop <;> cases hoperator

theorem Local.constantVariable {collection : String} {v : Literal}
    (hop : operator = .exists ∨ operator = .all)
    (h : Local entries lambdas
      (.expression operator [.var collection, .expression .lambda [body, .value v]])) : False := by
  cases h with
  | operands hoperator => obtain rfl | rfl := hop <;> cases hoperator

end LocalMacros

/-- The references of a condition, outside of its lambdas. -/
theorem Placed.refers {node : Node} (h : Placed entries places rewritten lambdas node)
    (hlocal : Local entries lambdas node) :
    ∀ name ∈ visitedReferences node, Refers entries places lambdas name := by
  induction h with
  | value v => exact forall_visited_value v
  | var hplaced => exact forall_visited_var ⟨hlocal.isLocal, .inl hplaced⟩
  | compared hop hplaced =>
      have hname := (hlocal.each (not_isCollectionOperator hop) _ List.mem_cons_self).isLocal
      exact forall_visited_pair (forall_visited_var ⟨hname, .inl hplaced⟩) (forall_visited_value _)
  | comparedFirst hop hplaced =>
      have hname := (hlocal.each (not_isCollectionOperator hop) _
        (List.mem_cons_of_mem _ List.mem_cons_self)).isLocal
      exact forall_visited_pair (forall_visited_value _) (forall_visited_var ⟨hname, .inl hplaced⟩)
  | constants a b hop => exact forall_visited_pair (forall_visited_value a) (forall_visited_value b)
  | @size _ _ collection _ hop hleaf hrelation =>
      have hsize := hlocal.each (not_isCollectionOperator hop) _ List.mem_cons_self
      have hcollection := hsize.each rfl _ List.mem_cons_self
      refine forall_visited_pair (forall_visited_single ?_) (forall_visited_value _)
      cases collection with
      | value v => exact forall_visited_value v
      | var name =>
          exact forall_visited_var ⟨hcollection.isLocal, .inr (hrelation name rfl)⟩
      | expression => cases hleaf
  | and h ih =>
      exact forall_visited_expression fun operand hoperand =>
        ih operand hoperand (hlocal.each rfl operand hoperand)
  | or h ih =>
      exact forall_visited_expression fun operand hoperand =>
        ih operand hoperand (hlocal.each rfl operand hoperand)
  | not h ih => exact forall_visited_single (ih (hlocal.each rfl _ List.mem_cons_self))
  | quantified hop hrelation h ih =>
      obtain ⟨hcollection, -⟩ := hlocal.quantified hop
      refine forall_visited_pair (forall_visited_var ⟨hcollection, .inr hrelation⟩) ?_
      intro name hname
      cases hname
  | constantCollection hop => exact (hlocal.constantCollection hop).elim
  | constantVariable hop => exact (hlocal.constantVariable hop).elim

/-- What an expression needs of the hops it dots through. -/
theorem Placed.hopsExist {node : Node} (h : Placed entries places rewritten lambdas node)
    (hlocal : Local entries lambdas node) (hcontext : Enters entries lambdas context path) :
    (∀ filter, (buildExpressionHopsExistFilter node context).result = some filter →
        Lands entries places path filter) ∧
      (buildExpressionHopsExistFilter node context).RecordsAt places path context := by
  have hnames : ∀ name ∈ (visitedReferences node).eraseDups, Refers entries places lambdas name :=
    fun name hname => h.refers hlocal name (List.mem_eraseDups.mp hname)
  obtain ⟨hfilters, hrecords⟩ := Refers.hopFilters hnames hcontext
  constructor
  · intro filter hfilter
    rw [buildExpressionHopsExistFilter, Reading.bind_result] at hfilter
    split at hfilter
    next => cases hfilter
    next only honly =>
      obtain rfl := Option.some.inj hfilter
      exact hfilters only (by rw [honly]; exact List.mem_singleton.mpr rfl)
    next =>
      obtain rfl := Option.some.inj hfilter
      exact .AND hfilters
  · refine hrecords.bind ?_
    split <;> exact .pure _

/-! ### Steps -/

/-- A translation whose filter lands, and that records what lands. -/
structure Landed (entries : String → Option MapperConfig) (places : Set (List String × String))
    (path : List String) (context : TranslationContext) (scopes : List ScopeRecord)
    (filter : PrismaFilter) (scopes' : List ScopeRecord) : Prop where
  lands : Lands entries places path filter
  updates : Updates entries places path context scopes scopes'

/-- A builder that lands every condition, in both directions. -/
def Builder.Lands (entries : String → Option MapperConfig) (places : Set (List String × String))
    (b : Builder) : Prop :=
  ∀ {rewritten : Bool} {lambdas : List (String × String)} {context : TranslationContext}
    {path : List String} {node : Node} (negated : Bool) {scopes scopes' : List ScopeRecord} {filter : PrismaFilter},
    Enters entries lambdas context path → Placed entries places rewritten lambdas node →
    Local entries lambdas node → scopes.length = context.scopes.length →
    b.build negated node context scopes = .ok (filter, scopes') →
    Landed entries places path context scopes filter scopes'

variable {b : Builder} {negated : Bool} {node : Node} {filter : PrismaFilter}

theorem negateFilter_lands {negation : PrismaFilter} (h : Lands entries places path filter)
    (hrun : negateFilter filter = .ok negation) : Lands entries places path negation := by
  rw [negateFilter] at hrun
  split at hrun
  next => cases hrun
  next =>
    obtain rfl := Except.ok.inj hrun
    exact .NOT h

theorem plainNegation_lands (hb : b.Lands entries places)
    (hcontext : Enters entries lambdas context path)
    (h : Placed entries places rewritten lambdas node) (hlocal : Local entries lambdas node)
    (hlength : scopes.length = context.scopes.length)
    (hrun : b.plainNegation node context scopes = .ok (filter, scopes')) :
    Landed entries places path context scopes filter scopes' := by
  obtain ⟨positive, middle, hpositive, hrun⟩ := Translation.bind_eq_ok_iff.mp hrun
  obtain ⟨hlands, hupdates⟩ := hb false hcontext h hlocal hlength hpositive
  obtain ⟨hops, last, hread, hrun⟩ := Translation.bind_eq_ok_iff.mp hrun
  obtain ⟨hhops, hrecords⟩ := h.hopsExist hlocal hcontext
  obtain ⟨rfl, hupdatesHops⟩ := Updates.reading entries hrecords
    (hupdates.length.trans hlength) hread
  obtain ⟨negation, final, hnegate, hfinal⟩ := Translation.bind_eq_ok_iff.mp hrun
  obtain ⟨hnegation, rfl⟩ := Translation.lift_eq_ok_iff.mp hnegate
  obtain ⟨rfl, rfl⟩ := Translation.pure_eq_ok_iff.mp hfinal
  refine ⟨?_, hupdates.trans hupdatesHops⟩
  have hnegationLands := negateFilter_lands hlands hnegation
  cases hresult : (buildExpressionHopsExistFilter node context).result with
  | none => exact hnegationLands
  | some filter => exact .AND (by simp [hhops filter hresult, hnegationLands])

/-- The operands of a junction. -/
theorem mapM_lands (hb : b.Lands entries places) (hcontext : Enters entries lambdas context path)
    {operands : List Node} {filters : List PrismaFilter}
    (h : ∀ operand ∈ operands, Placed entries places rewritten lambdas operand)
    (hlocal : ∀ operand ∈ operands, Local entries lambdas operand)
    (hlength : scopes.length = context.scopes.length)
    (hrun : operands.mapM (fun operand => b.build negated operand context) scopes =
      .ok (filters, scopes')) :
    (∀ filter ∈ filters, Lands entries places path filter) ∧
      Updates entries places path context scopes scopes' := by
  induction operands generalizing filters scopes with
  | nil =>
      obtain ⟨rfl, rfl⟩ := Translation.pure_eq_ok_iff.mp hrun
      exact ⟨by simp, .refl⟩
  | cons operand operands ih =>
      obtain ⟨hoperand, hoperands⟩ := List.forall_mem_cons.mp h
      obtain ⟨hlocalOperand, hlocalOperands⟩ := List.forall_mem_cons.mp hlocal
      rw [List.mapM_cons] at hrun
      obtain ⟨filter, middle, hfirst, hrun⟩ := Translation.bind_eq_ok_iff.mp hrun
      obtain ⟨others, last, hrest, hrun⟩ := Translation.bind_eq_ok_iff.mp hrun
      obtain ⟨rfl, rfl⟩ := Translation.pure_eq_ok_iff.mp hrun
      obtain ⟨hlands, hupdates⟩ := hb negated hcontext hoperand hlocalOperand hlength hfirst
      obtain ⟨hothers, hupdatesRest⟩ :=
        ih hoperands hlocalOperands (hupdates.length.trans hlength) hrest
      exact ⟨List.forall_mem_cons.mpr ⟨hlands, hothers⟩, hupdates.trans hupdatesRest⟩

variable (negated) in
theorem junction_lands (hb : b.Lands entries places)
    (hcontext : Enters entries lambdas context path)
    (junction : List PrismaFilter → PrismaFilter)
    (hjunction : ∀ {filters}, (∀ filter ∈ filters, Lands entries places path filter) →
      Lands entries places path (junction filters))
    {operands : List Node} (h : ∀ operand ∈ operands, Placed entries places rewritten lambdas operand)
    (hlocal : ∀ operand ∈ operands, Local entries lambdas operand)
    (hlength : scopes.length = context.scopes.length)
    (hrun : (do return junction (← operands.mapM fun operand => b.build negated operand context) :
      Translation PrismaFilter) scopes = .ok (filter, scopes')) :
    Landed entries places path context scopes filter scopes' := by
  obtain ⟨filters, middle, hfilters, hfinal⟩ := Translation.bind_eq_ok_iff.mp hrun
  obtain ⟨hlands, hupdates⟩ := mapM_lands hb hcontext h hlocal hlength hfilters
  obtain ⟨rfl, rfl⟩ := Translation.pure_eq_ok_iff.mp hfinal
  exact ⟨hjunction hlands, hupdates⟩

/-- What is built of a column. -/
theorem column_lands (hcontext : Enters entries lambdas context path) {name : String}
    {build : ResolvedFieldReference → Except Refusal PrismaFilter}
    (hplaced : IsPlaced entries places lambdas name) (hlocal : IsLocal entries lambdas name)
    (hlength : scopes.length = context.scopes.length)
    (hbuilds : ∀ {fieldRef}, FieldAt entries places path fieldRef → build fieldRef = .ok filter →
      Lands entries places path filter)
    (hrun : (do
      let fieldRef ← reading (resolveFieldReference name context)
      build fieldRef : Translation PrismaFilter) scopes = .ok (filter, scopes')) :
    Landed entries places path context scopes filter scopes' := by
  obtain ⟨fieldRef, middle, hread, hbuild⟩ := Translation.bind_eq_ok_iff.mp hrun
  have hrefers : Refers entries places lambdas name := ⟨hlocal, .inl hplaced⟩
  obtain ⟨rfl, hupdates⟩ :=
    Updates.reading entries (hrefers.resolves hcontext).2 hlength hread
  obtain ⟨hfilter, rfl⟩ := Translation.lift_eq_ok_iff.mp hbuild
  exact ⟨hbuilds (hplaced.fieldAt hlocal hcontext) hfilter, hupdates⟩

theorem relationSizeFilter_lands {predicate : CountPredicate}
    {hops : List RelationConfig} {deepest : RelationConfig}
    (halong : DeclaredAlong entries path (hops ++ [deepest]))
    (hrun : relationSizeFilter op predicate hops deepest = .ok filter) :
    Lands entries places path filter := by
  obtain ⟨hhops, hdeepest, -⟩ := halong.of_append
  simp only [relationSizeFilter] at hrun
  split at hrun
  next =>
    obtain rfl := Except.ok.inj hrun
    exact .wrapInRelations hhops .empty
  next =>
    split at hrun
    next => cases hrun
    next =>
      obtain rfl := Except.ok.inj hrun
      exact .wrapInRelations hhops (.relationFilter _ hdeepest .empty)

/-- The size of a relation has no leaf. -/
theorem size_lands
    {stringLength : ResolvedFieldReference → CountPredicate → Except Refusal PrismaFilter}
    (hcontext : Enters entries lambdas context path) {collection : Node} (hlocal : Local entries lambdas collection)
    (hrelation : ∀ name, collection = .var name → IsRelation entries lambdas name)
    (hlength : scopes.length = context.scopes.length)
    (hrun : handleSizeComparison stringLength op collection (.value v) context scopes =
      .ok (filter, scopes')) :
    Landed entries places path context scopes filter scopes' := by
  cases collection with
  | value => cases hrun
  | expression => cases hrun
  | var name =>
      have hrefers : Refers entries places lambdas name :=
        ⟨hlocal.isLocal, .inr (hrelation name rfl)⟩
      obtain ⟨halong, hrecords⟩ := hrefers.resolves hcontext
      obtain ⟨place, mapping, projection, hdeclared⟩ := hrelation name rfl
      obtain ⟨-, -, ⟨-, field, ⟨-, hlast, -⟩, -⟩, -, -⟩ :=
        hcontext.collection hlocal.isLocal hdeclared
      cases v with
      | number n =>
          rw [handleSizeComparison] at hrun
          split at hrun
          next => cases hrun
          next =>
            obtain ⟨fieldRef, middle, hread, hbuild⟩ := Translation.bind_eq_ok_iff.mp hrun
            obtain ⟨rfl, hupdates⟩ := Updates.reading entries hrecords hlength hread
            rw [hlast] at hbuild
            obtain ⟨hfilter, rfl⟩ := Translation.lift_eq_ok_iff.mp hbuild
            refine ⟨relationSizeFilter_lands ?_ hfilter, hupdates⟩
            rwa [List.dropLast_append_getLast? _ hlast]
      | _ => cases hrun

/-! ### Macros -/

theorem collectionRelations_eq_ok {operator : PlanOperator}
    {relations : Option (List RelationConfig)} {head : RelationConfig} {rest : List RelationConfig}
    (h : Builder.collectionRelations operator collection relations = .ok (head, rest)) :
    relations = some (head :: rest) := by
  match relations, h with
  | none, h => cases h
  | some [], h => cases h
  | some (first :: others), h =>
      rw [Builder.collectionRelations] at h
      split at h
      next => cases h
      next =>
        obtain ⟨rfl, rfl⟩ := Prod.mk.inj (Except.ok.inj h)
        rfl

/-- The body of a macro is translated on its element. -/
theorem parts_land (hb : b.Lands entries places) (hcontext : Enters entries lambdas context path)
    {operator : PlanOperator} {variableName : String} {body : Node}
    {parts : CollectionLambdaParts} (hcollection : IsLocal entries lambdas collection)
    (hrelation : IsRelation entries lambdas collection)
    (h : Placed entries places rewritten ((variableName, collection) :: lambdas) body)
    (hlocal : Local entries ((variableName, collection) :: lambdas) body)
    (hlength : scopes.length = context.scopes.length)
    (hrun : b.buildCollectionLambdaParts operator
      [.var collection, .expression .lambda [body, .var variableName]] context scopes =
        .ok (parts, scopes')) :
    PartsLand entries places path parts ∧ Updates entries places path context scopes scopes' := by
  obtain ⟨place, mapping, projection, hdeclared⟩ := id hrelation
  have hreads := hcontext.collection hcollection hdeclared
  have hrefers : Refers entries places lambdas collection := ⟨hcollection, .inr hrelation⟩
  obtain ⟨halong, hrecords⟩ := hrefers.resolves hcontext
  obtain ⟨field, ⟨hplace, -, -⟩, -⟩ := hreads.resolves.ends
  rw [Builder.buildCollectionLambdaParts] at hrun
  obtain ⟨lambda, start, hlambda, hread⟩ := Translation.bind_eq_ok_iff.mp hrun
  obtain ⟨hoperands, rfl⟩ := Translation.lift_eq_ok_iff.mp hlambda
  obtain rfl : (body, variableName) = lambda := Except.ok.inj hoperands
  obtain ⟨fieldRef, middle, hreading, hrelations⟩ := Translation.bind_eq_ok_iff.mp hread
  obtain ⟨rfl, hupdates⟩ := Updates.reading entries hrecords hlength hreading
  obtain ⟨⟨head, rest⟩, last, hlift, hscope⟩ := Translation.bind_eq_ok_iff.mp hrelations
  obtain ⟨hheadRest, rfl⟩ := Translation.lift_eq_ok_iff.mp hlift
  have hsome := collectionRelations_eq_ok hheadRest
  rw [hsome, Option.getD_some] at halong hplace
  obtain ⟨⟨condition, record⟩, final, hbody, hparts⟩ := Translation.bind_eq_ok_iff.mp hscope
  obtain ⟨rfl, rfl⟩ := Translation.pure_eq_ok_iff.mp hparts
  obtain ⟨inner, hpositive, rfl, rfl⟩ := Translation.withLambdaScope_eq_ok_iff.mp hbody
  have hmiddle : last.length = context.scopes.length := hupdates.length.trans hlength
  have hdepth : ∀ scope, (enterLambdaScope context collection scope).scopes.length =
      context.scopes.length + 1 := fun scope => List.length_append
  obtain ⟨hlands, update, hinner, hupdate⟩ := hb false
    (.lambda hcontext hcollection hdeclared
      { variableName, relationModel := (rest.getLast?.getD head).model })
    h hlocal (by simp [hdepth, hmiddle]) hpositive
  have hinnermost : inner = last ++ [update {}] := by
    rw [hinner, hdepth, Nat.add_sub_cancel, ← hmiddle, List.modify_eq_take_drop]
    simp
  have hrecord := hupdate {} ⟨by simp, by simp⟩
  subst hplace
  refine ⟨⟨halong.1, halong.2, rfl, hlands, ?_⟩, ?_⟩
  · simpa [hinnermost] using hrecord
  · simpa [hinnermost] using hupdates

theorem Updates.recordUnknown (h : Lands entries places path filter)
    (hlength : scopes.length = context.scopes.length)
    (hrun : recordUnknown context filter scopes = .ok ((), scopes')) :
    Updates entries places path context scopes scopes' := by
  refine ⟨_, recordUnknown_eq_ok hlength hrun, fun record hrecord => ⟨hrecord.nullableFields, ?_⟩⟩
  intro other hother
  obtain hother | hother := List.mem_append.mp hother
  · exact hrecord.unknownFilters other hother
  · obtain rfl := List.mem_singleton.mp hother
    exact h

theorem positiveMacro_lands {parts : CollectionLambdaParts} {operator : PlanOperator}
    (hop : operator = .exists ∨ operator = .all) (h : PartsLand entries places path parts)
    (hlength : scopes.length = context.scopes.length)
    (hrun : positiveCollectionFilter operator parts context scopes = .ok (filter, scopes')) :
    Landed entries places path context scopes filter scopes' := by
  obtain rfl | rfl := hop
  · have hsome := h.overHead .some
    rw [positiveCollectionFilter] at hrun
    cases hunknown : buildUnknownElementFilter parts with
    | none =>
      rw [hunknown] at hrun
      obtain ⟨rfl, rfl⟩ := Translation.pure_eq_ok_iff.mp hrun
      exact ⟨hsome, .refl⟩
    | some unknownElement =>
      rw [hunknown] at hrun
      obtain ⟨⟨⟩, middle, hrecord, hfinal⟩ := Translation.bind_eq_ok_iff.mp hrun
      obtain ⟨rfl, rfl⟩ := Translation.pure_eq_ok_iff.mp hfinal
      have hwrapped := h.wrap (h.unknownElement hunknown)
      refine ⟨hsome, .recordUnknown (.AND ?_) hlength hrecord⟩
      simp [Lands.NOT hsome, hwrapped]
  · rw [positiveCollectionFilter] at hrun
    split at hrun
    next hdirect =>
      obtain ⟨rfl, rfl⟩ := Translation.pure_eq_ok_iff.mp hrun
      exact ⟨h.excludeNullElements (List.isEmpty_iff.mp hdirect) (h.overHead .every), .refl⟩
    next =>
      obtain ⟨rfl, rfl⟩ := Translation.pure_eq_ok_iff.mp hrun
      exact ⟨h.positiveChainAll, .refl⟩

theorem negatedMacro_lands {parts : CollectionLambdaParts} {operator : PlanOperator}
    (hop : operator = .exists ∨ operator = .all) (h : PartsLand entries places path parts)
    (hrun : negatedCollectionFilter operator parts scopes = .ok (filter, scopes')) :
    Landed entries places path context scopes filter scopes' := by
  obtain rfl | rfl := hop
  · have hbase : Lands entries places path
        ((buildLeadingHopsExistFilter parts.head parts.restRelations).elim
          (.NOT (relationFilter parts.head .some parts.filterValue)) fun hops =>
            .AND [hops, .NOT (relationFilter parts.head .some parts.filterValue)]) := by
      have hnot := Lands.NOT (h.overHead .some)
      cases hhops : buildLeadingHopsExistFilter parts.head parts.restRelations with
      | none => exact hnot
      | some hops => exact .AND (by simp [h.leadingHops hhops, hnot])
    rw [negatedCollectionFilter] at hrun
    cases hunknown : buildUnknownElementFilter parts with
    | none =>
      rw [hunknown] at hrun
      obtain ⟨rfl, rfl⟩ := Translation.pure_eq_ok_iff.mp hrun
      exact ⟨hbase, .refl⟩
    | some unknownElement =>
      rw [hunknown] at hrun
      obtain ⟨rfl, rfl⟩ := Translation.pure_eq_ok_iff.mp hrun
      have hwrapped := h.wrap (h.unknownElement hunknown)
      exact ⟨.AND (by simp [hbase, Lands.NOT hwrapped]), .refl⟩
  · obtain ⟨negation, middle, hnegate, hfinal⟩ := Translation.bind_eq_ok_iff.mp hrun
    obtain ⟨hnegation, rfl⟩ := Translation.lift_eq_ok_iff.mp hnegate
    obtain ⟨rfl, rfl⟩ := Translation.pure_eq_ok_iff.mp hfinal
    exact ⟨h.wrap (negateFilter_lands h.element hnegation), .refl⟩

/-- A quantifier over a relation. -/
theorem macro_lands (hb : b.Lands entries places) (hcontext : Enters entries lambdas context path)
    {operator : PlanOperator} {variableName : String} {body : Node}
    (hop : operator = .exists ∨ operator = .all) (hrelation : IsRelation entries lambdas collection)
    (h : Placed entries places rewritten ((variableName, collection) :: lambdas) body)
    (hlocal : Local entries lambdas
      (.expression operator [.var collection, .expression .lambda [body, .var variableName]]))
    (hlength : scopes.length = context.scopes.length)
    (hrun : b.collectionMacro operator
      [.var collection, .expression .lambda [body, .var variableName]] context negated scopes =
        .ok (filter, scopes')) :
    Landed entries places path context scopes filter scopes' := by
  obtain ⟨hcollection, hbody⟩ := hlocal.quantified hop
  have hbuilds : b.collectionMacro operator
      [.var collection, .expression .lambda [body, .var variableName]] context negated = (do
        let parts ← b.buildCollectionLambdaParts operator
          [.var collection, .expression .lambda [body, .var variableName]] context
        if negated then negatedCollectionFilter operator parts
        else positiveCollectionFilter operator parts context) := by
    obtain rfl | rfl := hop <;> rfl
  rw [hbuilds] at hrun
  obtain ⟨parts, middle, hbuild, hfilter⟩ := Translation.bind_eq_ok_iff.mp hrun
  obtain ⟨hparts, hupdates⟩ := parts_land hb hcontext hcollection hrelation h hbody hlength hbuild
  have hmiddle : middle.length = context.scopes.length := hupdates.length.trans hlength
  cases negated with
  | false =>
      obtain ⟨hlands, hmore⟩ := positiveMacro_lands hop hparts hmiddle hfilter
      exact ⟨hlands, hupdates.trans hmore⟩
  | true =>
      obtain ⟨hlands, hmore⟩ := negatedMacro_lands hop hparts hfilter
      exact ⟨hlands, hupdates.trans hmore⟩

variable {handlers : Builder}
  {stringLength : ResolvedFieldReference → CountPredicate → Except Refusal PrismaFilter}

/-- A comparison of two constants is refused here: it is folded before. -/
theorem relationalOperator_constants {operator : PlanOperator} {w : Literal}
    (hrun : b.relationalOperator operator op [.value v, .value w] context scopes =
      .ok (filter, scopes')) : False := by
  have hternary : isTernaryComparison operator [.value v, .value w] = false := by
    simp [isTernaryComparison, isTernary]
  have hlookup : isEqualityOver isMapLiteralLookup operator [.value v, .value w] = false := by
    simp [isEqualityOver, isMapLiteralLookup]
  have hupper : isEqualityOver isUpperAscii operator [.value v, .value w] = false := by
    simp [isEqualityOver, isUpperAscii]
  rw [Builder.relationalOperator, hternary, hlookup, hupper] at hrun
  cases hrun

theorem relationalOperator_size (hsizes : b.computedComparison =
      (handlers.withSizes stringLength).computedComparison) (operator : PlanOperator)
    (op : ComparisonOperator) (collection : Node) (v : Literal) :
    b.relationalOperator operator op [.expression .size [collection], .value v] context =
      handleSizeComparison stringLength op collection (.value v) context := by
  have hternary : isTernaryComparison operator [.expression .size [collection], .value v] =
      false := by
    simp [isTernaryComparison, isTernary]
  have hlookup : isEqualityOver isMapLiteralLookup operator
      [.expression .size [collection], .value v] = false := by
    simp [isEqualityOver, isMapLiteralLookup]
  have hupper : isEqualityOver isUpperAscii operator
      [.expression .size [collection], .value v] = false := by
    simp [isEqualityOver, isUpperAscii]
  rw [Builder.relationalOperator, hternary, hlookup, hupper]
  have hcomputed : b.computedComparison op (.expression .size [collection]) (.value v) context =
      handleSizeComparison stringLength op collection (.value v) context := by
    rw [hsizes]
    rfl
  exact hcomputed

theorem positiveStep_comparison {operator : PlanOperator}
    (hop : comparisonOperator operator = some op) (operands : List Node) :
    b.positiveStep (.expression operator operands) context =
      b.relationalOperator operator op operands context := by
  cases operator <;> simp [comparisonOperator] at hop <;> subst hop <;> rfl

theorem positiveStep_lands (hb : b.Lands entries places) (hsizes : b.computedComparison =
      (handlers.withSizes stringLength).computedComparison)
    (hcontext : Enters entries lambdas context path) (h : Placed entries places rewritten lambdas node)
    (hlocal : Local entries lambdas node) (hlength : scopes.length = context.scopes.length)
    (hrun : b.positiveStep node context scopes = .ok (filter, scopes')) :
    Landed entries places path context scopes filter scopes' := by
  cases h with
  | value v => cases hrun
  | var hplaced => exact column_lands hcontext hplaced hlocal.isLocal hlength (·.buildFieldFilter) hrun
  | compared hop hplaced =>
      obtain ⟨op, hop'⟩ := Option.isSome_iff_exists.mp hop
      have hname := (hlocal.each (not_isCollectionOperator hop) _ List.mem_cons_self).isLocal
      rw [positiveStep_comparison hop', (relationalOperator_column ..).1] at hrun
      exact column_lands hcontext hplaced hname hlength (·.buildComparisonFilter) hrun
  | comparedFirst hop hplaced =>
      obtain ⟨op, hop'⟩ := Option.isSome_iff_exists.mp hop
      have hname := (hlocal.each (not_isCollectionOperator hop) _
        (List.mem_cons_of_mem _ List.mem_cons_self)).isLocal
      rw [positiveStep_comparison hop', (relationalOperator_column ..).2] at hrun
      exact column_lands hcontext hplaced hname hlength (·.buildComparisonFilter) hrun
  | constants v w hop =>
      obtain ⟨op, hop'⟩ := Option.isSome_iff_exists.mp hop
      rw [positiveStep_comparison hop'] at hrun
      exact (relationalOperator_constants hrun).elim
  | size hop hleaf hrelation =>
      obtain ⟨op, hop'⟩ := Option.isSome_iff_exists.mp hop
      have hcollection := (hlocal.each (not_isCollectionOperator hop) _ List.mem_cons_self).each rfl _
        List.mem_cons_self
      rw [positiveStep_comparison hop', relationalOperator_size hsizes] at hrun
      exact size_lands hcontext hcollection hrelation hlength hrun
  | @and _ operands h =>
      cases operands with
      | nil => cases hrun
      | cons => exact junction_lands false hb hcontext .AND .AND h (hlocal.each rfl) hlength hrun
  | @or _ operands h =>
      cases operands with
      | nil => cases hrun
      | cons => exact junction_lands false hb hcontext .OR .OR h (hlocal.each rfl) hlength hrun
  | not h =>
      have hoperand := hlocal.each rfl _ List.mem_cons_self
      exact hb true hcontext h hoperand hlength hrun
  | @quantified _ operator collection variableName body hop hrelation h =>
      have hbuilds : b.collectionMacro operator
          [.var collection, .expression .lambda [body, .var variableName]] context false scopes =
            .ok (filter, scopes') := by
        obtain rfl | rfl := hop <;> exact hrun
      exact macro_lands hb hcontext hop hrelation h hlocal hlength hbuilds
  | constantCollection hop => exact (hlocal.constantCollection hop).elim
  | constantVariable hop => exact (hlocal.constantVariable hop).elim

/-- The negation that is pushed into an expression when it has to be, and else is plain. -/
theorem negation_lands (hb : b.Lands entries places)
    (hcontext : Enters entries lambdas context path)
    (h : Placed entries places rewritten lambdas node) (hlocal : Local entries lambdas node)
    {pushed : Translation PrismaFilter}
    (hpushed : ∀ {start : List ScopeRecord}, start.length = context.scopes.length →
      pushed start = .ok (filter, scopes') → Landed entries places path context start filter scopes')
    (hlength : scopes.length = context.scopes.length)
    (hrun : (do
      let pushes ←
        if containsCollectionOperator node || containsMapLiteralLookup node then pure true
        else reading (referencesRequiredHop node context)
      if !pushes then b.plainNegation node context else pushed : Translation PrismaFilter) scopes =
        .ok (filter, scopes')) :
    Landed entries places path context scopes filter scopes' := by
  cases hpushes : containsCollectionOperator node || containsMapLiteralLookup node with
  | true =>
    rw [hpushes] at hrun
    exact hpushed hlength hrun
  | false =>
    rw [hpushes] at hrun
    obtain ⟨required, middle, hread, hfinal⟩ := Translation.bind_eq_ok_iff.mp hrun
    have hrequired : (referencesRequiredHop node context).RecordsAt places path context :=
      (h.hopsExist hlocal hcontext).2.bind (.pure _)
    obtain ⟨-, hupdates⟩ := Updates.reading entries hrequired hlength hread
    have hmiddle : middle.length = context.scopes.length := hupdates.length.trans hlength
    cases required with
    | true =>
        obtain ⟨hlands, hmore⟩ := hpushed hmiddle hfinal
        exact ⟨hlands, hupdates.trans hmore⟩
    | false =>
        obtain ⟨hlands, hmore⟩ := plainNegation_lands hb hcontext h hlocal hmiddle hfinal
        exact ⟨hlands, hupdates.trans hmore⟩

/-- The negation of a comparison with a constant. -/
theorem negatedComparison_lands (hb : b.Lands entries places)
    (hcontext : Enters entries lambdas context path) {operator : PlanOperator} {operands : List Node}
    (hop : (comparisonOperator operator).isSome = true)
    (h : Placed entries places rewritten lambdas (.expression operator operands))
    (hlocal : Local entries lambdas (.expression operator operands))
    (hternary : operands.any isTernary = false)
    (hlookup : operands.any isMapLiteralLookup = false)
    (hlength : scopes.length = context.scopes.length)
    (hrun : b.negativeStep (.expression operator operands) context scopes = .ok (filter, scopes')) :
    Landed entries places path context scopes filter scopes' := by
  have hternary' : isTernaryComparison operator operands = false := by
    simp [isTernaryComparison, hternary]
  have hlookup' : isEqualityOver isMapLiteralLookup operator operands = false := by
    simp [isEqualityOver, hlookup]
  have hnot : operator ≠ .not := by
    rintro rfl
    cases hop
  rw [Builder.negativeStep.eq_def] at hrun
  dsimp only at hrun
  rw [if_neg hnot, hternary', hlookup'] at hrun
  refine negation_lands hb hcontext h hlocal (fun hstart hpushed => ?_) hlength hrun
  cases hmap : containsMapLiteralLookup (.expression operator operands) with
  | true =>
      rw [hmap] at hpushed
      cases operator <;> first | exact absurd hop (by decide) | cases hpushed
  | false =>
      rw [hmap] at hpushed
      refine plainNegation_lands hb hcontext h hlocal hstart ?_
      cases operator <;> first | exact absurd hop (by decide) | exact hpushed

theorem negativeStep_lands (hb : b.Lands entries places)
    (hcontext : Enters entries lambdas context path) (h : Placed entries places rewritten lambdas node)
    (hlocal : Local entries lambdas node) (hlength : scopes.length = context.scopes.length)
    (hrun : b.negativeStep node context scopes = .ok (filter, scopes')) :
    Landed entries places path context scopes filter scopes' := by
  cases hnode : h with
  | value v => exact plainNegation_lands hb hcontext h hlocal hlength hrun
  | @var _ name hplaced =>
      obtain ⟨fieldRef, middle, hread, hfinal⟩ := Translation.bind_eq_ok_iff.mp hrun
      have hrefers : Refers entries places lambdas name := ⟨hlocal.isLocal, .inl hplaced⟩
      obtain ⟨rfl, hupdates⟩ := Updates.reading entries (hrefers.resolves hcontext).2 hlength hread
      split at hfinal
      next hempty =>
        have hfield := hplaced.fieldAt hlocal.isLocal hcontext
        have hnone := List.isEmpty_iff.mp hempty
        obtain ⟨hfilter, rfl⟩ := Translation.lift_eq_ok_iff.mp hfinal
        have hdirect : FieldAt entries places path
            { (resolveFieldReference name context).result with relations := none } := by
          refine ⟨trivial, fun fieldName hname => ?_⟩
          have hleaf := hfield.leaf fieldName hname
          rwa [hnone] at hleaf
        exact ⟨hdirect.buildFieldFilter hfilter, hupdates⟩
      next =>
        have hmiddle : middle.length = context.scopes.length := hupdates.length.trans hlength
        obtain ⟨hlands, hmore⟩ := plainNegation_lands hb hcontext h hlocal hmiddle hfinal
        exact ⟨hlands, hupdates.trans hmore⟩
  | compared hop hplaced =>
      exact negatedComparison_lands hb hcontext hop h hlocal rfl rfl hlength hrun
  | comparedFirst hop hplaced =>
      exact negatedComparison_lands hb hcontext hop h hlocal rfl rfl hlength hrun
  | constants v w hop =>
      exact negatedComparison_lands hb hcontext hop h hlocal rfl rfl hlength hrun
  | size hop hleaf hrelation =>
      exact negatedComparison_lands hb hcontext hop h hlocal rfl rfl hlength hrun
  | and heach =>
      refine negation_lands hb hcontext h hlocal (fun hstart hpushed => ?_) hlength hrun
      exact junction_lands true hb hcontext .OR .OR heach (hlocal.each rfl) hstart hpushed
  | or heach =>
      refine negation_lands hb hcontext h hlocal (fun hstart hpushed => ?_) hlength hrun
      exact junction_lands true hb hcontext .AND .AND heach (hlocal.each rfl) hstart hpushed
  | not hoperand =>
      exact hb false hcontext hoperand (hlocal.each rfl _ List.mem_cons_self) hlength hrun
  | @quantified _ operator collection variableName body hop hrelation hbody =>
      have hbuilds : ∀ {start : List ScopeRecord}, start.length = context.scopes.length →
          b.collectionMacro operator [.var collection, .expression .lambda [body, .var variableName]]
            context true start = .ok (filter, scopes') →
          Landed entries places path context start filter scopes' := fun hstart hpushed =>
        macro_lands hb hcontext hop hrelation hbody hlocal hstart hpushed
      obtain rfl | rfl := hop
      · exact negation_lands hb hcontext h hlocal (fun hstart hpushed => hbuilds hstart hpushed)
          hlength hrun
      · exact negation_lands hb hcontext h hlocal (fun hstart hpushed => hbuilds hstart hpushed)
          hlength hrun
  | constantCollection hop => exact (hlocal.constantCollection hop).elim
  | constantVariable hop => exact (hlocal.constantVariable hop).elim

/-- Every condition lands, in both directions. -/
theorem builder_lands (fuel : Nat) :
    (builder (handlers.withSizes stringLength) fuel).Lands entries places := by
  induction fuel with
  | zero =>
      intro rewritten lambdas context path node negated scopes scopes' filter _ _ _ _ hrun
      cases negated <;> cases hrun
  | succ fuel ih =>
      intro rewritten lambdas context path node negated scopes scopes' filter hcontext h hlocal hlength hrun
      cases negated with
      | false =>
          have hsizes : (builder (handlers.withSizes stringLength) fuel).computedComparison =
              (handlers.withSizes stringLength).computedComparison := by cases fuel <;> rfl
          exact positiveStep_lands ih hsizes hcontext h hlocal hlength hrun
      | true => exact negativeStep_lands ih hcontext h hlocal hlength hrun

end Translating

end QueryPlanAdapters.Prisma
