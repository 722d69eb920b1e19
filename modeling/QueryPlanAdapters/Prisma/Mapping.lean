import QueryPlanAdapters.Prisma.Filter

/-!
# Prisma: resolving plan references

A plan reference resolves to a column, reached through the relations its mapping
declares. A lambda's references resolve against the elements of its collection, and
reading one of them records its column with the lambda when the column can be NULL,
so that the enclosing macro can guard against it. A lookup is therefore a result
together with what it records.
-/

namespace QueryPlanAdapters.Prisma

inductive NullAttributeRepresentation where
  | explicit | omitted
  deriving DecidableEq, Repr

inductive MappedType where
  | dateTime | string | number | boolean
  deriving DecidableEq, Repr

inductive RelationType where
  | one | many
  deriving DecidableEq, Repr

mutual

structure RelationMapping where
  name : String
  type : RelationType
  model : Option String
  field : Option String
  fields : Option (List (String × MapperConfig))
  subqueryFilter : Option PrismaFilter

structure MapperConfig where
  field : Option String
  valueType : Option MappedType
  nullable : Option Bool
  nullAttributeRepresentation : Option NullAttributeRepresentation
  relation : Option RelationMapping

end

/-- A column of a name, with nothing declared. -/
def MapperConfig.ofField (field : String) : MapperConfig where
  field := some field
  valueType := none
  nullable := none
  nullAttributeRepresentation := none
  relation := none

/-- A lookup: its result, and the nullable columns it records, each with the depth of
the lambda they belong to. -/
structure Reading (α : Type) where
  result : α
  recorded : List (Nat × String)

instance : Monad Reading where
  pure a := ⟨a, []⟩
  bind x f := ⟨(f x.result).result, x.recorded ++ (f x.result).recorded⟩

variable {α β : Type}

@[simp] theorem Reading.pure_result (a : α) : (pure a : Reading α).result = a := rfl

@[simp] theorem Reading.pure_recorded (a : α) : (pure a : Reading α).recorded = [] := rfl

@[simp] theorem Reading.bind_result (x : Reading α) (f : α → Reading β) :
    (x >>= f).result = (f x.result).result := rfl

@[simp] theorem Reading.bind_recorded (x : Reading α) (f : α → Reading β) :
    (x >>= f).recorded = x.recorded ++ (f x.result).recorded := rfl

@[simp] theorem Reading.map_result (f : α → β) (x : Reading α) :
    (f <$> x).result = f x.result := rfl

@[simp] theorem Reading.map_recorded (f : α → β) (x : Reading α) :
    (f <$> x).recorded = x.recorded :=
  List.append_nil _

/-- The caller's mapper is an object or a function, and that of a lambda body a function. -/
inductive Mapper where
  | object (entries : String → Option MapperConfig)
  | function (resolve : String → Reading MapperConfig)

/-- What a lambda declares; what is recorded with it is part of the translation's state. -/
structure LambdaScope where
  variableName : String
  relationModel : Option String

structure TranslationContext where
  mapper : Mapper
  rootModel : Option String
  nullRepresentation : NullAttributeRepresentation
  scopes : List LambdaScope

structure RelationConfig where
  name : String
  type : RelationType
  model : Option String
  field : Option String
  subqueryFilter : Option PrismaFilter

structure ResolvedFieldReference where
  path : List String
  nullable : Option Bool
  relations : Option (List RelationConfig)
  valueType : Option MappedType
  nullAttributeRepresentation : Option NullAttributeRepresentation

def isExplicitNullReference (fieldRef : ResolvedFieldReference) : Bool :=
  fieldRef.nullAttributeRepresentation = some .explicit

/-- A text that JavaScript takes for true. -/
def truthy (s : Option String) : Option String :=
  s.filter (· ≠ "")

/-- The mapping the caller declared for `key`, through either mapper form. -/
def lookupMapping (mapper : Mapper) (key : String) : Reading (Option MapperConfig) :=
  match mapper with
  | .object entries => pure (entries key)
  | .function resolve => do return some (← resolve key)

def joinParts (parts : List String) : String :=
  String.intercalate "." parts

/-- The relation at the end of a path of relations. -/
def relationAlong (relation : Option RelationMapping) (parts : List String) :
    Option RelationMapping :=
  parts.foldl (fun relation part => do
    let fields ← (← relation).fields
    (← fields.lookup part).relation) relation

/-- The element fields of a chained collection, from its longest mapped relation of at
most `count` parts. -/
def chainedElementFields (mapper : Mapper) (parts : List String) :
    (count : Nat) → Reading (Option (List (String × MapperConfig)))
  | 0 => pure none
  | count + 1 => do
      let config ← lookupMapping mapper (joinParts (parts.take (count + 1)))
      match config.bind MapperConfig.relation with
      | none => chainedElementFields mapper parts count
      | some relation =>
          return (relationAlong (some relation) (parts.drop (count + 1))).bind RelationMapping.fields

/-- The element field mappings of the collection at `collectionPath`. -/
def lookupElementFields (mapper : Mapper) (collectionPath : String) :
    Reading (Option (List (String × MapperConfig))) := do
  match ← lookupMapping mapper collectionPath with
  | some direct => return direct.relation.bind RelationMapping.fields
  | none =>
      let parts := pathParts collectionPath
      chainedElementFields mapper parts (parts.length - 1)

def toRelationConfig (relation : RelationMapping) : RelationConfig where
  name := relation.name
  type := relation.type
  model := relation.model
  field := relation.field
  subqueryFilter := relation.subqueryFilter

/-- The longest dotted beginning of a reference, of at most `count` parts, that has a
mapping. -/
def matchedPrefix (mapper : Mapper) (parts : List String) :
    (count : Nat) → Reading (Option (Nat × MapperConfig))
  | 0 => pure none
  | count + 1 => do
      match ← lookupMapping mapper (joinParts (parts.take (count + 1))) with
      | some config => return some (count + 1, config)
      | none => matchedPrefix mapper parts count

/-- Where a walk through nested relation mappings ends. -/
structure FieldWalk where
  relations : List RelationConfig
  field : Option String
  leafConfig : Option MapperConfig

/-- Walk the remaining segments. The first that is not a relation names the leaf column. -/
def walkFields : (fields : List (String × MapperConfig)) → (parts : List String) → FieldWalk →
    FieldWalk
  | _, [], walk => walk
  | fields, part :: parts, walk =>
      if part = "" then walk
      else
        let nextConfig := fields.lookup part
        match nextConfig.bind MapperConfig.relation with
        | none =>
            let leafPart := (part :: parts).getLast?
            { walk with
              field := (truthy leafPart).elim walk.field fun leafPart =>
                some ((truthy (nextConfig.bind MapperConfig.field)).getD leafPart)
              leafConfig := if parts.isEmpty then nextConfig else walk.leafConfig }
        | some relation =>
            walkFields (relation.fields.getD []) parts
              { walk with
                relations := walk.relations ++ [toRelationConfig relation]
                field := relation.field }

/-- A reference through a relation mapping. -/
def resolveThroughRelation (config : MapperConfig) (relation : RelationMapping) (isDirect : Bool)
    (lastPart : Option String) (remainingParts : List String) : ResolvedFieldReference :=
  let leafField := do
    let fields ← relation.fields
    let lastPart ← truthy lastPart
    return ((fields.lookup lastPart).bind MapperConfig.field).getD lastPart
  let field := relation.field.orElse fun _ => if isDirect then leafField else none
  let start : FieldWalk := { relations := [toRelationConfig relation], field, leafConfig := none }
  let walk :=
    match relation.fields with
    | some fields => walkFields fields remainingParts start
    | none => start
  { path := (truthy walk.field).elim remainingParts fun field => [field]
    relations := some walk.relations
    valueType := (walk.leafConfig.bind MapperConfig.valueType).orElse fun _ => config.valueType
    nullable := walk.leafConfig.elim config.nullable MapperConfig.nullable
    nullAttributeRepresentation := config.nullAttributeRepresentation }

/-- Resolve a reference considering relations and nested fields. -/
def resolveFieldReference (reference : String) (context : TranslationContext) :
    Reading ResolvedFieldReference := do
  let parts := pathParts reference
  let config ← lookupMapping context.mapper reference
  let matched ←
    match config with
    | some _ => pure none
    | none => matchedPrefix context.mapper parts parts.length
  let active := config.orElse fun _ => matched.map Prod.snd
  match active, active.bind MapperConfig.relation with
  | some active, some relation =>
      let count := matched.elim 0 Prod.fst
      let remaining := if joinParts (parts.take count) = "" then [] else parts.drop count
      return resolveThroughRelation active relation config.isSome parts.getLast? remaining
  | active, _ =>
      return {
        path := [(truthy (active.bind MapperConfig.field)).getD reference]
        nullable := active.bind MapperConfig.nullable
        relations := none
        valueType := active.bind MapperConfig.valueType
        nullAttributeRepresentation := active.bind MapperConfig.nullAttributeRepresentation }

/-- Record that a lambda body touches an element column that can be NULL. -/
def recordNullableElementField (depth : Nat) (config : MapperConfig) (defaultField : String) :
    Reading Unit :=
  if config.nullable = some false || config.relation.isSome then pure ()
  else ⟨(), [(depth, (truthy config.field).getD defaultField)]⟩

/-- The config a nested path leads to under the element fields, and its last segment. -/
def elementConfig : (fields : List (String × MapperConfig)) → (field : String) →
    (rest : List String) → MapperConfig × String
  | fields, field, [] => ((fields.lookup field).getD (.ofField field), field)
  | fields, field, next :: rest =>
      let nested := do
        let relation ← (← fields.lookup field).relation
        relation.fields
      match nested with
      | some nested =>
          if next = "" then ((fields.lookup field).getD (.ofField field), field)
          else elementConfig nested next rest
      | none => ((fields.lookup field).getD (.ofField field), field)

/-- What follows the lambda's variable and a dot in a reference. -/
def strippedKey (variableName key : String) : Option String :=
  let start := variableName ++ "."
  if startsWithText key start then some (String.ofList (key.toList.drop start.toList.length))
  else none

/-- A reference to an attribute of the lambda's element. -/
def elementReference (mapper : Mapper) (collectionPath : String) (depth : Nat) (key : String) :
    Reading MapperConfig := do
  match ← lookupElementFields mapper collectionPath with
  | none =>
      let config := MapperConfig.ofField key
      if !key.toList.contains '.' then recordNullableElementField depth config key
      return config
  | some fields =>
      let (config, field) :=
        match pathParts key with
        | "" :: _ | [] => elementConfig fields key []
        | first :: rest => elementConfig fields first rest
      recordNullableElementField depth config field
      return config

/-- The element itself, of a collection that is projected onto a column. -/
def projectedElement (context : TranslationContext) (collectionPath : String) :
    Reading (Option MapperConfig) := do
  let reference ← resolveFieldReference collectionPath context
  match truthy ((reference.relations.bind List.getLast?).bind RelationConfig.field) with
  | none => return none
  | some projection =>
      let collection ← lookupMapping context.mapper collectionPath
      let fields ← lookupElementFields context.mapper collectionPath
      let declared := fields.bind (·.lookup projection)
      return some {
        field := some projection
        valueType := (collection.bind MapperConfig.valueType).orElse fun _ =>
          declared.bind MapperConfig.valueType
        nullAttributeRepresentation := some .explicit
        nullable := declared.bind MapperConfig.nullable
        relation := none }

/-- The mapper of a lambda body: the element's attributes, and the enclosing mapper. -/
def scopedMapper (context : TranslationContext) (collectionPath variableName key : String) :
    Reading MapperConfig := do
  let projected ←
    if key = variableName then projectedElement context collectionPath else pure none
  match projected, strippedKey variableName key with
  | some config, _ => return config
  | none, some key => elementReference context.mapper collectionPath context.scopes.length key
  | none, none =>
      match context.mapper with
      | .function resolve => resolve key
      | .object entries => return (entries key).getD (.ofField key)

/-- The context for a lambda body iterating `collectionPath`. -/
def enterLambdaScope (context : TranslationContext) (collectionPath : String)
    (scope : LambdaScope) : TranslationContext :=
  { context with
    scopes := context.scopes ++ [scope]
    mapper := .function (scopedMapper context collectionPath scope.variableName) }

end QueryPlanAdapters.Prisma
