import QueryPlanAdapters.Prisma.Rewrite

/-!
# Prisma: where a leaf belongs

A reference names an attribute of one record: the queried one, or the element of an
enclosing lambda, or one reached from these through the relations that the mapper
declares. Its place is the path of relations that leads from the queried model to that
record, with the attribute's column. A filter is placed when each of its leaves is under
the relations of such a place.
-/

namespace QueryPlanAdapters.Prisma

/-! ## The declared places -/

/-- What a reference is declared to be: a column of the record at the end of a path of
relations, or the relation that ends it, with the column it may be projected onto. -/
inductive Attribute where
  | column (path : List String) (name : String)
  | relation (path : List String) (mapping : RelationMapping) (projection : Option String)

namespace Attribute

/-- The declaration of one attribute of the record at the end of a path. -/
def ofConfig (path : List String) (name : String) (config : Option MapperConfig) : Attribute :=
  match config.bind MapperConfig.relation with
  | some mapping => .relation (path ++ [mapping.name]) mapping (truthy mapping.field)
  | none => .column path ((truthy (config.bind MapperConfig.field)).getD name)

/-- The column a reference compares: its own, or that a relation is projected onto. -/
def place : Attribute → Option (List String × String)
  | column path name => some (path, name)
  | relation path _ projection => projection.map fun field => (path, field)

end Attribute

/-- Follow a dotted path through declared relations. -/
def attributeAt (path : List String) (fields : List (String × MapperConfig)) :
    List String → Option Attribute
  | [] => none
  | [name] => if name = "" then none else some (.ofConfig path name (fields.lookup name))
  | name :: rest =>
      if name = "" then none
      else do
        let relation ← (← fields.lookup name).relation
        attributeAt (path ++ [relation.name]) (relation.fields.getD []) rest

/-- A reference from the queried record: its longest mapped beginning, of at most `count`
parts, has to be a relation. -/
def rootAttributeThrough (entries : String → Option MapperConfig) (reference : String)
    (parts : List String) : (count : Nat) → Option Attribute
  | 0 => some (.column [] reference)
  | count + 1 =>
      match entries (joinParts (parts.take (count + 1))) with
      | none => rootAttributeThrough entries reference parts count
      | some config => do
          let relation ← config.relation
          -- A relation that is projected onto a column, and declares no fields, has no other.
          if relation.fields.isNone && (truthy relation.field).isSome then none
          else attributeAt [relation.name] (relation.fields.getD []) (parts.drop (count + 1))

/-- The column of a relation that a reference mapped as a whole is projected onto. -/
def wholeProjection (mapping : RelationMapping) (name : String) : Option String :=
  truthy (mapping.field.orElse fun _ =>
    mapping.fields.map fun fields => ((fields.lookup name).bind MapperConfig.field).getD name)

/-- What a reference from the queried record is declared to be. -/
def rootAttribute (entries : String → Option MapperConfig) (reference : String) :
    Option Attribute :=
  let parts := pathParts reference
  if "" ∈ parts then none
  else
    match entries reference with
    | none => rootAttributeThrough entries reference parts parts.length
    | some config =>
        match config.relation with
        | none => some (.ofConfig [] reference (some config))
        | some mapping =>
            some (.relation [mapping.name] mapping
              (parts.getLast?.bind fun name => wholeProjection mapping name))

/-- What a reference is declared to be inside lambdas, each given by its variable and its
collection, the innermost first. -/
def declaredAttribute (entries : String → Option MapperConfig) :
    List (String × String) → String → Option Attribute
  | [], reference => rootAttribute entries reference
  | (variableName, collection) :: lambdas, reference =>
      if isReachedFrom variableName reference then
        match declaredAttribute entries lambdas collection with
        | some (.relation path mapping _) =>
            match strippedKey variableName reference with
            | some key => attributeAt path (mapping.fields.getD []) (pathParts key)
            | none => (truthy mapping.field).map fun field => .column path field
        | _ => none
      else declaredAttribute entries lambdas reference

/-! ## Conditions and their places -/

/-- Whether a reference is declared to be a column, at one of the places. -/
def IsPlaced (entries : String → Option MapperConfig) (places : Set (List String × String))
    (lambdas : List (String × String)) (reference : String) : Prop :=
  ∃ place ∈ places, (declaredAttribute entries lambdas reference).bind Attribute.place = some place

/-- Whether a reference is declared to be a relation. -/
def IsRelation (entries : String → Option MapperConfig) (lambdas : List (String × String))
    (reference : String) : Prop :=
  ∃ path mapping projection,
    declaredAttribute entries lambdas reference = some (.relation path mapping projection)

/-- The conditions built from comparisons with constants, boolean references, connectives
and quantifiers over relations, all of whose columns are declared at one of the places.
Where a rewriting has put constants for references, a macro may have one in the wrong
position; it is then refused. -/
inductive Placed (entries : String → Option MapperConfig) (places : Set (List String × String))
    (rewritten : Bool) : List (String × String) → Node → Prop where
  | value {lambdas : List (String × String)} (v : Literal) :
      Placed entries places rewritten lambdas (.value v)
  | var {lambdas : List (String × String)} {name : String}
      (h : IsPlaced entries places lambdas name) :
      Placed entries places rewritten lambdas (.var name)
  | compared {lambdas : List (String × String)} {operator : PlanOperator} {name : String}
      {v : Literal} (hop : (comparisonOperator operator).isSome = true)
      (h : IsPlaced entries places lambdas name) :
      Placed entries places rewritten lambdas (.expression operator [.var name, .value v])
  | comparedFirst {lambdas : List (String × String)} {operator : PlanOperator} {name : String}
      {v : Literal} (hop : (comparisonOperator operator).isSome = true)
      (h : IsPlaced entries places lambdas name) :
      Placed entries places rewritten lambdas (.expression operator [.value v, .var name])
  | constants {lambdas : List (String × String)} {operator : PlanOperator} (a b : Literal)
      (hop : (comparisonOperator operator).isSome = true) :
      Placed entries places rewritten lambdas (.expression operator [.value a, .value b])
  | size {lambdas : List (String × String)} {operator : PlanOperator} {collection : Node}
      {v : Literal} (hop : (comparisonOperator operator).isSome = true)
      (hleaf : collection.isExpression = false)
      (h : ∀ name, collection = .var name → IsRelation entries lambdas name) :
      Placed entries places rewritten lambdas
        (.expression operator [.expression .size [collection], .value v])
  | and {lambdas : List (String × String)} {operands : List Node}
      (h : ∀ operand ∈ operands, Placed entries places rewritten lambdas operand) :
      Placed entries places rewritten lambdas (.expression .and operands)
  | or {lambdas : List (String × String)} {operands : List Node}
      (h : ∀ operand ∈ operands, Placed entries places rewritten lambdas operand) :
      Placed entries places rewritten lambdas (.expression .or operands)
  | not {lambdas : List (String × String)} {operand : Node}
      (h : Placed entries places rewritten lambdas operand) :
      Placed entries places rewritten lambdas (.expression .not [operand])
  | quantified {lambdas : List (String × String)} {operator : PlanOperator}
      {collection variableName : String} {body : Node} (hop : operator = .exists ∨ operator = .all)
      (hrelation : IsRelation entries lambdas collection)
      (h : Placed entries places rewritten ((variableName, collection) :: lambdas) body) :
      Placed entries places rewritten lambdas
        (.expression operator [.var collection, .expression .lambda [body, .var variableName]])
  | constantCollection {lambdas : List (String × String)} {operator : PlanOperator} {v : Literal}
      {lambda : List Node} (hop : operator = .exists ∨ operator = .all)
      (hrewritten : rewritten = true) :
      Placed entries places rewritten lambdas
        (.expression operator [.value v, .expression .lambda lambda])
  | constantVariable {lambdas : List (String × String)} {operator : PlanOperator}
      {collection : String} {body : Node} {v : Literal} (hop : operator = .exists ∨ operator = .all)
      (hrelation : IsRelation entries lambdas collection) (hrewritten : rewritten = true) :
      Placed entries places rewritten lambdas
        (.expression operator [.var collection, .expression .lambda [body, .value v]])

/-- Whether a reference is to the record of the innermost lambda: its variable, or a member
of it whose mapping, if it is a column and has one, names the column. -/
def IsLocal (entries : String → Option MapperConfig) : List (String × String) → String → Prop
  | [], _ => True
  | (variableName, collection) :: lambdas, reference =>
      reference = variableName ∨
        ∃ member, isBareName member = true ∧ reference = variableName ++ "." ++ member ∧
          ∀ path mapping projection config,
            declaredAttribute entries lambdas collection =
                some (.relation path mapping projection) →
              (mapping.fields.getD []).lookup member = some config → config.relation = none →
                truthy config.field ≠ none

/-- Whether every reference in a lambda body is to the lambda's own record. -/
inductive Local (entries : String → Option MapperConfig) : List (String × String) → Node → Prop where
  | value {lambdas : List (String × String)} (v : Literal) : Local entries lambdas (.value v)
  | var {lambdas : List (String × String)} {name : String} (h : IsLocal entries lambdas name) :
      Local entries lambdas (.var name)
  | operands {lambdas : List (String × String)} {operator : PlanOperator} {operands : List Node}
      (hop : isCollectionOperator operator = false)
      (h : ∀ operand ∈ operands, Local entries lambdas operand) :
      Local entries lambdas (.expression operator operands)
  | lambda {lambdas : List (String × String)} {operator : PlanOperator} {body : Node}
      {collection variableName : String} (hop : isCollectionOperator operator = true)
      (hcollection : IsLocal entries lambdas collection)
      (h : Local entries ((variableName, collection) :: lambdas) body) :
      Local entries lambdas
        (.expression operator [.var collection, .expression .lambda [body, .var variableName]])

/-! ## Placed filters -/

/-- The relations that a mapper declares, with the path that ends in each. -/
inductive DeclaredRelation (entries : String → Option MapperConfig) :
    List String → RelationMapping → Prop where
  | root {key : String} {config : MapperConfig} {mapping : RelationMapping}
      (hconfig : entries key = some config) (hmapping : config.relation = some mapping) :
      DeclaredRelation entries [mapping.name] mapping
  | field {path : List String} {outer mapping : RelationMapping} {name : String}
      {config : MapperConfig} (h : DeclaredRelation entries path outer)
      (hconfig : (outer.fields.getD []).lookup name = some config)
      (hmapping : config.relation = some mapping) :
      DeclaredRelation entries (path ++ [mapping.name]) mapping

/-- Whether every leaf of a filter, on the record at the end of a path, is at one of the
places, or in what a relation on the way declares of its own records. -/
inductive Lands (entries : String → Option MapperConfig) (places : Set (List String × String)) :
    List String → PrismaFilter → Prop where
  | empty {path : List String} : Lands entries places path .empty
  | AND {path : List String} {filters : List PrismaFilter}
      (h : ∀ filter ∈ filters, Lands entries places path filter) :
      Lands entries places path (.AND filters)
  | OR {path : List String} {filters : List PrismaFilter}
      (h : ∀ filter ∈ filters, Lands entries places path filter) :
      Lands entries places path (.OR filters)
  | NOT {path : List String} {filter : PrismaFilter} (h : Lands entries places path filter) :
      Lands entries places path (.NOT filter)
  | field {path : List String} {name : String} (operator : FieldOperator) (v : Literal)
      (h : (path, name) ∈ places) : Lands entries places path (.field name operator v)
  | shorthand {path : List String} {name : String} (v : Literal) (h : (path, name) ∈ places) :
      Lands entries places path (.shorthand name v)
  | relation {path : List String} {name : String} (operator : RelationOperator)
      {inner : PrismaFilter} (h : Lands entries places (path ++ [name]) inner) :
      Lands entries places path (.relation name operator inner)
  | declared {path : List String} {mapping : RelationMapping} {filter : PrismaFilter}
      (hmapping : DeclaredRelation entries path mapping)
      (hfilter : mapping.subqueryFilter = some filter) : Lands entries places path filter

end QueryPlanAdapters.Prisma
