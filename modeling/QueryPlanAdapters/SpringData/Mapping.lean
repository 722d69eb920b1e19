import QueryPlanAdapters.Sql.Comparison
import QueryPlanAdapters.Logic.Exception

/-!
# Spring Data: attribute mappings and scopes

A plan variable is mapped to a column or to a relation of the JPA model. A scope
resolves it against the row that the enclosing query, or an enclosing lambda, ranges
over; a scope is numbered by the lambdas around it.
-/

namespace QueryPlanAdapters.SpringData

inductive Refusal where
  /-- `UnsupportedPlanShapeException` -/
  | unsupported (message : String)
  /-- `MalformedPlanException` -/
  | malformed (message : String)
  /-- `UnmappedAttributeException` -/
  | unmapped (message : String)
  /-- `IllegalStateException` -/
  | internal (message : String)
  /-- What JPA throws for a name that is no attribute of an entity. -/
  | noSuchAttribute (name : String)
  /-- `UnsupportedOperationException` -/
  | selectOnly (chain : String)

def unknownAttribute (cerbosVar : String) : Refusal :=
  .unmapped ("Unknown attribute: " ++ cerbosVar)

/-! ## Mappings -/

/-- How the caller sends a NULL column to `check()`. -/
inductive NullAttributeRepresentation where
  | explicit
  | omitted
  deriving DecidableEq

/-- A scalar mapping. Without a declared convention the call's own applies. -/
structure Field where
  jpaPath : String
  nullAttributeRepresentation : Option NullAttributeRepresentation := none

/-- A column, or a relation of type `ρ`. -/
inductive MappingOver (ρ : Type) where
  | field (field : Field)
  | relation (relation : ρ)

/-- A collection mapping, with the mappings of its members. -/
inductive Relation where
  | mk (joinAttribute : String) (defaultMemberField : Option String)
      (fields : List (String × MappingOver Relation))

abbrev AttributeMapping := MappingOver Relation

namespace Relation

def joinAttribute : Relation → String
  | mk joinAttribute _ _ => joinAttribute

def defaultMemberField : Relation → Option String
  | mk _ defaultMemberField _ => defaultMemberField

def fields : Relation → List (String × AttributeMapping)
  | mk _ _ fields => fields

end Relation

/-- The caller's mapping, by the plan's variable names. -/
abbrev Mapper := List (String × AttributeMapping)

/-! ## The JPA model -/

/-- The Java type of a column. -/
inductive JavaType where
  | string
  | boolean
  | integer
  | long
  | double
  | other (name : String)
  deriving DecidableEq

/-- `Number.class.isAssignableFrom` -/
def JavaType.isNumber : JavaType → Bool
  | integer | long | double => true
  | _ => false

/-- Whether two types compare in SQL as in CEL: the same type, or both numbers. -/
def compatibleTypes (left right : JavaType) : Bool :=
  left = right || (left.isNumber && right.isNumber)

/-- The entities of the application and their attributes. The elements of an
`@ElementCollection` count as an entity of their own, whose rows are the elements. -/
structure Schema where
  Entity : Type
  /-- The Java type of a row itself. -/
  element : Entity → JavaType
  /-- The Java type of a column, by its dotted path. -/
  column : Entity → String → Option JavaType
  /-- The entity a collection or an association leads to. -/
  joined : Entity → String → Option Entity

/-- The entity at the end of a chain of joins. -/
def Schema.joinedThrough (schema : Schema) (entity : schema.Entity) :
    List String → Except Refusal schema.Entity
  | [] => .ok entity
  | hop :: hops =>
      match schema.joined entity hop with
      | some next => schema.joinedThrough next hops
      | none => .error (.noSuchAttribute hop)

/-- A column, by the scope whose row holds it and its dotted path; without one, the row
itself. -/
structure Path where
  level : Nat
  jpaPath : Option String
  javaType : JavaType

/-! ## Scopes -/

variable {schema : Schema}

inductive Scope (schema : Schema) where
  | root (entity : schema.Entity) (mapper : Mapper)
  | lambda (entity : schema.Entity) (relation : Relation) (lambdaVar : String)
      (outer : Scope schema)

namespace Scope

/-- The number of lambdas around a scope. -/
def level : Scope schema → Nat
  | root _ _ => 0
  | lambda _ _ _ outer => outer.level + 1

def entity : Scope schema → schema.Entity
  | root entity _ => entity
  | lambda entity _ _ _ => entity

def isRoot : Scope schema → Bool
  | root _ _ => true
  | lambda _ _ _ _ => false

/-- `traversePath`, and `from` itself when there is no path. -/
def traversePath (scope : Scope schema) : Option String → Except Refusal Path
  | none => .ok ⟨scope.level, none, schema.element scope.entity⟩
  | some dotted =>
      match schema.column scope.entity dotted with
      | some javaType => .ok ⟨scope.level, some dotted, javaType⟩
      | none => .error (.noSuchAttribute dotted)

end Scope

/-- The Relations to join through, in hop order, from the row of the scope `owner`. -/
structure ResolvedRelation (schema : Schema) where
  owner : Scope schema
  head : Relation
  rest : List Relation

namespace ResolvedRelation

def chain (ref : ResolvedRelation schema) : List Relation :=
  ref.head :: ref.rest

def isChained (ref : ResolvedRelation schema) : Bool :=
  !ref.rest.isEmpty

def tail (ref : ResolvedRelation schema) : Relation :=
  ref.rest.getLast?.getD ref.head

/-- The joins of the chain. -/
def joins (ref : ResolvedRelation schema) : List String :=
  ref.chain.map Relation.joinAttribute

/-- The to-one hops before the last join. -/
def leadingHops (ref : ResolvedRelation schema) : List String :=
  ref.joins.dropLast

end ResolvedRelation

/-- What a variable denotes. -/
inductive Resolution (schema : Schema) where
  /-- A value, and the mapping it was resolved through. -/
  | scalar (path : Path) (mapping : AttributeMapping)
  /-- A Field that only a relation chain reaches: it has no column on the scope's row. -/
  | scalarBehind (chain : ResolvedRelation schema) (field : Field)
  | relation (ref : ResolvedRelation schema)

/-- Java's `split("\\.")`, which drops the trailing empty parts. -/
def splitDots (path : String) : List String :=
  match pathParts path with
  | [part] => [part]
  | parts => (parts.reverse.dropWhile (· = "")).reverse

/-- A chain of Relations, ending in the Field `tail`, or in the last Relation. -/
structure RelationChain where
  head : Relation
  rest : List Relation
  tail : Option Field

/-- Walk a suffix through nested mappings: Relations, and a Field only as the last part. -/
def walkSuffix (head : Relation) : List String → Option RelationChain
  | [] => some ⟨head, [], none⟩
  | part :: parts =>
      match head.fields.lookup part with
      | some (.relation next) =>
          (walkSuffix next parts).map fun chain => ⟨head, chain.head :: chain.rest, chain.tail⟩
      | some (.field field) => if parts.isEmpty then some ⟨head, [], some field⟩ else none
      | none => none

/-- Resolve a name by its longest registered Relation beginning that the rest can be walked
from. -/
def resolveRelationChain (mapper : Mapper) (cerbosVar : String) : Option RelationChain :=
  match mapper.lookup cerbosVar with
  | some (.relation relation) => some ⟨relation, [], none⟩
  | _ =>
      let parts := splitDots cerbosVar
      (List.range parts.length).reverse.findSome? fun i =>
        match if i = 0 then none else mapper.lookup (".".intercalate (parts.take i)) with
        | some (.relation head) => walkSuffix head (parts.drop i)
        | _ => none

/-- The Relations that a suffix walks through, when every part is one. -/
def relationChain (fields : List (String × AttributeMapping)) :
    List String → Option (List Relation)
  | [] => some []
  | part :: parts =>
      match fields.lookup part with
      | some (.relation next) => (relationChain next.fields parts).map (next :: ·)
      | _ => none

/-- A member path off a join: with no member, the default one, else the element itself. -/
def memberPath (relation : Relation) (memberField : String) : Option String :=
  if memberField = "" then relation.defaultMemberField.filter (· ≠ "")
  else match relation.fields.lookup memberField with
    | some (.field field) => some field.jpaPath
    | _ => some memberField

/-- The part of a reference after the lambda variable; nothing when it is not the lambda's. -/
def lambdaSuffix (cerbosVar lambdaVar : String) : Option String :=
  if cerbosVar = lambdaVar then some ""
  else if (lambdaVar.toList ++ ['.']).isPrefixOf cerbosVar.toList then
    some (String.ofList (cerbosVar.toList.drop (lambdaVar.length + 1)))
  else none

namespace Scope

def resolve : Scope schema → String → Except Refusal (Resolution schema)
  | root entity mapper, cerbosVar =>
      match mapper.lookup cerbosVar with
      | some (.field field) => do
          let path ← (root entity mapper).traversePath (some field.jpaPath)
          return .scalar path (.field field)
      | _ =>
          match resolveRelationChain mapper cerbosVar with
          | none => .error (unknownAttribute cerbosVar)
          | some ⟨head, rest, none⟩ => .ok (.relation ⟨root entity mapper, head, rest⟩)
          | some ⟨head, rest, some field⟩ =>
              .ok (.scalarBehind ⟨root entity mapper, head, rest⟩ field)
  | lambda entity relation lambdaVar outer, cerbosVar =>
      match lambdaSuffix cerbosVar lambdaVar with
      | none => outer.resolve cerbosVar
      | some suffix => do
          let here := lambda entity relation lambdaVar outer
          if suffix = "" then
            return .scalar (← here.traversePath (memberPath relation "")) (.relation relation)
          else match relationChain relation.fields (splitDots suffix) with
            | some (head :: rest) => return .relation ⟨here, head, rest⟩
            | some [] => .error (.internal "Index -1 out of bounds for length 0")
            | none =>
                return .scalar (← here.traversePath (memberPath relation suffix))
                  ((relation.fields.lookup suffix).getD (.field ⟨suffix, none⟩))

/-- The column to compare a variable as. -/
def path (scope : Scope schema) (cerbosVar : String) : Except Refusal Path := do
  match ← scope.resolve cerbosVar with
  | .scalar path _ => return path
  | .scalarBehind _ _ => .error (unknownAttribute cerbosVar)
  | .relation _ =>
      .error (.unmapped ("Attribute " ++ cerbosVar ++
        " is a Relation; cannot resolve as a scalar path"))

end Scope

end QueryPlanAdapters.SpringData
