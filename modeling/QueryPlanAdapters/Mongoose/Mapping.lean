import QueryPlanAdapters.Cel.Value
import QueryPlanAdapters.Logic.Contract

/-!
# Mongoose: mapping plan references, and filters

A plan reference resolves to a document path through the caller's mapper, by its own entry
or through the relation that its parent is mapped to. A filter compares what stands at such
paths, and has a guard for each nullable path it reads.
-/

namespace QueryPlanAdapters.Mongoose

abbrev Literal := PlanValue Double

abbrev Node := Operand Double

inductive Refusal where
  /-- `UnsupportedQueryPlanError` -/
  | unsupported (message : String)
  /-- `Error` -/
  | error (message : String)

abbrev Translation := Except Refusal

def unsupported {α : Type} (message : String) : Translation α :=
  .error (.unsupported message)

/-! ## The mapper -/

inductive ValueType where
  | number | string | boolean | dateTime
  deriving DecidableEq, Repr

inductive RelationType where
  | one | many
  deriving DecidableEq, Repr

mutual

structure Relation where
  name : String
  type : RelationType
  field : Option String
  requiresParent : Option String
  fields : List (String × MapperConfig)

structure MapperConfig where
  field : Option String
  nullable : Option Bool
  valueType : Option ValueType
  relation : Option Relation

end

/-- The caller's entries, in either of the two forms a mapper has. -/
abbrev Mapper := String → Option MapperConfig

/-- A text that JavaScript takes for true. -/
def truthy (s : Option String) : Option String :=
  s.filter (· ≠ "")

/-- The parent of a dotted reference, and its last part. -/
def parentAndLast (reference : String) : Option (String × String) :=
  let parts := splitDelimited reference "."
  if parts.dropLast.isEmpty then none
  else (truthy parts.getLast?).map fun lastPart => (".".intercalate parts.dropLast, lastPart)

/-- `a.b` → the `b` entry in the `fields` of the relation `a` is mapped to, if any. -/
def relationFieldConfig (reference : String) (mapper : Mapper) : Option MapperConfig := do
  let (parent, lastPart) ← parentAndLast reference
  let relation ← (← mapper parent).relation
  relation.fields.lookup lastPart

/-- The mapper entry for a reference: its own, or the one its parent relation declares. -/
def resolveMapperConfig (reference : String) (mapper : Mapper) : Option MapperConfig :=
  mapper reference <|> relationFieldConfig reference mapper

def isNullableReference (reference : String) (mapper : Mapper) : Bool :=
  (resolveMapperConfig reference mapper).bind (·.nullable) = some true

structure ReferenceRelation where
  name : String
  type : RelationType
  requiresParent : Option String

structure ResolvedFieldReference where
  /-- The document path; a to-many relation keeps its array segment first. -/
  path : List String
  relation : Option ReferenceRelation

def relationReference (relation : Relation) (field : Option String) : ResolvedFieldReference where
  path := match truthy field, relation.type with
    | none, _ => [relation.name]
    | some field, .one => [relation.name ++ "." ++ field]
    | some field, .many => [relation.name, field]
  relation := some
    { name := relation.name, type := relation.type, requiresParent := relation.requiresParent }

/-- The document path a plan variable maps to, if the mapper has an entry for it. -/
def lookupFieldReference (reference : String) (mapper : Mapper) : Option ResolvedFieldReference :=
  let config := mapper reference
  let throughParent : Option ResolvedFieldReference := do
    let (parent, lastPart) ← parentAndLast reference
    let relation ← (← mapper parent).relation
    let declared := truthy ((relation.fields.lookup lastPart).bind (·.field))
    return relationReference relation (some (declared.getD lastPart))
  match config.bind (·.relation), truthy (config.bind (·.field)) with
  | some relation, _ => some (relationReference relation relation.field)
  | none, some field => some { path := [field], relation := none }
  -- An entry with neither `field` nor `relation` opts in to the plan path verbatim.
  | none, none => throughParent <|> config.map fun _ => { path := [reference], relation := none }

def unmappedReferenceMessage (reference : String) : String :=
  "No mapper entry for " ++ reference ++ ": an unmapped reference is not used verbatim as a " ++
    "document path, because MongoDB's $ne and $nor match every document a path is absent " ++
    "from. Map it to a field, or declare it with an entry to use the plan path as-is."

/-- The document path of a plan variable, through the relation it belongs to if any. -/
def resolveFieldReference (reference : String) (mapper : Mapper) :
    Translation ResolvedFieldReference :=
  match lookupFieldReference reference mapper with
  | some resolved => .ok resolved
  | none => .error (.error (unmappedReferenceMessage reference))

/-! ## Filters -/

/-- What a filter asks of the value at a path. -/
inductive FieldCondition where
  | «in» (texts : List String)
  | regex (pattern : String)
  /-- `$ne: null` -/
  | present

inductive MongooseFilter where
  | field (path : List String) (condition : FieldCondition)
  | and (filters : List MongooseFilter)
  | or (filters : List MongooseFilter)

/-- A document, as the value that each path leads to. -/
abbrev Document := List String → Option Literal

section Matching

variable (regexMatches : (pattern text : String) → Bool) (d : Document)

def FieldCondition.matches : FieldCondition → Option Literal → Bool
  | .in texts, some (.string text) => decide (text ∈ texts)
  | .regex pattern, some (.string text) => regexMatches pattern text
  | .present, none | .present, some .null => false
  | .present, some _ => true
  | _, _ => false

mutual

def MongooseFilter.matches : MongooseFilter → Bool
  | .field path condition => condition.matches regexMatches (d path)
  | .and filters => matchesAll filters
  | .or filters => matchesAny filters

def MongooseFilter.matchesAll : List MongooseFilter → Bool
  | [] => true
  | filter :: filters => filter.matches && matchesAll filters

def MongooseFilter.matchesAny : List MongooseFilter → Bool
  | [] => false
  | filter :: filters => filter.matches || matchesAny filters

end

@[simp] theorem matches_and (filters : List MongooseFilter) :
    (MongooseFilter.and filters).matches regexMatches d = filters.all (·.matches regexMatches d) := by
  rw [MongooseFilter.matches]
  induction filters with
  | nil => rfl
  | cons filter filters ih => rw [MongooseFilter.matchesAll, ih, List.all_cons]

@[simp] theorem matches_or (filters : List MongooseFilter) :
    (MongooseFilter.or filters).matches regexMatches d = filters.any (·.matches regexMatches d) := by
  rw [MongooseFilter.matches]
  induction filters with
  | nil => rfl
  | cons filter filters ih => rw [MongooseFilter.matchesAny, ih, List.any_cons]

end Matching

/-! ## Guards -/

/-- `$ne: null` in front of `filter` for every nullable field the operands read. -/
def withNullableGuards (filter : MongooseFilter) (operands : List Node) (mapper : Mapper) :
    Translation MongooseFilter := do
  let names := (operands.flatMap Operand.references).filter fun name => isNullableReference name mapper
  let guardedNames := names.eraseDups
  if guardedNames.isEmpty then return filter
  else do
    let guards ← guardedNames.mapM fun name => do
      let reference ← resolveFieldReference name mapper
      return MongooseFilter.field reference.path .present
    return .and (guards ++ [filter])

/-- The guards hold where each field that is read is present. -/
theorem withNullableGuards_matches {regexMatches : String → String → Bool} {d : Document}
    {filter guarded : MongooseFilter} {operands : List Node} {mapper : Mapper}
    (h : withNullableGuards filter operands mapper = .ok guarded)
    (hpresent : ∀ name ∈ operands.flatMap Operand.references, ∀ reference,
      resolveFieldReference name mapper = .ok reference →
        FieldCondition.present.matches regexMatches (d reference.path) = true) :
    guarded.matches regexMatches d = filter.matches regexMatches d := by
  rw [withNullableGuards] at h
  split at h
  next => rw [Except.ok.inj h]
  next =>
    obtain ⟨guards, hguards, h⟩ := Except.bind_eq_ok_iff.mp h
    obtain rfl := Except.ok.inj h
    have hall : ∀ guard ∈ guards, guard.matches regexMatches d = true := by
      refine Except.Returns.mapM ?_ guards hguards
      intro name hname guard hresolved
      obtain ⟨reference, hreference, heq⟩ := Except.bind_eq_ok_iff.mp hresolved
      obtain rfl := Except.ok.inj heq
      rw [List.mem_eraseDups, List.mem_filter] at hname
      rw [MongooseFilter.matches]
      exact hpresent name hname.1 reference hreference
    rw [matches_and, List.all_append, List.all_eq_true.mpr hall, Bool.true_and, List.all_cons,
      List.all_nil, Bool.and_true]

end QueryPlanAdapters.Mongoose
