import QueryPlanAdapters.Plan

/-!
# Convex: plan nodes and the mapper

Reading plan nodes and the caller's mapper, for the three passes over a plan:
validation, the Convex filter it pushes down, and the in-memory evaluator that
answers the rest.
-/

namespace QueryPlanAdapters.Convex

abbrev Operand := QueryPlanAdapters.Operand FiniteDouble

/-- What a JavaScript exception carries: the refusal of a shape the adapter
cannot translate, another error's message, or a type error of the runtime. -/
inductive Thrown where
  | unsupported (message : String)
  | error (message : String)
  | typeError
  deriving DecidableEq, Repr

structure MapperConfig where
  field : Option String
  nullable : Option Bool
  deriving DecidableEq

/-- The caller's mapper, whether given as a record or as a function. -/
abbrev Mapper := String → Option MapperConfig

/-- Whether the mapper declares the reference at all, an entry with no field included. -/
def isMappedReference (reference : String) (mapper : Mapper) : Bool :=
  (mapper reference).isSome

/-- The document path a reference maps to. An entry that names no field keeps
the plan path. -/
def resolveField (reference : String) (mapper : Mapper) : String :=
  ((mapper reference).bind (·.field)).getD reference

/-- Whether the mapped path may be absent from a document. -/
def isNullableField (reference : String) (mapper : Mapper) : Bool :=
  ((mapper reference).bind (·.nullable)).getD false

/-- The mapper under the omitted convention: an entry that does not declare
`nullable` is nullable. -/
def withOmittedNullDefault (mapper : Mapper) : Mapper := fun key =>
  (mapper key).map fun config => { config with nullable := some (config.nullable.getD true) }

/-- A lambda variable is a bare name. -/
def looksLikeLambdaVariable : Operand → Bool
  | .var name => isBareName name
  | _ => false

/-! ## Lambda bindings -/

/-- What every plain JavaScript object inherits. -/
def objectPrototypeMembers : List String :=
  ["constructor", "toString", "toLocaleString", "valueOf", "hasOwnProperty", "isPrototypeOf",
    "propertyIsEnumerable", "__proto__", "__defineGetter__", "__defineSetter__",
    "__lookupGetter__", "__lookupSetter__"]

end QueryPlanAdapters.Convex
