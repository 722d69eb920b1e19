import QueryPlanAdapters.Go.Reach
import QueryPlanAdapters.Go.Skeleton
import QueryPlanAdapters.Sql.Comparison

/-!
# Go: the attributes a row is sent as

The resource that an application checks for a row: a NULL is a null or a missing
attribute, by the entry's convention or else by the call's, a stored instant is its
spelling, and a scalar behind a to-one relation is missing where no row is joined.
-/

namespace QueryPlanAdapters.Go

open Sql

/-- What a NULL of an entry stands for; an entry without a convention follows the call. -/
def NullConvention.under (fallback : NullRepresentation) : NullConvention → NullRepresentation
  | .unset => fallback
  | .explicit => .explicit
  | .omitted => .omitted

/-- How an application makes attributes of stored values. -/
structure Sending where
  representation : NullRepresentation
  /-- The text that a stored instant is sent as. -/
  spell : Int → String

namespace Sending

/-- A stored value as an attribute. -/
def value (sending : Sending) : SqlValue → Value
  | .null => .null
  | .bool b => .bool b
  | .number d => .number d
  | .text t => .string t
  | .time nanos => .string (sending.spell nanos)

def outcome (sending : Sending) (convention : NullConvention) (x : SqlValue) : Outcome :=
  if x.isNull && convention.under sending.representation = .omitted then .error
  else .value (sending.value x)

/-- The column that a scalar attribute is stored in, nothing when no row is joined. -/
def stored (engine : Engine) (db : Database) (reading : Reading) : Option SqlValue :=
  match reading.entry.scalarRelation with
  | none => some (reading.row reading.entry.column)
  | some rel => (reached engine db rel reading.row).head?.map fun row => row reading.entry.column

/-- A scalar attribute. -/
def read (sending : Sending) (engine : Engine) (db : Database) (reading : Reading) : Outcome :=
  (stored engine db reading).elim .error (sending.outcome reading.entry.nullConvention)

end Sending

/-- What a stored value, or the NULL that an error leaves, stands for. -/
def Carries (sending : Sending) (x : SqlValue) (o : Outcome) : Prop :=
  o = .value (sending.value x) ∨ (x = .null ∧ o = .error)

section Carries

variable {sending : Sending} {x : SqlValue} {o : Outcome}

theorem carries_null : Carries sending .null .error := .inr ⟨rfl, rfl⟩

theorem carries_value (x : SqlValue) : Carries sending x (.value (sending.value x)) :=
  .inl rfl

theorem carries_outcome (convention : NullConvention) (x : SqlValue) :
    Carries sending x (sending.outcome convention x) := by
  rw [Sending.outcome]
  split
  next h =>
    have hnull : x = .null := by
      cases x <;> simp [SqlValue.isNull] at h ⊢
    exact .inr ⟨hnull, rfl⟩
  next => exact carries_value x

/-- A value that is present is an attribute, never an error. -/
theorem Carries.present (h : Carries sending x o) (hx : x.isNull = false) :
    o = .value (sending.value x) := by
  obtain h | ⟨rfl, -⟩ := h
  · exact h
  · cases hx

/-- A NULL is an error or a null. -/
theorem Carries.absent (h : Carries sending .null o) : o = .error ∨ o = .value .null := by
  obtain h | ⟨-, h⟩ := h
  · exact .inr h
  · exact .inl h

theorem Carries.error (h : Carries sending x .error) : x = .null := by
  obtain h | ⟨h, -⟩ := h
  · cases h
  · exact h

end Carries

/-- A literal of the plan, as CEL reads it. -/
def literalValue (v : Literal) : Outcome :=
  .value (.ofPlan v)

/-- CEL's concatenation of strings. -/
def concatOutcome : Outcome → Outcome → Outcome
  | .value (.string a), .value (.string b) => .value (.string (a ++ b))
  | _, _ => .error

/-- CEL's ternary. -/
def chosenOutcome (cond : Truth) (whenTrue whenFalse : Outcome) : Outcome :=
  match cond with
  | .yes => whenTrue
  | .no => whenFalse
  | .unknown => .error

/-- CEL's `in`, of a list. -/
def memberOutcome : (needle container : Outcome) → Outcome
  | .value needle, .value (.array items) => .value (.bool (items.any needle.valuesEqual))
  | _, _ => .error

end QueryPlanAdapters.Go
