import QueryPlanAdapters.Elasticsearch.Query
import QueryPlanAdapters.Elasticsearch.Instants

/-!
# Elasticsearch: plan literals

Plan literals as JDK values, and the refusals of those that no query carries.
-/

namespace QueryPlanAdapters.Elasticsearch

/-- What a translation throws. -/
inductive Refusal where
  /-- `UnsupportedPlanShapeException` -/
  | unsupported (message : String)
  /-- `UnmappedAttributeException` -/
  | unmapped (message : String)
  /-- `MalformedPlanException` -/
  | malformed (message : String)
  /-- An exception of the JDK: a number or an instant beyond its type. -/
  | jdk
  deriving DecidableEq

abbrev Translation := Except Refusal

def unsupported {α : Type} (message : String) : Translation α :=
  .error (.unsupported message)

def unmapped {α : Type} (message : String) : Translation α :=
  .error (.unmapped message)

def malformed {α : Type} (message : String) : Translation α :=
  .error (.malformed message)

def unsafeExplicitNullComparison {α : Type} : Translation α :=
  unsupported ("Elasticsearch cannot distinguish an explicit null value from a missing field " ++
    "without an indexed null-value sentinel")

def exceptUnsupported {α : Type} : Translation α :=
  unsupported ("except is not supported: Cerbos except(list, list) computes a list difference, " ++
    "which has no Elasticsearch Query DSL translation. Rewrite the policy with a collection macro " ++
    "instead — e.g. size(R.attr.tags.except([\"x\"])) > 0 is equivalent to " ++
    "R.attr.tags.exists(t, !(t in [\"x\"])).")

def ternaryUnsupported {α : Type} : Translation α :=
  unsupported ("if (CEL ternary) cannot be expressed: Elasticsearch Query DSL has no " ++
    "conditional-value expression without scripts")

/-! ## Values -/

/-- A protobuf number: an integral double in the range of `long` becomes a `long`, and
loses a zero's sign. -/
def numberToJava (d : Double) : Double :=
  if d.isInteger && decide (-2 ^ 63 ≤ d.toRat) && decide (d.toRat < 2 ^ 63) then .finite d.toRat
  else d

mutual

def protoValueToJava : Literal → Literal
  | .number d => .number (numberToJava d)
  | .array items => .array (protoValuesToJava items)
  | .object fields => .object (protoFieldsToJava fields)
  | literal => literal

def protoValuesToJava : List Literal → List Literal
  | [] => []
  | item :: items => protoValueToJava item :: protoValuesToJava items

def protoFieldsToJava : List (String × Literal) → List (String × Literal)
  | [] => []
  | (key, field) :: fields => (key, protoValueToJava field) :: protoFieldsToJava fields

end

mutual

/-- The first NaN or infinity in a value. -/
def firstNonFinite : Literal → Option Double
  | .number d => if d.isFinite then none else some d
  | .array items => firstNonFiniteItem items
  | .object fields => firstNonFiniteField fields
  | _ => none

def firstNonFiniteItem : List Literal → Option Double
  | [] => none
  | item :: items => (firstNonFinite item).or (firstNonFiniteItem items)

def firstNonFiniteField : List (String × Literal) → Option Double
  | [] => none
  | (_, field) :: fields => (firstNonFinite field).or (firstNonFiniteField fields)

end

/-- `Double.toString`, of a number that is not finite. -/
def nonFiniteText : Double → String
  | .posInf => "Infinity"
  | .negInf => "-Infinity"
  | _ => "NaN"

def rejectNonFinite (value : Literal) : Translation Unit :=
  match firstNonFinite value with
  | some number =>
      unsupported ("a non-finite numeric literal (" ++ nonFiniteText number ++ ") cannot be bound: " ++
        "JSON has no representation for NaN or infinity, so no Query DSL request body can carry it")
  | none => .ok ()

/-- The text of a `timestamp()` literal denotes an instant of CEL's range, to the
millisecond. -/
def validateTimestampLiteral : Literal → Translation Unit
  | .string literal =>
      let invalid := "timestamp() requires a valid RFC 3339 string literal: " ++ literal
      match parseOffsetDateTime literal with
      | none => malformed invalid
      | some instant =>
          if !inTimestampRange instant then malformed invalid
          else if instant % 1000000 ≠ 0 then
            unsupported ("Sub-millisecond timestamp literals require an explicit date_nanos " ++
              "mapping mode, which this adapter does not configure")
          else .ok ()
  | _ => malformed "timestamp() requires an RFC 3339 string literal"

theorem protoValuesToJava_eq_map (items : List Literal) :
    protoValuesToJava items = items.map protoValueToJava := by
  induction items with
  | nil => rfl
  | cons item items ih => rw [protoValuesToJava, ih, List.map_cons]

theorem validateTimestampLiteral_eq_ok_iff {literal : Literal} :
    validateTimestampLiteral literal = .ok () ↔
      ∃ text instant, literal = .string text ∧ parseOffsetDateTime text = some instant ∧
        inTimestampRange instant = true ∧ instant % 1000000 = 0 := by
  constructor
  · intro h
    unfold validateTimestampLiteral at h
    split at h
    next text =>
      cases hparsed : parseOffsetDateTime text with
      | none =>
          simp only [hparsed] at h
          cases h
      | some instant =>
          simp only [hparsed] at h
          split at h
          · cases h
          next hrange =>
            split at h
            · cases h
            next hmillis =>
              exact ⟨text, instant, rfl, hparsed, by simpa using hrange, not_not.mp hmillis⟩
    next => cases h
  · rintro ⟨text, instant, rfl, hparsed, hrange, hmillis⟩
    unfold validateTimestampLiteral
    simp [hparsed, hrange, hmillis]

end QueryPlanAdapters.Elasticsearch
