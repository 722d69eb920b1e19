import QueryPlanAdapters.Cel.DurationLiterals
import QueryPlanAdapters.Elasticsearch.Instants
import QueryPlanAdapters.Prisma.Fields

/-!
# Prisma: timestamp literals

A literal is bound as the text that JavaScript writes of its instant, to the millisecond.
The text of an instant in CEL's range is read back as that instant. A literal between two
milliseconds is rounded up, and its comparison adjusted.
-/

namespace QueryPlanAdapters.Prisma

open Elasticsearch (yearOf monthOf dayOfMonth)

/-! ## Dates -/

/-- `Date.parse` of an ISO text; digits past the millisecond are dropped. -/
def dateParse (text : String) : Option Int :=
  (QueryPlanAdapters.parseRfc3339Instant text).map (· / 1000000)

/-- `new Date(milliseconds).toISOString()`, in the years 1 to 9999. -/
def toISOString (milliseconds : Int) : String :=
  let seconds := milliseconds / 1000
  let second := (seconds % 86400).toNat
  String.ofList <|
    paddedDigits 4 (yearOf (seconds / 86400)) ++ '-' ::
      (paddedDigits 2 (monthOf (seconds / 86400)) ++ '-' ::
        (paddedDigits 2 (dayOfMonth (seconds / 86400)) ++ 'T' ::
          (paddedDigits 2 (second / 3600) ++ ':' ::
            (paddedDigits 2 (second / 60 % 60) ++ ':' ::
              (paddedDigits 2 (second % 60) ++ '.' ::
                (paddedDigits 3 (milliseconds % 1000).toNat ++ ['Z']))))))

/-- `Date.parse("0001-01-01T00:00:00.000Z")` -/
def minInstant : Int := -62135596800000

/-- `Date.parse("9999-12-31T23:59:59.999Z")` -/
def maxInstant : Int := 253402300799999

/-! ## Literals -/

/-- The pattern takes the two letters of a timestamp in either case. -/
def upperSeparator (c : Char) : Char :=
  if c = 't' then 'T' else if c = 'z' then 'Z' else c

/-- `RFC3339_MILLISECOND_TIMESTAMP` and the calendar: the nanoseconds of a text that matches,
of a date that exists. -/
def rfc3339Nanos (value : String) : Option Int :=
  QueryPlanAdapters.parseRfc3339Instant (String.ofList (value.toList.map upperSeparator))

structure RoundedInstant where
  iso : String
  subMillisecond : Bool

/-- An instant between two milliseconds is rounded up to the next. -/
def parseRfc3339Instant (value : String) : Except Refusal RoundedInstant :=
  match rfc3339Nanos value with
  | none => unsupported ("Invalid RFC 3339 timestamp value: " ++ value)
  | some nanos =>
      let outside := unsupported
        ("Timestamp value is outside CEL's supported instant range: " ++ value)
      let milliseconds := nanos / 1000000
      let subMillisecond : Bool := nanos % 1000000 ≠ 0
      let rounded := if subMillisecond then milliseconds + 1 else milliseconds
      if milliseconds < minInstant || maxInstant < milliseconds then outside
      else if maxInstant < rounded then outside
      else .ok ⟨toISOString rounded, subMillisecond⟩

def normalizeRfc3339Milliseconds (value : String) : Except Refusal String := do
  let instant ← parseRfc3339Instant value
  if instant.subMillisecond then
    unsupported ("Timestamp value exceeds millisecond precision: " ++ value)
  else return instant.iso

/-- The operator to compare with the next millisecond, none for the equality family. -/
def roundSubMillisecond : ComparisonOperator → Option ComparisonOperator
  | .lt | .le => some .lt
  | .gt | .ge => some .ge
  | .eq | .ne => none

/-! ## Operands -/

/-- A column, or a constant that may be an instant between two milliseconds. -/
inductive ResolvedOperand where
  | field (fieldRef : ResolvedFieldReference)
  | value (value : Literal) (subMillisecond : Bool)

def resolveTimestampOperand (operands : List Node) (context : TranslationContext)
    (allowSubMillisecond : Bool) : Reading (Except Refusal ResolvedOperand) :=
  match operands with
  | [.var name] => do
      let fieldRef ← resolveFieldReference name context
      if fieldRef.valueType = some .dateTime then return .ok (.field fieldRef)
      else
        return unsupported
          ("timestamp() field " ++ name ++ " must be mapped with valueType: \"dateTime\"")
  | [.value (.string text)] =>
      if allowSubMillisecond then
        return (parseRfc3339Instant text).map fun i => .value (.string i.iso) i.subMillisecond
      else return (normalizeRfc3339Milliseconds text).map fun iso => .value (.string iso) false
  | [_] => return unsupported "timestamp() requires a field reference or RFC 3339 string"
  | _ => return unsupported "timestamp() requires exactly one operand"

/-- A comparison of a column with a constant that may be an instant between two milliseconds,
with which no whole millisecond is equal. -/
def buildValueComparisonFilter (context : TranslationContext) (fieldRef : ResolvedFieldReference)
    (operator : ComparisonOperator) (value : Literal) (subMillisecond : Bool) :
    Except Refusal PrismaFilter :=
  if !subMillisecond then buildComparisonFilter context fieldRef operator value
  else match roundSubMillisecond operator with
    | some rounded => buildComparisonFilter context fieldRef rounded value
    | none => do
        let never := PrismaFilter.AND [← buildComparisonFilter context fieldRef .lt value,
          ← buildComparisonFilter context fieldRef .ge value]
        return if operator = .eq then never else .NOT never

/-- `timestamp(column) CMP timestamp(literal)`, in either order; none for two columns or two
constants, which are compared otherwise. -/
def compareTimestamps (operator : ComparisonOperator) (left right : List Node)
    (context : TranslationContext) : Reading (Except Refusal (Option PrismaFilter)) := do
  let first ← resolveTimestampOperand left context true
  let second ← resolveTimestampOperand right context true
  return do
    match ← first, ← second with
    | .field fieldRef, .value value subMillisecond =>
        buildValueComparisonFilter context fieldRef operator value subMillisecond
    | .value value subMillisecond, .field fieldRef =>
        buildValueComparisonFilter context fieldRef operator.mirrored value subMillisecond
    | _, _ => return none

/-! ## What is read of a literal -/

variable {milliseconds : Int}

theorem map_upperSeparator_digits {cs : List Char} (h : cs.all isDigit = true) :
    cs.map upperSeparator = cs := by
  have hdigit : ∀ c ∈ cs, upperSeparator c = c := by
    intro c hc
    have hisDigit := List.all_eq_true.mp h c hc
    have ht : c ≠ 't' := by
      rintro rfl
      cases hisDigit
    have hz : c ≠ 'z' := by
      rintro rfl
      cases hisDigit
    rw [upperSeparator, if_neg ht, if_neg hz]
  rw [List.map_congr_left hdigit, List.map_id']

theorem map_upperSeparator_text (t : Rfc3339) : t.text.map upperSeparator = t.text := by
  have hdigits : ∀ width n, (paddedDigits width n).map upperSeparator = paddedDigits width n :=
    fun width n => map_upperSeparator_digits (isDigit_paddedDigits width n)
  have hfraction : t.fraction.text.map upperSeparator = t.fraction.text := by
    rw [Fraction.text]
    split
    · rfl
    · rw [List.map_cons, hdigits]
      rfl
  have hzone : t.zone.text.map upperSeparator = t.zone.text := by
    cases t.zone with
    | utc => rfl
    | offset behind hour minute =>
        simp only [Zone.text, List.map_cons, List.map_append, hdigits]
        cases behind <;> rfl
  simp only [Rfc3339.text, List.map_append, List.map_cons, hdigits, hfraction, hzone]
  rfl

/-- A text that CEL reads is read as the same instant. -/
theorem rfc3339Nanos_of_parsed {text : String} {nanos : Int}
    (h : QueryPlanAdapters.parseRfc3339Instant text = some nanos) :
    rfc3339Nanos text = some nanos := by
  obtain ⟨t, htext, -⟩ := parseRfc3339Instant_eq_some_iff.mp h
  rw [rfc3339Nanos, ← htext, map_upperSeparator_text, htext, String.ofList_toList]
  exact h

/-- The text of an instant in range is read back as the instant. -/
theorem parse_toISOString (h : minInstant ≤ milliseconds ∧ milliseconds ≤ maxInstant) :
    QueryPlanAdapters.parseRfc3339Instant (toISOString milliseconds) =
      some (milliseconds * 1000000) := by
  rw [minInstant, maxInstant] at h
  obtain ⟨t, hdenotes, -, htext⟩ := @Elasticsearch.exists_instantText (milliseconds / 1000)
    (by omega) (by omega) ⟨3, (milliseconds % 1000).toNat, by decide, by omega⟩
  have hnanos : milliseconds / 1000 * 1000000000 +
      ((⟨3, (milliseconds % 1000).toNat, by decide, by omega⟩ : Fraction).nanos : Nat) =
        milliseconds * 1000000 := by
    simp only [Fraction.nanos]
    omega
  refine parseRfc3339Instant_eq_some_iff.mpr ⟨t, ?_, hnanos ▸ hdenotes⟩
  rw [htext, toISOString, String.toList_ofList]
  rfl

theorem inTimestampRange_millis : inTimestampRange (milliseconds * 1000000) = true ↔
      minInstant ≤ milliseconds ∧ milliseconds ≤ maxInstant := by
  rw [inTimestampRange, Bool.and_eq_true, decide_eq_true_eq, decide_eq_true_eq,
    minTimestampNanos, maxTimestampNanos, minInstant, maxInstant]
  omega

theorem parseRfc3339Timestamp_toISOString
    (h : minInstant ≤ milliseconds ∧ milliseconds ≤ maxInstant) :
    parseRfc3339Timestamp (toISOString milliseconds) = some (milliseconds * 1000000) := by
  rw [parseRfc3339Timestamp, parse_toISOString h]
  exact Option.filter_some_pos (inTimestampRange_millis.mpr h)

theorem parseRfc3339Instant_eq_ok {text : String} {nanos : Int} {instant : RoundedInstant}
    (hnanos : rfc3339Nanos text = some nanos) (h : parseRfc3339Instant text = .ok instant) :
    instant.subMillisecond = decide (nanos % 1000000 ≠ 0) := by
  rw [parseRfc3339Instant, hnanos] at h
  dsimp only at h
  generalize (if decide (nanos % 1000000 ≠ 0) = true then nanos / 1000000 + 1
    else nanos / 1000000) = rounded at h
  split at h
  · cases h
  · split at h
    · cases h
    · rw [← Except.ok.inj h]

/-- A literal at a whole millisecond in CEL's range. -/
theorem parseRfc3339Instant_of_millis {text : String}
    (htext : QueryPlanAdapters.parseRfc3339Instant text = some (milliseconds * 1000000))
    (h : minInstant ≤ milliseconds ∧ milliseconds ≤ maxInstant) :
    parseRfc3339Instant text = .ok ⟨toISOString milliseconds, false⟩ := by
  have hquotient : milliseconds * 1000000 / 1000000 = milliseconds := by omega
  have hremainder : milliseconds * 1000000 % 1000000 = 0 := by omega
  simp only [parseRfc3339Instant, rfc3339Nanos_of_parsed htext, hquotient, hremainder]
  rw [if_neg, if_neg]
  · rfl
  · simp [h.2]
  · simp [h]

end QueryPlanAdapters.Prisma
