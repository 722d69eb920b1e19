import QueryPlanAdapters.Elasticsearch.LeafTranslator
import QueryPlanAdapters.Cel.DurationLiterals
import QueryPlanAdapters.Cel.TemporalArithmetic
import QueryPlanAdapters.Logic.Exception

/-!
# Elasticsearch: timestamps shifted by a duration

A comparison of `timestamp(f) ± duration(d)` with a literal is solved for the field, and the
field is bounded to where the sum exists. The dates of the index and the literals are whole
milliseconds, so that both bounds can be.
-/

namespace QueryPlanAdapters.Elasticsearch

/-! ## The comparisons -/

/-- The sums and the difference of a timestamp and a duration. -/
inductive Shift where
  | plus
  /-- The duration is the left operand. -/
  | plusAfter
  | minus
  deriving DecidableEq, Repr

namespace Shift

def operator : Shift → PlanOperator
  | plus | plusAfter => .add
  | minus => .sub

def operands : Shift → (timestamp duration : Operand) → List Operand
  | plus, timestamp, duration | minus, timestamp, duration => [timestamp, duration]
  | plusAfter, timestamp, duration => [duration, timestamp]

/-- CEL's sum or difference, unless it is out of range. -/
def combine : Shift → CelTimestamp → CelDuration → Option TemporalValue
  | plus, t, d => TemporalValue.combine false (.timestamp t) (.duration d)
  | plusAfter, t, d => TemporalValue.combine false (.duration d) (.timestamp t)
  | minus, t, d => TemporalValue.combine true (.timestamp t) (.duration d)

/-- How far the timestamp is moved. -/
def signed : Shift → Int → Int
  | plus, nanos | plusAfter, nanos => nanos
  | minus, nanos => -nanos

theorem combine_eq_some_iff {shift : Shift} {t : CelTimestamp} {d : CelDuration}
    {v : TemporalValue} :
    shift.combine t d = some v ↔
      TemporalValue.ofTimestamp (t.nanos + shift.signed d.nanos) = some v := by
  cases shift with
  | plus => exact Iff.rfl
  | plusAfter => rw [signed, Int.add_comm]; exact Iff.rfl
  | minus => rw [signed, ← Int.sub_eq_add_neg]; exact Iff.rfl

end Shift

/-- `timestamp(f) ± duration(d)` compared with `timestamp(l)`, which may stand first. -/
structure ShiftedComparison where
  operator : ComparisonOperator
  arithmeticFirst : Bool
  shift : Shift
  name : String
  spelling : String
  literal : String

namespace ShiftedComparison

def arithmetic (c : ShiftedComparison) : Operand :=
  .expression c.shift.operator <|
    c.shift.operands (timestampOf (.var c.name)) (.expression .duration [.value (.string c.spelling)])

def operands (c : ShiftedComparison) : List Operand :=
  if c.arithmeticFirst then [c.arithmetic, timestampOf (.value (.string c.literal))]
  else [timestampOf (.value (.string c.literal)), c.arithmetic]

/-- The operator with the arithmetic on its left. -/
def sided (c : ShiftedComparison) : ComparisonOperator :=
  if c.arithmeticFirst then c.operator else c.operator.mirrored

/-- The shifted timestamp, none where CEL has no such timestamp or no such duration. -/
def shifted (c : ShiftedComparison) (t : CelTimestamp) : Option TemporalValue := do
  let nanos ← GoTime.parseDuration c.spelling
  match ← TemporalValue.ofDuration nanos with
  | .duration d => c.shift.combine t d
  | .timestamp _ => none

/-- CEL's value of the comparison; UNKNOWN is an error. -/
def truth (c : ShiftedComparison) (stored : Option CelTimestamp) : Truth :=
  match stored.bind c.shifted, parseRfc3339Timestamp c.literal with
  | some sum, some literal =>
      .ofBool (if c.arithmeticFirst then c.operator.test (.finite sum.nanos) (.finite literal)
        else c.operator.test (.finite literal) (.finite sum.nanos))
  | _, _ => .unknown

end ShiftedComparison

/-! ## A comparison of a date -/

/-- The plan's spelling of a comparison. -/
def planOperator : ComparisonOperator → PlanOperator
  | .eq => .eq
  | .ne => .ne
  | .lt => .lt
  | .le => .le
  | .gt => .gt
  | .ge => .ge

/-- The query of a comparison, or of its negation. -/
def comparisonQuery (field : String) (value : Literal) : ComparisonOperator → Bool → Query
  | .eq, true | .ne, false => .term field value
  | .ne, true | .eq, false => .definedAndNot field (.term field value)
  | .lt, true | .ge, false => .range field .lt value
  | .le, true | .gt, false => .range field .lte value
  | .gt, true | .le, false => .range field .gt value
  | .ge, true | .lt, false => .range field .gte value

/-- The instant of a date. -/
def Term.nanos : Term → Int
  | date millis => millis * 1000000
  | _ => 0

/-- A date attribute in the index: no term when it is missing. -/
def dateTerms (x : Option Int) : List Term :=
  x.toList.map .date

section Leaf

variable {options : Options} {scope : Scope} {name field text : String} {polarity : Polarity}
  {operator : ComparisonOperator} {query : Query}

theorem parseRfc3339Instant_of_offset {instant : Int} (h : parseOffsetDateTime text = some instant) :
    parseRfc3339Instant text = some instant := by
  rw [parseOffsetDateTime] at h
  split at h
  next =>
    split at h
    next => cases h
    next => exact h
  next => cases h

/-- The operator's query matches the terms of which the comparison holds, or does not. -/
theorem comparisonQuery_matches_terms {regexpMatches : String → String → Bool} {d : Document}
    {value : Literal} {x : Option Term} {key : Term → ℚ} {bound : ℚ}
    (hx : d.terms field = x.toList)
    (htest : ∀ t ∈ x, ∀ operator : ComparisonOperator,
      t.test operator value = operator.test (.finite (key t)) (.finite bound))
    (operator : ComparisonOperator) (whenTrue : Bool) :
    (comparisonQuery field value operator whenTrue).matches regexpMatches d =
      x.any fun t => operator.test (.finite (key t)) (.finite bound) == whenTrue := by
  have hle : ∀ a b : ℚ, decide (a ≤ b) = !decide (b < a) := by
    intro a b
    rw [← decide_not, decide_eq_decide, not_lt]
  cases x with
  | none =>
      have hnone : d.terms field = [] := hx
      cases operator <;> cases whenTrue <;>
        simp [comparisonQuery, Query.matches, hnone]
  | some t =>
      have hone : d.terms field = [t] := hx
      have hsome : ∀ operator : ComparisonOperator,
          t.test operator value = operator.test (.finite (key t)) (.finite bound) := htest t rfl
      cases operator <;> cases whenTrue <;>
        simp [comparisonQuery, Query.matches, hone, hsome, RangeBound.operator,
          ComparisonOperator.test, hle]

/-- The dates that a comparison with a text matches. -/
theorem comparisonQuery_matches {regexpMatches : String → String → Bool} {d : Document}
    {x : Option Int} {instant : Int} (hx : d.terms field = dateTerms x)
    (htext : parseRfc3339Instant text = some instant) (operator : ComparisonOperator)
    (whenTrue : Bool) :
    (comparisonQuery field (.string text) operator whenTrue).matches regexpMatches d =
      x.any fun millis =>
        operator.test (.finite (millis * 1000000 : Int)) (.finite instant) == whenTrue := by
  have hterms : d.terms field = (x.map Term.date).toList := by
    rw [hx, dateTerms]
    cases x <;> rfl
  have htest : ∀ t ∈ x.map Term.date, ∀ operator : ComparisonOperator, t.test operator (.string text) =
      operator.test (.finite (t.nanos : Int)) (.finite instant) := by
    intro t ht operator
    obtain ⟨millis, -, rfl⟩ := Option.map_eq_some_iff.mp ht
    rw [Term.test, htext, Term.nanos]
  rw [comparisonQuery_matches_terms hterms htest, Option.any_map]
  rfl

theorem polarizedQuery_eq [JavaCharacter] (hdefault : ∀ operator, options.operatorOverrides operator = none)
    (operator : ComparisonOperator) (value : Literal) (whenTrue : Bool) :
    options.polarizedQuery (planOperator operator) field value whenTrue =
      .ok (comparisonQuery field value operator whenTrue) := by
  cases operator <;> cases whenTrue <;>
    simp [Options.polarizedQuery, Options.positiveQuery, Options.negatedQuery, planOperator,
      Options.applyOperator, Options.operatorOrDefault, Options.isOverridden, hdefault,
      defaultOperator, negatedRange, comparisonQuery, bind, Except.bind, pure, Except.pure]

/-- A timestamp field and a timestamp literal, in either order. -/
theorem resolveComparison_timestamps (fieldFirst : Bool) :
    (if fieldFirst then
      resolveComparison (timestampOf (.var name)) (timestampOf (.value (.string text)))
      else resolveComparison (timestampOf (.value (.string text))) (timestampOf (.var name))) =
      (validateTimestampLiteral (.string text)).map fun _ => ⟨name, .string text, fieldFirst⟩ := by
  cases fieldFirst <;>
    cases hvalid : validateTimestampLiteral (.string text) <;>
      simp [resolveComparison, resolveLeafOperand, timestampOf, protoValueToJava, rejectNonFinite,
        firstNonFinite, hvalid, bind, Except.bind, pure, Except.pure, Except.map]

theorem normalizeLeafOperator_eq (operator : ComparisonOperator) (fieldFirst : Bool) :
    normalizeLeafOperator (planOperator operator) fieldFirst =
      .ok (planOperator (if fieldFirst then operator else operator.mirrored)) := by
  cases fieldFirst <;> cases operator <;> rfl

theorem typeMismatchQuery_eq {operands : List Operand} (whenTrue : Bool)
    (hdeclared : options.scalarTypes.lookup field = some .timestamp)
    (hdefault : ∀ operator, options.operatorOverrides operator = none)
    (hwrapped : hasTimestampWrapper operands = true) :
    options.typeMismatchQuery (planOperator operator) field (.string text) operands whenTrue =
      .ok none := by
  cases operator <;>
    simp [Options.typeMismatchQuery, planOperator, Options.isOverridden, hdefault,
      isScalarOperandOperator, Options.declaredType, hdeclared, hwrapped, inhabits,
      isStringOperator, bind, Except.bind, pure, Except.pure]

theorem plainLeaf_of_resolved [JavaCharacter] {left right : Operand} {fieldFirst : Bool}
    (hfield : scope.field name = .ok field)
    (hdeclared : options.scalarTypes.lookup field = some .timestamp)
    (hdefault : ∀ operator, options.operatorOverrides operator = none)
    (hresolved : resolveComparison left right =
      (validateTimestampLiteral (.string text)).map fun _ => ⟨name, .string text, fieldFirst⟩)
    (hwrapped : hasTimestampWrapper [left, right] = true) :
    options.plainLeaf (planOperator operator) [left, right] scope polarity =
      (validateTimestampLiteral (.string text)).map fun _ =>
        comparisonQuery field (.string text)
          (if fieldFirst then operator else operator.mirrored) polarity.holds := by
  rw [Options.plainLeaf, hresolved]
  cases validateTimestampLiteral (.string text) with
  | error refusal => rfl
  | ok valid =>
      simp only [Except.map, bind, Except.bind, hfield, normalizeLeafOperator_eq]
      generalize (if fieldFirst then operator else operator.mirrored) = sided
      have hmembership : planOperator sided ≠ .in := by
        cases sided <;> decide
      have hscalar : rejectNonScalarOperand (planOperator sided) (.string text) fieldFirst = .ok () := by
        cases sided <;> rfl
      have hleaf : options.membershipLeaf (planOperator sided) field (.string text) fieldFirst
          [left, right] polarity.holds =
            .ok (comparisonQuery field (.string text) sided polarity.holds) := by
        rw [← polarizedQuery_eq hdefault]
        cases sided <;> rfl
      simp [hmembership, hscalar, typeMismatchQuery_eq polarity.holds hdeclared hdefault hwrapped,
        hleaf]

/-- The comparison of a timestamp field with a literal of whole milliseconds, on either side. -/
theorem plainLeaf_timestamps [JavaCharacter] (fieldFirst : Bool) (hfield : scope.field name = .ok field)
    (hdeclared : options.scalarTypes.lookup field = some .timestamp)
    (hdefault : ∀ operator, options.operatorOverrides operator = none) :
    options.plainLeaf (planOperator operator)
      (if fieldFirst then [timestampOf (.var name), timestampOf (.value (.string text))]
        else [timestampOf (.value (.string text)), timestampOf (.var name)]) scope polarity =
      (validateTimestampLiteral (.string text)).map fun _ =>
        comparisonQuery field (.string text)
          (if fieldFirst then operator else operator.mirrored) polarity.holds := by
  have hresolved := @resolveComparison_timestamps name text fieldFirst
  cases fieldFirst with
  | true => exact plainLeaf_of_resolved hfield hdeclared hdefault hresolved rfl
  | false => exact plainLeaf_of_resolved hfield hdeclared hdefault hresolved rfl

end Leaf

/-! ## The query of a shifted comparison -/

/-- The field is where the sum is in CEL's range. -/
def rangeOfSum (field : String) (shift : Int) : Query :=
  if shift < 0 then
    .range field .gte (.string (formatInstant (ceilToMillis (minTimestampNanos - shift))))
  else .range field .lte (.string (formatInstant (floorToMillis (maxTimestampNanos - shift))))

def shiftedQuery (field : String) (sided : ComparisonOperator) (whenTrue : Bool)
    (literal shift : Int) : Query :=
  let comparison := comparisonQuery field (.string (formatInstant (literal - shift))) sided whenTrue
  if shift = 0 then comparison else .boolMust [comparison, rangeOfSum field shift]

/-- A literal and a shift that are accepted: the literal is in range and so is the field's
value that reaches it, and both are whole milliseconds. -/
structure Accepted (literal shift : Int) : Prop where
  literal_inRange : inTimestampRange literal = true
  solved_inRange : inTimestampRange (literal - shift) = true
  literal_millis : literal % 1000000 = 0
  solved_millis : (literal - shift) % 1000000 = 0

theorem inTimestampRange_iff {nanos : Int} :
    inTimestampRange nanos = true ↔ minTimestampNanos ≤ nanos ∧ nanos ≤ maxTimestampNanos := by
  rw [inTimestampRange, Bool.and_eq_true, decide_eq_true_eq, decide_eq_true_eq]

theorem parseRfc3339Instant_formatInstant {nanos : Int} (h : inTimestampRange nanos = true) :
    parseRfc3339Instant (formatInstant nanos) = some nanos :=
  parseRfc3339Instant_of_offset (parseOffsetDateTime_formatInstant h)

section Query

variable {regexpMatches : String → String → Bool} {d : Document} {field : String}
  {literal shift : Int} {x : Option Int}

/-- The least whole millisecond from an instant on. -/
theorem ceilToMillis_le_iff {nanos millis : Int} :
    ceilToMillis nanos ≤ millis * 1000000 ↔ nanos ≤ millis * 1000000 := by
  rw [ceilToMillis, floorToMillis]
  split <;> omega

/-- The greatest whole millisecond up to an instant. -/
theorem le_floorToMillis_iff {nanos millis : Int} :
    millis * 1000000 ≤ floorToMillis nanos ↔ millis * 1000000 ≤ nanos := by
  rw [floorToMillis]
  omega

theorem matches_range {text : String} {instant : Int} (hx : d.terms field = dateTerms x)
    (htext : parseRfc3339Instant text = some instant) (bound : RangeBound) :
    (Query.range field bound (.string text)).matches regexpMatches d =
      x.any fun millis =>
        bound.operator.test (.finite (millis * 1000000 : Int)) (.finite instant) := by
  rw [Query.matches, hx, dateTerms]
  cases x <;> simp [Term.test, htext]

/-- The sum cannot leave the range on its other side. -/
theorem rangeOfSum_matches (h : Accepted literal shift) (hx : d.terms field = dateTerms x)
    (hstored : ∀ millis ∈ x, inTimestampRange (millis * 1000000) = true) :
    (rangeOfSum field shift).matches regexpMatches d =
      x.any fun millis => inTimestampRange (millis * 1000000 + shift) := by
  obtain ⟨millis', hsolved⟩ : ∃ millis', literal - shift = millis' * 1000000 :=
    ⟨(literal - shift) / 1000000, by have := h.solved_millis; omega⟩
  have hliteral := inTimestampRange_iff.mp h.literal_inRange
  have hrange := inTimestampRange_iff.mp h.solved_inRange
  rw [rangeOfSum]
  split
  case' isTrue hnegative =>
    have hbound : inTimestampRange (ceilToMillis (minTimestampNanos - shift)) = true := by
      have hle : ceilToMillis (minTimestampNanos - shift) ≤ literal - shift := by
        rw [hsolved, ceilToMillis_le_iff]
        omega
      have hge : minTimestampNanos - shift ≤ ceilToMillis (minTimestampNanos - shift) := by
        rw [ceilToMillis, floorToMillis]
        split <;> omega
      exact inTimestampRange_iff.mpr ⟨by omega, by omega⟩
    rw [matches_range hx (parseRfc3339Instant_formatInstant hbound)]
  case' isFalse hnegative =>
    have hbound : inTimestampRange (floorToMillis (maxTimestampNanos - shift)) = true := by
      have hge : literal - shift ≤ floorToMillis (maxTimestampNanos - shift) := by
        rw [hsolved, le_floorToMillis_iff]
        omega
      have hle : floorToMillis (maxTimestampNanos - shift) ≤ maxTimestampNanos - shift := by
        rw [floorToMillis]
        omega
      exact inTimestampRange_iff.mpr ⟨by omega, by omega⟩
    rw [matches_range hx (parseRfc3339Instant_formatInstant hbound)]
  all_goals
    cases x with
    | none => rfl
    | some millis =>
        have hmillis := inTimestampRange_iff.mp (hstored millis rfl)
        rw [Option.any_some, Option.any_some, RangeBound.operator, Bool.eq_iff_iff,
          inTimestampRange_iff]
        simp only [ComparisonOperator.test, Double.le_finite, decide_eq_true_eq, Int.cast_le,
          ceilToMillis_le_iff, le_floorToMillis_iff]
        omega

/-- Comparing the field with the literal less the shift is comparing the sum with the literal. -/
theorem test_shifted (operator : ComparisonOperator) (t literal shift : Int) :
    operator.test (.finite t) (.finite (literal - shift : Int)) =
      operator.test (.finite (t + shift : Int)) (.finite literal) :=
  test_finite_iff operator (by omega) (by omega)

theorem shiftedQuery_matches (h : Accepted literal shift) (hx : d.terms field = dateTerms x)
    (hstored : ∀ millis ∈ x, inTimestampRange (millis * 1000000) = true)
    (sided : ComparisonOperator) (whenTrue : Bool) :
    (shiftedQuery field sided whenTrue literal shift).matches regexpMatches d =
      x.any fun millis => inTimestampRange (millis * 1000000 + shift) &&
        (sided.test (.finite (millis * 1000000 + shift : Int)) (.finite literal) == whenTrue) := by
  have hcomparison : (comparisonQuery field (.string (formatInstant (literal - shift))) sided
      whenTrue).matches regexpMatches d = x.any fun millis =>
        sided.test (.finite (millis * 1000000 + shift : Int)) (.finite literal) == whenTrue := by
    rw [comparisonQuery_matches hx (parseRfc3339Instant_formatInstant h.solved_inRange)]
    simp only [test_shifted]
  rw [shiftedQuery]
  split
  next hzero =>
    rw [hcomparison]
    cases x with
    | none => rfl
    | some millis =>
        have hmillis := hstored millis rfl
        rw [Option.any_some, Option.any_some, hzero, Int.add_zero, hmillis, Bool.true_and]
  next =>
    rw [matches_boolMust, List.all_cons, List.all_cons, List.all_nil, Bool.and_true, hcomparison,
      rangeOfSum_matches h hx hstored]
    cases x with
    | none => rfl
    | some millis => rw [Option.any_some, Option.any_some, Option.any_some, Bool.and_comm]

end Query

/-! ## The translation -/

/-- A spelling that is read is one of decimal seconds, with its nanoseconds. -/
theorem exists_secondsText_of_literal {spelling : String} {nanos : Int}
    (h : parseDurationLiteral spelling = .ok nanos) :
    ∃ d : SecondsText, spelling = String.ofList d.text ∧ d.nanos = nanos := by
  obtain ⟨cs, hcs⟩ : ∃ cs, (if ['-'].isPrefixOf spelling.toList then spelling.toList.tail
    else spelling.toList) = cs := ⟨_, rfl⟩
  have hsign : takeOptional ['-'] spelling.toList = (['-'].isPrefixOf spelling.toList, cs) := by
    rw [takeOptional, ← hcs]
    cases ['-'].isPrefixOf spelling.toList with
    | true => exact congrArg (Prod.mk true) List.drop_one
    | false => rfl
  rw [parseDurationLiteral, hsign] at h
  dsimp only at h
  split at h
  next fraction hseconds hfraction =>
    split at h
    next => cases h
    next =>
      have hmatch : matchSeconds spelling =
          some (['-'].isPrefixOf spelling.toList, cs.takeWhile isDigit, fraction) := by
        simp only [matchSeconds, hcs, hseconds, hfraction]
      obtain ⟨d, hspelling, hnegative, hdigits, hnanos⟩ := exists_secondsText hmatch
      refine ⟨d, hspelling, ?_⟩
      rw [← Except.ok.inj h, SecondsText.nanos, SecondsText.magnitude, hnegative, hdigits, hnanos]
      push_cast
      rfl
  next => cases h

namespace ShiftedComparison

variable {options : Options} {scope : Scope} {polarity : Polarity} {field : String} {query : Query}
  {c : ShiftedComparison}

theorem applyResolvedLeaf_eq [JavaCharacter] :
    options.applyResolvedLeaf (planOperator c.operator) c.operands scope polarity =
      options.shiftedTimestampComparison (planOperator c.operator) c.arithmeticFirst
        c.shift.operator c.name c.spelling (timestampOf (.value (.string c.literal))) scope
        polarity := by
  obtain ⟨operator, arithmeticFirst, shift, name, spelling, literal⟩ := c
  cases arithmeticFirst <;> cases shift <;> rfl

/-- The query of a comparison that is accepted. -/
theorem applyResolvedLeaf_eq_ok [JavaCharacter] (hfield : scope.field c.name = .ok field)
    (hdeclared : options.scalarTypes.lookup field = some .timestamp)
    (hdefault : ∀ operator, options.operatorOverrides operator = none)
    (h : options.applyResolvedLeaf (planOperator c.operator) c.operands scope polarity = .ok query) :
    ∃ (d : SecondsText) (literal : Int), c.spelling = String.ofList d.text ∧
      parseDurationLiteral c.spelling = .ok d.nanos ∧
      parseRfc3339Timestamp c.literal = some literal ∧ Accepted literal (c.shift.signed d.nanos) ∧
      query = shiftedQuery field c.sided polarity.holds literal (c.shift.signed d.nanos) := by
  rw [applyResolvedLeaf_eq] at h
  have hcomparison : isTimestampComparison (planOperator c.operator) = true := by
    cases c.operator <;> rfl
  rw [Options.shiftedTimestampComparison, hcomparison] at h
  obtain ⟨nanos, hnanos, h⟩ := Except.bind_eq_ok_iff.mp h
  obtain ⟨d, hspelling, rfl⟩ := exists_secondsText_of_literal hnanos
  obtain ⟨hvalid, h⟩ := Except.bind_unit_eq_ok_iff.mp h
  obtain ⟨_, literal, hstring, hparsed, hrange, hmillis⟩ := validateTimestampLiteral_eq_ok_iff.mp hvalid
  obtain rfl := PlanValue.string.inj hstring
  have hshift : (if c.shift.operator = .add then d.nanos else -d.nanos) = c.shift.signed d.nanos := by
    cases c.shift <;> rfl
  have htext : parseOffsetDateTime (textOf (protoValueToJava (.string c.literal))) = some literal :=
    hparsed
  simp only [htext, hshift] at h
  split at h
  next => cases h
  next =>
    split at h
    next => cases h
    next hsolved =>
      rw [plainLeaf_timestamps c.arithmeticFirst hfield hdeclared hdefault] at h
      obtain ⟨comparison, hleaf, h⟩ := Except.bind_eq_ok_iff.mp h
      obtain ⟨_, hvalidated, rfl⟩ := Except.map_eq_ok_iff.mp hleaf
      obtain ⟨_, solved, hstring, hsolvedText, hsolvedRange, hsolvedMillis⟩ :=
        validateTimestampLiteral_eq_ok_iff.mp hvalidated
      obtain rfl := PlanValue.string.inj hstring
      have hinRange : inTimestampRange (literal - c.shift.signed d.nanos) = true := by
        simpa using hsolved
      rw [parseOffsetDateTime_formatInstant hinRange] at hsolvedText
      obtain rfl := Option.some.inj hsolvedText
      have hliteral : parseRfc3339Timestamp c.literal = some literal := by
        rw [parseRfc3339Timestamp, parseRfc3339Instant_of_offset hparsed]
        exact Option.filter_some_pos hrange
      refine ⟨d, literal, hspelling, hnanos, hliteral, ⟨hrange, hinRange, hmillis, hsolvedMillis⟩, ?_⟩
      rw [shiftedQuery, sided]
      split at h
      next hzero =>
        rw [if_pos hzero]
        exact (Except.ok.inj h).symm
      next hzero =>
        rw [hfield] at h
        rw [if_neg hzero]
        exact (Except.ok.inj h).symm

/-! ### CEL's value -/

section Truth

variable {d : SecondsText} {literal : Int} (hspelling : c.spelling = String.ofList d.text)

include hspelling

/-- CEL's sum, where the duration is one of its own. -/
theorem shifted_eq (hfits : int64Min ≤ d.nanos ∧ d.nanos ≤ int64Max) (t : CelTimestamp) :
    c.shifted t = TemporalValue.ofTimestamp (t.nanos + c.shift.signed d.nanos) := by
  have hduration : TemporalValue.ofDuration d.nanos = some (.duration ⟨d.nanos, hfits⟩) := dif_pos hfits
  have hsome : ∀ v, c.shifted t = some v ↔
      TemporalValue.ofTimestamp (t.nanos + c.shift.signed d.nanos) = some v := by
    intro v
    rw [shifted, hspelling, SecondsText.goParseDuration_text, if_pos hfits, Option.bind_eq_bind,
      Option.bind_some, hduration]
    exact Shift.combine_eq_some_iff
  exact Option.ext hsome

theorem shifted_eq_none (hfits : ¬ (int64Min ≤ d.nanos ∧ d.nanos ≤ int64Max)) (t : CelTimestamp) :
    c.shifted t = none := by
  rw [shifted, hspelling, SecondsText.goParseDuration_text, if_neg hfits]
  rfl

variable (hliteral : parseRfc3339Timestamp c.literal = some literal)

include hliteral

theorem truth_some (hfits : int64Min ≤ d.nanos ∧ d.nanos ≤ int64Max) (t : CelTimestamp) :
    c.truth (some t) =
      if inTimestampRange (t.nanos + c.shift.signed d.nanos) then
        .ofBool (c.sided.test (.finite (t.nanos + c.shift.signed d.nanos : Int)) (.finite literal))
      else .unknown := by
  rw [truth, Option.bind_some, shifted_eq hspelling hfits, hliteral, TemporalValue.ofTimestamp]
  by_cases hrange : minTimestampNanos ≤ t.nanos + c.shift.signed d.nanos ∧
      t.nanos + c.shift.signed d.nanos ≤ maxTimestampNanos
  · rw [dif_pos hrange, if_pos (inTimestampRange_iff.mpr hrange), sided]
    cases c.arithmeticFirst with
    | true => rfl
    | false =>
        rw [if_neg Bool.false_ne_true]
        exact congrArg Truth.ofBool (test_mirrored c.operator (.finite literal) _).symm
  · rw [dif_neg hrange, if_neg (inTimestampRange_iff.not.mpr hrange)]

end Truth

end ShiftedComparison

/-- A timestamp of whole milliseconds in the index. -/
def timestampTerms (x : Option CelTimestamp) : List Term :=
  dateTerms (x.map fun t => t.nanos / 1000000)

end QueryPlanAdapters.Elasticsearch

namespace QueryPlanAdapters

open Elasticsearch

/-- `timestamp(R.attr.at) + duration(d) < timestamp("2024-01-01T00:00:00Z")`. -/
def beforeNewYear (spelling : String) : ShiftedComparison where
  operator := .lt
  arithmeticFirst := true
  shift := .plus
  name := "R.attr.at"
  spelling
  literal := "2024-01-01T00:00:00Z"

/-- One timestamp field. -/
def timestampOptions : Options where
  fieldMap := [("R.attr.at", "at")]
  operatorOverrides _ := none
  nestedPaths := []
  collectionFields := []
  explicitNullAttributes := []
  scalarTypes := [("at", .timestamp)]

/-- Latin letters and digits, for a Java that has no others. -/
@[reducible] def latinCharacter : JavaCharacter :=
  ⟨Char.isAlphanum, Char.isDigit, fun _ _ => rfl, fun _ _ => rfl⟩

/-- The translation of a comparison with the new year. -/
def beforeNewYearQuery (spelling : String) (polarity : Polarity) : Translation Query :=
  @Options.applyResolvedLeaf latinCharacter timestampOptions .lt (beforeNewYear spelling).operands
    (.root timestampOptions.fieldMap) polarity

theorem exists_of_any {α : Type} {x : Translation α} {p : α → Bool}
    (h : x.toOption.any p = true) : ∃ a, x = .ok a ∧ p a = true := by
  cases x with
  | error refusal => cases h
  | ok a => exact ⟨a, rfl, h⟩

end QueryPlanAdapters
