import QueryPlanAdapters.Convex.Evaluate
import QueryPlanAdapters.Logic.Exception

/-!
# Convex: timestamps among numbers

A timestamp is held as a bare bigint of nanoseconds, as an int beyond the safe range
is. Arithmetic recovers the type from the node that produced the value; comparisons
and conversions read the bigint as the number it is.
-/

namespace QueryPlanAdapters.Convex

section Timestamps

variable [Double.Rounding] {scope : Scope}

/-! ## What a call makes of evaluated operands -/

variable {v w : Value} {x y : Double}

theorem evaluate_binary {operator : PlanOperator} {left right : Operand} {l r : Outcome}
    (hleft : evaluate left scope = .ok l) (hright : evaluate right scope = .ok r)
    {roleLeft roleRight : String} {combine : Outcome → Outcome → Result}
    (h : evaluateOperator (callOf operator [left, right] scope) = do
      let l ← (callOf operator [left, right] scope).arg 0 roleLeft
      let r ← (callOf operator [left, right] scope).arg 1 roleRight
      combine l r) :
    evaluate (.expression operator [left, right]) scope = combine l r := by
  rw [evaluate_expression, h]
  simp [Call.arg, callOf, hleft, hright, bind, Except.bind]

theorem evaluate_comparison {operator : PlanOperator} {op : ComparisonOperator}
    (hoperator : comparisonOperator operator = some op) {left right : Operand} {l r : Outcome}
    (hleft : evaluate left scope = .ok l) (hright : evaluate right scope = .ok r) :
    evaluate (.expression operator [left, right]) scope = .ok (compareValues op l r) := by
  have hcall : evaluateOperator (callOf operator [left, right] scope) =
      comparison op (callOf operator [left, right] scope) := by
    cases operator <;> first | (obtain rfl := Option.some.inj hoperator; rfl) | cases hoperator
  exact evaluate_binary hleft hright hcall

theorem evaluate_conversion {operator : PlanOperator} {convert : Outcome → Outcome}
    {operand : Operand} {o : Outcome}
    (hcall : evaluateOperator (callOf operator [operand] scope) =
      conversion convert (callOf operator [operand] scope))
    (hoperand : evaluate operand scope = .ok o) :
    evaluate (.expression operator [operand]) scope = .ok (convert o) := by
  rw [evaluate_expression, hcall]
  simp [conversion, Call.arg, callOf, hoperand, bind, Except.bind, pure, Except.pure]

/-! ## Timestamps are bigints -/

omit [Double.Rounding] in
theorem conversion_eq_ok_iff {convert : Outcome → Outcome} {call : Call} {o : Outcome} :
    conversion convert call = .ok o ↔ ∃ operand, call.arg 0 "operand" = .ok operand ∧
      convert operand = o := by
  rw [conversion, Except.bind_eq_ok_iff]
  simp [pure, Except.pure]

omit [Double.Rounding] in
theorem checkedTimestamp_eq_value {nanos : Int}
    (h : checkedTimestamp nanos = .value v) : v = .bigint nanos := by
  rw [checkedTimestamp] at h
  split at h
  · cases h
  · exact (Outcome.value.inj h).symm

omit [Double.Rounding] in
/-- Temporal arithmetic of the kind that gives a timestamp yields a bigint, if a value. -/
theorem temporalArithmetic_timestamp {call : Call}
    (hkind : temporalResultKind call.operator ((call.operands.map temporalKindOf).getD 0 none)
      ((call.operands.map temporalKindOf).getD 1 none) = some .timestamp)
    (h : temporalArithmetic call = .ok (.value v)) : ∃ nanos, v = .bigint nanos := by
  obtain ⟨l, -, h⟩ := Except.bind_eq_ok_iff.mp h
  obtain ⟨r, -, h⟩ := Except.bind_eq_ok_iff.mp h
  rw [hkind] at h
  cases hl : nanosOf l with
  | none =>
      rw [hl] at h
      cases h
  | some a =>
      cases hr : nanosOf r with
      | none =>
          rw [hl, hr] at h
          cases h
      | some b =>
          rw [hl, hr] at h
          exact ⟨_, checkedTimestamp_eq_value (Except.ok.inj h)⟩

omit [Double.Rounding] in
/-- A sum or difference is a timestamp by the kinds of its first two operands. -/
theorem temporalKindOf_sum {operator : PlanOperator} {operands : List Operand}
    (hsum : operator = .add ∨ operator = .sub)
    (hkind : temporalKindOf (.expression operator operands) = some .timestamp) :
    temporalResultKind operator ((operands.map temporalKindOf).getD 0 none)
        ((operands.map temporalKindOf).getD 1 none) = some .timestamp ∧
      isTemporalNode operator operands = true := by
  have hshape : ∃ left right rest, operands = left :: right :: rest ∧
      temporalResultKind operator (temporalKindOf left) (temporalKindOf right) =
        some .timestamp := by
    obtain rfl | rfl := hsum
    all_goals
      rw [temporalKindOf, temporalKindsOf_eq_map] at hkind
      rcases operands with _ | ⟨left, _ | ⟨right, rest⟩⟩
      · cases hkind
      · cases hkind
      · exact ⟨left, right, rest, rfl, hkind⟩
  obtain ⟨left, right, rest, rfl, hresult⟩ := hshape
  refine ⟨hresult, ?_⟩
  have hany : (temporalKindOf left).isSome = true ∨ (temporalKindOf right).isSome = true := by
    cases hleft : temporalKindOf left with
    | some kind => exact .inl rfl
    | none =>
        cases hright : temporalKindOf right with
        | some kind => exact .inr rfl
        | none =>
            rw [hleft, hright] at hresult
            simp [temporalResultKind] at hresult
  obtain rfl | rfl := hsum <;> obtain h | h := hany <;> simp [isTemporalNode, h]

/-- An operand that certainly is a timestamp yields a bigint, if a value. -/
theorem evaluate_timestampKind {operand : Operand}
    (hkind : temporalKindOf operand = some .timestamp)
    (h : evaluate operand scope = .ok (.value v)) : ∃ nanos, v = .bigint nanos := by
  cases operand with
  | value literal => cases hkind
  | var name => cases hkind
  | expression operator operands =>
      rw [evaluate_expression] at h
      have harithmetic : ∀ op, (operator = .add ∨ operator = .sub) →
          arithmetic op (callOf operator operands scope) = .ok (.value v) →
            ∃ nanos, v = .bigint nanos := by
        intro op hsum h
        obtain ⟨hresult, htemporal⟩ := temporalKindOf_sum hsum hkind
        rw [arithmetic] at h
        exact temporalArithmetic_timestamp hresult ((if_pos htemporal).symm.trans h)
      cases operator with
      | timestamp =>
          obtain ⟨o, -, h⟩ := conversion_eq_ok_iff.mp h
          rw [convertToTimestamp.eq_def] at h
          split at h
          · split at h
            · exact ⟨_, (Outcome.value.inj h).symm⟩
            · cases h
          · cases h
      | add => exact harithmetic .add (.inl rfl) h
      | sub => exact harithmetic .sub (.inr rfl) h
      | _ => cases hkind

/-! ## Comparisons and conversions -/

/-- What CEL answers for a timestamp beside a number: they are never equal, and have no
order. -/
def apartOutcome : ComparisonOperator → Outcome
  | .eq => .value (.bool false)
  | .ne => .value (.bool true)
  | _ => .error

/-- The operand yields a number or an int of the given value; it is no timestamp or duration. -/
structure YieldsNumber (scope : Scope) (operand : Operand) (d : Double) : Prop where
  kind : temporalKindOf operand = none
  value : ∃ w, evaluate operand scope = .ok (.value w) ∧ w.toNumeric = some d

omit [Double.Rounding] in
/-- Two numbers are ordered, or one of them is a NaN: there is a boolean either way. -/
theorem compareValues_ordering {op : ComparisonOperator} (hop : op.isOrdering = true)
    (hx : v.toNumeric = some x) (hy : w.toNumeric = some y) :
    ∃ b, compareValues op (.value v) (.value w) = .value (.bool b) := by
  have hkeys : orderingKeys v w = some (x, y) := by
    cases v <;> cases hx <;> cases w <;> cases hy <;> rfl
  cases op with
  | eq | ne => cases hop
  | _ =>
      simp only [compareValues, hkeys]
      split
      · exact ⟨_, rfl⟩
      · exact ⟨_, rfl⟩

omit [Double.Rounding] in
theorem valuesEqual_numeric (hx : v.toNumeric = some x)
    (hy : w.toNumeric = some y) : v.valuesEqual w = x.eq y := by
  cases v <;> cases hx <;> cases w <;> cases hy <;> rw [Value.valuesEqual]

omit [Double.Rounding] in
/-- Two numbers are told apart by an equality that is false, and by no ordering. -/
theorem compareValues_apart_iff {op : ComparisonOperator}
    (hx : v.toNumeric = some x) (hy : w.toNumeric = some y) :
    compareValues op (.value v) (.value w) = apartOutcome op ↔
      op.isOrdering = false ∧ x.eq y = false := by
  cases hop : op.isOrdering with
  | true =>
      obtain ⟨b, hb⟩ := compareValues_ordering hop hx hy
      rw [hb]
      refine iff_of_false ?_ fun h => Bool.noConfusion h.1
      cases op with
      | eq | ne => cases hop
      | _ => rintro ⟨⟩
  | false =>
      cases op with
      | eq | ne => simp [compareValues, apartOutcome, valuesEqual_numeric hx hy]
      | _ => cases hop

/-- A conversion never returns what it makes of the nanoseconds as of a plain int. -/
def KeepsType (scope : Scope) (timestamp : Operand) (operator : PlanOperator)
    (convert : Outcome → Outcome) : Prop :=
  ∀ nanos, evaluate timestamp scope = .ok (.value (.bigint nanos)) →
    ∀ v, convert (.value (.bigint nanos)) = .value v →
      evaluate (.expression operator [timestamp]) scope ≠ .ok (.value v)

theorem keepsType_iff {timestamp : Operand} {nanos : Int}
    (htimestamp : evaluate timestamp scope = .ok (.value (.bigint nanos)))
    {operator : PlanOperator} {convert : Outcome → Outcome}
    (hcall : evaluate (.expression operator [timestamp]) scope =
      .ok (convert (.value (.bigint nanos)))) :
    KeepsType scope timestamp operator convert ↔ convert (.value (.bigint nanos)) = .error := by
  constructor
  · intro h
    cases hconvert : convert (.value (.bigint nanos)) with
    | error => rfl
    | value v =>
        rw [hconvert] at hcall
        exact absurd hcall (h nanos htimestamp v hconvert)
  · intro h nanos' htimestamp' v hv
    obtain rfl := Value.bigint.inj
      (Outcome.value.inj (Except.ok.inj (htimestamp.symm.trans htimestamp')))
    rw [h] at hv
    cases hv

theorem evaluate_string {operand : Operand} {nanos : Int}
    (hoperand : evaluate operand scope = .ok (.value (.bigint nanos))) :
    evaluate (.expression .string [operand]) scope =
      .ok (convertToString (.value (.bigint nanos)) false) := by
  rw [evaluate_expression]
  have hcall : evaluateString (callOf .string [operand] scope) =
      .ok (convertToString (.value (.bigint nanos)) false) := by
    simp [evaluateString, Call.arg, callOf, hoperand, bind, Except.bind, pure, Except.pure,
      convertToString]
  exact hcall

/-- Beside a number a timestamp is told apart exactly by `==` and `!=`, and only where its
nanoseconds are not the number; `int()` of it is an error exactly outside int64, and
`double()` and `string()` render the nanoseconds always. -/
theorem timestamp_keepsType_iff {timestamp other : Operand} {v : Value} {d : Double}
    (hkind : temporalKindOf timestamp = some .timestamp)
    (htimestamp : evaluate timestamp scope = .ok (.value v))
    (hother : YieldsNumber scope other d) :
    ∃ nanos, v = .bigint nanos ∧
      (∀ operator op, comparisonOperator operator = some op →
        (evaluate (.expression operator [timestamp, other]) scope = .ok (apartOutcome op) ↔
          op.isOrdering = false ∧ Double.eq (.finite nanos) d = false) ∧
        (evaluate (.expression operator [other, timestamp]) scope = .ok (apartOutcome op) ↔
          op.isOrdering = false ∧ Double.eq (.finite nanos) d = false)) ∧
      (KeepsType scope timestamp .int convertToInt ↔ nanos < int64Min ∨ int64Max < nanos) ∧
      ¬ KeepsType scope timestamp .double convertToDouble ∧
      ¬ KeepsType scope timestamp .string fun o => convertToString o false := by
  obtain ⟨nanos, rfl⟩ := evaluate_timestampKind hkind htimestamp
  obtain ⟨w, hw, hd⟩ := hother.value
  refine ⟨nanos, rfl, fun operator op hoperator => ⟨?_, ?_⟩, ?_, ?_, ?_⟩
  · rw [evaluate_comparison hoperator htimestamp hw, Except.ok.injEq]
    exact compareValues_apart_iff rfl hd
  · rw [evaluate_comparison hoperator hw htimestamp, Except.ok.injEq, Double.eq_swap]
    exact compareValues_apart_iff hd rfl
  · rw [keepsType_iff htimestamp (evaluate_conversion rfl htimestamp), convertToInt, celInt]
    split
    next h => exact iff_of_true rfl h
    next h => exact iff_of_false (by split <;> rintro ⟨⟩) h
  · rw [keepsType_iff htimestamp (evaluate_conversion rfl htimestamp), convertToDouble]
    rintro ⟨⟩
  · rw [keepsType_iff htimestamp (evaluate_string htimestamp), convertToString]
    rintro ⟨⟩

end Timestamps

/-- `timestamp("1970-01-01T00:00:00.000000005Z")`. -/
def fiveNanos : Operand :=
  .expression .timestamp [.value (.string "1970-01-01T00:00:00.000000005Z")]

def emptyScope : Scope :=
  { doc := .record []
    mapper := fun _ => none
    bindings := .empty
    nullIsMissing := false
    now := 0 }

theorem evaluate_fiveNanos : evaluate fiveNanos emptyScope = .ok (.value (.bigint 5)) := by
  rw [fiveNanos, evaluate_conversion rfl (evaluate_value _ _)]
  rfl

theorem yieldsNumber_five : YieldsNumber emptyScope (.value (.number 5)) (.finite 5) :=
  ⟨rfl, _, evaluate_value _ _, rfl⟩

/-- The timestamp equals the number five, is ordered against it, and converts to the int
five. -/
theorem timestamp_mistaken :
    evaluate (.expression .eq [fiveNanos, .value (.number 5)]) emptyScope =
        .ok (.value (.bool true)) ∧
      evaluate (.expression .lt [fiveNanos, .value (.number 5)]) emptyScope =
        .ok (.value (.bool false)) ∧
      ¬ KeepsType emptyScope fiveNanos .int convertToInt := by
  refine ⟨?_, ?_, ?_⟩
  · rw [evaluate_comparison rfl evaluate_fiveNanos (evaluate_value _ _)]
    rfl
  · rw [evaluate_comparison rfl evaluate_fiveNanos (evaluate_value _ _)]
    rfl
  · rw [keepsType_iff evaluate_fiveNanos (evaluate_conversion rfl evaluate_fiveNanos)]
    rintro ⟨⟩

theorem timestamp_keepsType_iff_five :
    ∃ nanos, Value.bigint 5 = .bigint nanos ∧
      (∀ operator op, comparisonOperator operator = some op →
        (evaluate (.expression operator [fiveNanos, .value (.number 5)]) emptyScope =
            .ok (apartOutcome op) ↔
          op.isOrdering = false ∧ Double.eq (.finite nanos) (.finite 5) = false) ∧
        (evaluate (.expression operator [.value (.number 5), fiveNanos]) emptyScope =
            .ok (apartOutcome op) ↔
          op.isOrdering = false ∧ Double.eq (.finite nanos) (.finite 5) = false)) ∧
      (KeepsType emptyScope fiveNanos .int convertToInt ↔
        nanos < int64Min ∨ int64Max < nanos) ∧
      ¬ KeepsType emptyScope fiveNanos .double convertToDouble ∧
      ¬ KeepsType emptyScope fiveNanos .string fun o => convertToString o false :=
  timestamp_keepsType_iff rfl evaluate_fiveNanos yieldsNumber_five

end QueryPlanAdapters.Convex
