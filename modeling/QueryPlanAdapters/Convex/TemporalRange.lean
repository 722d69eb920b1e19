import QueryPlanAdapters.Convex.MixedArithmetic
import QueryPlanAdapters.Cel.TemporalArithmetic

/-!
# Convex: timestamps and durations in range

Every sum and difference is checked after the node's kind is known, so that an expression
evaluates to CEL's value, or to an error where CEL has one.
-/

namespace QueryPlanAdapters.Convex

def TemporalValue.kind : TemporalValue → TemporalKind
  | .timestamp _ => .timestamp
  | .duration _ => .duration

/-- What a value is held as: a timestamp is a bigint. -/
def heldAs : Option TemporalValue → Outcome
  | some (.timestamp t) => .value (.bigint t.nanos)
  | some (.duration d) => .value (.duration d.nanos)
  | none => .error

def readText (scope : Scope) : TemporalText → Outcome
  | .literal s => .value (.string s)
  | .reference name => lookUp name scope

section Range

variable [Double.Rounding] {scope : Scope}

theorem evaluate_text (text : TemporalText) :
    evaluate text.node scope = .ok (readText scope text) := by
  cases text with
  | literal s => exact evaluate_value _ _
  | reference name => exact evaluate_var _ _

omit [Double.Rounding] in
theorem heldAs_ofTimestamp (nanos : Int) :
    checkedTimestamp nanos = heldAs (TemporalValue.ofTimestamp nanos) := by
  rw [checkedTimestamp, TemporalValue.ofTimestamp]
  by_cases h : minTimestampNanos ≤ nanos ∧ nanos ≤ maxTimestampNanos
  · rw [if_neg (by omega), dif_pos h]
    rfl
  · rw [if_pos (by omega), dif_neg h]
    rfl

omit [Double.Rounding] in
theorem heldAs_ofDuration (nanos : Int) :
    checkedDuration nanos = heldAs (TemporalValue.ofDuration nanos) := by
  rw [checkedDuration, TemporalValue.ofDuration]
  split <;> rfl

omit [Double.Rounding] in
theorem temporalResultKind_kind {sub : Bool} {l r v : TemporalValue}
    (h : TemporalValue.combine sub l r = some v) :
    temporalResultKind (TemporalTree.operator sub) (some (TemporalValue.kind l))
      (some (TemporalValue.kind r)) = some (TemporalValue.kind v) := by
  cases l with
  | timestamp a =>
      cases r with
      | timestamp b =>
          cases sub with
          | false => cases h
          | true =>
              obtain ⟨_, -, rfl⟩ := TemporalValue.ofDuration_eq_some h
              rfl
      | duration b =>
          obtain ⟨_, -, rfl⟩ := TemporalValue.ofTimestamp_eq_some h
          cases sub <;> rfl
  | duration a =>
      cases r with
      | timestamp b =>
          cases sub with
          | true => cases h
          | false =>
              obtain ⟨_, -, rfl⟩ := TemporalValue.ofTimestamp_eq_some h
              rfl
      | duration b =>
          obtain ⟨_, -, rfl⟩ := TemporalValue.ofDuration_eq_some h
          cases sub <;> rfl

/-- An expression that has a value is of the value's kind. -/
theorem temporalKindOf_node {unitOf : String → UnitEntry} {read : TemporalText → Outcome}
    {t : TemporalTree} {v : TemporalValue} (h : t.exact unitOf read = some v) :
    temporalKindOf t.node = some (TemporalValue.kind v) := by
  induction t generalizing v with
  | timestamp text =>
      obtain ⟨s, nanos, -, -, hv⟩ := TemporalTree.exact_timestamp_eq_some_iff.mp h
      obtain ⟨_, -, rfl⟩ := TemporalValue.ofTimestamp_eq_some hv
      rfl
  | duration text =>
      obtain ⟨s, nanos, -, -, hv⟩ := TemporalTree.exact_duration_eq_some_iff.mp h
      obtain ⟨_, -, rfl⟩ := TemporalValue.ofDuration_eq_some hv
      rfl
  | sum sub left right ihl ihr =>
      obtain ⟨l, r, hl, hr, h⟩ := TemporalTree.exact_sum_eq_some_iff.mp h
      have hkind : temporalKindOf (TemporalTree.sum sub left right).node =
          temporalResultKind (TemporalTree.operator sub) (some (TemporalValue.kind l))
            (some (TemporalValue.kind r)) := by
        rw [← ihl hl, ← ihr hr]
        cases sub <;> rfl
      rw [hkind, temporalResultKind_kind h]

theorem evaluate_duration {operand : Operand} {o : Outcome}
    (hoperand : evaluate operand scope = .ok o) :
    evaluate (.expression .duration [operand]) scope = convertToDuration o := by
  have hcall : evaluateOperator (callOf .duration [operand] scope) =
      (callOf .duration [operand] scope).arg 0 "operand" >>= convertToDuration := rfl
  have harg : (callOf .duration [operand] scope).arg 0 "operand" = .ok o := hoperand
  rw [evaluate_expression, hcall, harg]
  rfl

/-! ## Sums and differences -/

section Sum

variable {sub : Bool} {left right : Operand} {l r : Outcome}

omit [Double.Rounding] in
theorem arithmeticOperator_operator (sub : Bool) :
    ∃ op, arithmeticOperator (TemporalTree.operator sub) = some op := by
  cases sub
  · exact ⟨.add, rfl⟩
  · exact ⟨.sub, rfl⟩

theorem evaluate_isTemporalNode
    (htemporal : isTemporalNode (TemporalTree.operator sub) [left, right] = true) :
    evaluate (.expression (TemporalTree.operator sub) [left, right]) scope =
      temporalArithmetic (callOf (TemporalTree.operator sub) [left, right] scope) := by
  rw [evaluate_expression]
  cases sub
  · exact if_pos htemporal
  · exact if_pos htemporal

theorem evaluate_temporal
    (htemporal : isTemporalNode (TemporalTree.operator sub) [left, right] = true)
    (hleft : evaluate left scope = .ok l) (hright : evaluate right scope = .ok r) :
    evaluate (.expression (TemporalTree.operator sub) [left, right]) scope =
      match temporalResultKind (TemporalTree.operator sub) (temporalKindOf left)
          (temporalKindOf right), nanosOf l, nanosOf r with
      | some kind, some a, some b =>
          .ok (if kind = .timestamp then checkedTimestamp (TemporalValue.signedSum sub a b)
            else checkedDuration (TemporalValue.signedSum sub a b))
      | _, _, _ => .ok .error := by
  have hl : (callOf (TemporalTree.operator sub) [left, right] scope).arg 0 "left" = .ok l := hleft
  have hr : (callOf (TemporalTree.operator sub) [left, right] scope).arg 1 "right" = .ok r :=
    hright
  rw [evaluate_isTemporalNode htemporal, temporalArithmetic, hl, hr]
  cases sub <;> rfl

theorem combineOutcomes_error {op : ArithmeticOperator} {call : Call} {mode : ArithmeticMode}
    (herror : l = .error ∨ r = .error) : combineOutcomes op call mode l r = .ok .error := by
  cases mode with
  | int =>
      have hnone : toBigInt l = none ∨ toBigInt r = none := by
        obtain rfl | rfl := herror
        · exact .inl rfl
        · exact .inr rfl
      rw [combineOutcomes, intArithmetic]
      split
      next hl hr =>
        obtain h | h := hnone
        · cases h.symm.trans hl
        · cases h.symm.trans hr
      next => rfl
  | loose =>
      obtain rfl | rfl := herror
      · rfl
      · cases l <;> rfl
  | noOverload => rfl

theorem evaluate_sum_eq_ok {o : Outcome}
    (h : evaluate (.expression (TemporalTree.operator sub) [left, right]) scope = .ok o) :
    ∃ l r, evaluate left scope = .ok l ∧ evaluate right scope = .ok r := by
  cases htemporal : isTemporalNode (TemporalTree.operator sub) [left, right] with
  | true =>
      rw [evaluate_isTemporalNode htemporal] at h
      obtain ⟨l, hl, h⟩ := Except.bind_eq_ok_iff.mp h
      obtain ⟨r, hr, -⟩ := Except.bind_eq_ok_iff.mp h
      exact ⟨l, r, hl, hr⟩
  | false =>
      obtain ⟨op, hop⟩ := arithmeticOperator_operator sub
      exact evaluate_arithmetic_eq_ok hop htemporal h

/-- An operand that is an error makes the sum one, of whatever kinds the two are. -/
theorem evaluate_sum_error (hleft : evaluate left scope = .ok l)
    (hright : evaluate right scope = .ok r) (herror : l = .error ∨ r = .error) :
    evaluate (.expression (TemporalTree.operator sub) [left, right]) scope = .ok .error := by
  cases htemporal : isTemporalNode (TemporalTree.operator sub) [left, right] with
  | true =>
      rw [evaluate_temporal htemporal hleft hright]
      have hnanos : nanosOf l = none ∨ nanosOf r = none := by
        obtain rfl | rfl := herror
        · exact .inl rfl
        · exact .inr rfl
      split
      next hl hr =>
        obtain h | h := hnanos
        · cases h.symm.trans hl
        · cases h.symm.trans hr
      next => rfl
  | false =>
      obtain ⟨op, hop⟩ := arithmeticOperator_operator sub
      rw [evaluate_arithmetic hop htemporal hleft hright]
      exact combineOutcomes_error herror

/-- Two temporal values combine as CEL's do, or are an error where CEL has no overload or
the result is out of range. -/
theorem evaluate_sum_values {l r : TemporalValue}
    (hkindLeft : temporalKindOf left = some (TemporalValue.kind l))
    (hkindRight : temporalKindOf right = some (TemporalValue.kind r))
    (hleft : evaluate left scope = .ok (heldAs (some l)))
    (hright : evaluate right scope = .ok (heldAs (some r))) :
    evaluate (.expression (TemporalTree.operator sub) [left, right]) scope =
      .ok (heldAs (TemporalValue.combine sub l r)) := by
  have htemporal : isTemporalNode (TemporalTree.operator sub) [left, right] = true := by
    have hsum : ∀ sub, (TemporalTree.operator sub = .add || TemporalTree.operator sub = .sub) =
        true := by decide
    rw [isTemporalNode, hsum, List.any_cons, hkindLeft]
    rfl
  have hnanos : ∀ v : TemporalValue, nanosOf (heldAs (some v)) = some (TemporalValue.nanos v) := by
    rintro (_ | _) <;> rfl
  rw [evaluate_temporal htemporal hleft hright, hkindLeft, hkindRight, hnanos, hnanos]
  cases l with
  | timestamp a =>
      cases r with
      | timestamp b =>
          cases sub with
          | false => rfl
          | true => exact congrArg Except.ok (heldAs_ofDuration _)
      | duration b => cases sub <;> exact congrArg Except.ok (heldAs_ofTimestamp _)
  | duration a =>
      cases r with
      | timestamp b =>
          cases sub with
          | true => rfl
          | false => exact congrArg Except.ok (heldAs_ofTimestamp _)
      | duration b => cases sub <;> exact congrArg Except.ok (heldAs_ofDuration _)

end Sum

/-- An expression evaluates to CEL's value, and to an error where CEL has none. -/
theorem evaluate_temporalTree {t : TemporalTree} {o : Outcome} (h : evaluate t.node scope = .ok o) :
    o = heldAs (t.exact durationUnit (readText scope)) := by
  induction t generalizing o with
  | timestamp text =>
      rw [TemporalTree.node, evaluate_conversion rfl (evaluate_text text)] at h
      obtain rfl := Except.ok.inj h
      rw [TemporalTree.exact]
      cases readText scope text with
      | error => rfl
      | value v =>
          cases v with
          | string s =>
              cases hparsed : parseRfc3339Timestamp s with
              | none => simp only [convertToTimestamp, hparsed, Option.bind_none, heldAs]
              | some nanos =>
                  obtain ⟨inRange, hv⟩ := ofTimestamp_of_parsed hparsed
                  simp only [convertToTimestamp, hparsed, Option.bind_some, hv, heldAs]
          | _ => rfl
  | duration text =>
      rw [TemporalTree.node, evaluate_duration (evaluate_text text)] at h
      rw [TemporalTree.exact]
      cases hread : readText scope text with
      | error =>
          rw [hread] at h
          exact (Except.ok.inj h).symm
      | value v =>
          rw [hread] at h
          cases v with
          | string s =>
              rw [convertToDuration] at h
              cases hparsed : parseDuration durationUnit s with
              | duration nanos =>
                  rw [hparsed] at h
                  obtain ⟨fits, hv⟩ := ofDuration_of_parsed hparsed
                  simp only [hparsed, hv, heldAs]
                  exact (Except.ok.inj h).symm
              | error =>
                  rw [hparsed] at h
                  simp only [hparsed, heldAs]
                  exact (Except.ok.inj h).symm
              | typeError =>
                  rw [hparsed] at h
                  cases h
          | _ => exact (Except.ok.inj h).symm
  | sum sub left right ihl ihr =>
      obtain ⟨ol, or, hleft, hright⟩ := evaluate_sum_eq_ok h
      obtain rfl := ihl hleft
      obtain rfl := ihr hright
      cases hl : left.exact durationUnit (readText scope) with
      | none =>
          rw [hl] at hleft
          rw [TemporalTree.node, evaluate_sum_error hleft hright (.inl rfl)] at h
          rw [TemporalTree.exact, hl]
          exact (Except.ok.inj h).symm
      | some l =>
          rw [hl] at hleft
          cases hr : right.exact durationUnit (readText scope) with
          | none =>
              rw [hr] at hright
              rw [TemporalTree.node, evaluate_sum_error hleft hright (.inr rfl)] at h
              rw [TemporalTree.exact, hl, hr]
              exact (Except.ok.inj h).symm
          | some r =>
              rw [hr] at hright
              have hexact : (TemporalTree.sum sub left right).exact durationUnit (readText scope) =
                  TemporalValue.combine sub l r := by
                rw [TemporalTree.exact, hl, hr]
                rfl
              rw [TemporalTree.node, evaluate_sum_values (temporalKindOf_node hl)
                (temporalKindOf_node hr) hleft hright] at h
              rw [hexact]
              exact (Except.ok.inj h).symm

end Range

/-- Where evaluating does not throw, it gives CEL's value: a timestamp and a duration in
range, or an error. -/
def KeepsRange [Double.Rounding] (scope : Scope) (t : TemporalTree) : Prop :=
  ∀ o, evaluate t.node scope = .ok o → o = heldAs (t.exact durationUnit (readText scope))

end QueryPlanAdapters.Convex
