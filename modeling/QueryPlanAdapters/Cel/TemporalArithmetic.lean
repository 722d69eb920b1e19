import QueryPlanAdapters.Cel.Durations

/-!
# Timestamp and duration arithmetic

CEL's timestamps lie in the years 1 to 9999 and its durations in int64 nanoseconds; the
sum or difference of two of them is an error where its exact result does not. The values
here carry their range, for the evaluators to be compared with.
-/

namespace QueryPlanAdapters

/-! ## CEL's temporal values -/

structure CelTimestamp where
  nanos : Int
  inRange : minTimestampNanos ≤ nanos ∧ nanos ≤ maxTimestampNanos

structure CelDuration where
  nanos : Int
  fits : int64Min ≤ nanos ∧ nanos ≤ int64Max

inductive TemporalValue where
  | timestamp (t : CelTimestamp)
  | duration (d : CelDuration)

namespace TemporalValue

def ofTimestamp (nanos : Int) : Option TemporalValue :=
  if h : minTimestampNanos ≤ nanos ∧ nanos ≤ maxTimestampNanos then some (.timestamp ⟨nanos, h⟩)
  else none

def ofDuration (nanos : Int) : Option TemporalValue :=
  if h : int64Min ≤ nanos ∧ nanos ≤ int64Max then some (.duration ⟨nanos, h⟩) else none

theorem ofTimestamp_eq_some {nanos : Int} {v : TemporalValue} (h : ofTimestamp nanos = some v) :
    ∃ t : CelTimestamp, t.nanos = nanos ∧ v = .timestamp t := by
  rw [ofTimestamp] at h
  split at h
  next inRange => exact ⟨⟨nanos, inRange⟩, rfl, (Option.some.inj h).symm⟩
  next => cases h

theorem ofDuration_eq_some {nanos : Int} {v : TemporalValue} (h : ofDuration nanos = some v) :
    ∃ d : CelDuration, d.nanos = nanos ∧ v = .duration d := by
  rw [ofDuration] at h
  split at h
  next fits => exact ⟨⟨nanos, fits⟩, rfl, (Option.some.inj h).symm⟩
  next => cases h

def nanos : TemporalValue → Int
  | timestamp t => t.nanos
  | duration d => d.nanos

def signedSum (sub : Bool) (a b : Int) : Int :=
  if sub then a - b else a + b

/-- The exact sum or difference, unless CEL has no overload for the pair or the result is
out of range. -/
def combine (sub : Bool) : (left right : TemporalValue) → Option TemporalValue
  | timestamp t, duration d => ofTimestamp (signedSum sub t.nanos d.nanos)
  | duration d, timestamp t => if sub then none else ofTimestamp (d.nanos + t.nanos)
  | duration a, duration b => ofDuration (signedSum sub a.nanos b.nanos)
  | timestamp a, timestamp b => if sub then ofDuration (a.nanos - b.nanos) else none

/-- A timestamp moved by a duration stays in CEL's range. -/
def ShiftInRange (sub : Bool) : (left right : TemporalValue) → Prop
  | timestamp t, duration d => inTimestampRange (signedSum sub t.nanos d.nanos) = true
  | duration d, timestamp t => sub = false → inTimestampRange (d.nanos + t.nanos) = true
  | _, _ => True

end TemporalValue

/-- Integers are compared by their order alone. -/
theorem test_finite_iff (operator : ComparisonOperator) {a b a' b' : Int} (heq : a = b ↔ a' = b')
    (hlt : a < b ↔ a' < b') :
    operator.test (.finite a) (.finite b) = operator.test (.finite a') (.finite b') := by
  have hle : a ≤ b ↔ a' ≤ b' := by omega
  have hgt : b < a ↔ b' < a' := by omega
  have hge : b ≤ a ↔ b' ≤ a' := by omega
  cases operator <;> simp [ComparisonOperator.test, heq, hlt, hle, hgt, hge]

/-- The time since a timestamp, saturated or not, against a duration of whole milliseconds. -/
theorem test_saturatedSince (operator : ComparisonOperator) {now n m : Int}
    (hfits : int64Min ≤ m * 1000000 ∧ m * 1000000 ≤ int64Max) :
    operator.test (.finite (saturatedSince now n)) (.finite (m * 1000000 : Int)) =
      operator.mirrored.test (.finite n) (.finite (now - m * 1000000 : Int)) := by
  rw [test_mirrored]
  rw [int64Min, int64Max] at hfits
  apply test_finite_iff
  · rw [saturatedSince, int64Min, int64Max]
    split
    · omega
    · split <;> omega
  · rw [saturatedSince, int64Min, int64Max]
    split
    · omega
    · split <;> omega

/-! ## Expressions -/

/-- The argument of `timestamp()` and `duration()`: a text, or a reference to any value. -/
inductive TemporalText where
  | literal (s : String)
  | reference (name : String)

inductive TemporalTree where
  | timestamp (text : TemporalText)
  | duration (text : TemporalText)
  | sum (sub : Bool) (left right : TemporalTree)

def TemporalText.node : TemporalText → Operand FiniteDouble
  | literal s => .value (.string s)
  | reference name => .var name

namespace TemporalTree

def operator (sub : Bool) : PlanOperator :=
  if sub then .sub else .add

def node : TemporalTree → Operand FiniteDouble
  | timestamp text => .expression .timestamp [text.node]
  | duration text => .expression .duration [text.node]
  | sum sub left right => .expression (operator sub) [left.node, right.node]

/-- The expression and every operand inside it. -/
def subtrees : TemporalTree → List TemporalTree
  | timestamp text => [timestamp text]
  | duration text => [duration text]
  | sum sub left right => sum sub left right :: (left.subtrees ++ right.subtrees)

theorem self_mem_subtrees (t : TemporalTree) : t ∈ t.subtrees := by
  cases t <;> exact List.mem_cons_self

theorem left_subtrees {s left right : TemporalTree} {sub : Bool} (h : s ∈ left.subtrees) :
    s ∈ (sum sub left right).subtrees :=
  List.mem_cons_of_mem _ (List.mem_append_left _ h)

theorem right_subtrees {s left right : TemporalTree} {sub : Bool} (h : s ∈ right.subtrees) :
    s ∈ (sum sub left right).subtrees :=
  List.mem_cons_of_mem _ (List.mem_append_right _ h)

theorem subtrees_trans {r s t : TemporalTree} (hrs : r ∈ s.subtrees) (hst : s ∈ t.subtrees) :
    r ∈ t.subtrees := by
  induction t with
  | timestamp text =>
      obtain rfl := List.mem_singleton.mp hst
      exact hrs
  | duration text =>
      obtain rfl := List.mem_singleton.mp hst
      exact hrs
  | sum sub left right ihl ihr =>
      obtain rfl | hinner := List.mem_cons.mp hst
      · exact hrs
      · obtain hleft | hright := List.mem_append.mp hinner
        · exact left_subtrees (ihl hleft)
        · exact right_subtrees (ihr hright)

section Exact

variable [Double.Rounding] (unitOf : String → UnitEntry) (read : TemporalText → Outcome)

/-- CEL's value of an expression over arguments that read as given, none for an error. -/
def exact : TemporalTree → Option TemporalValue
  | timestamp text =>
      match read text with
      | .value (.string s) => (parseRfc3339Timestamp s).bind TemporalValue.ofTimestamp
      | _ => none
  | duration text =>
      match read text with
      | .value (.string s) =>
          match parseDuration unitOf s with
          | .duration nanos => TemporalValue.ofDuration nanos
          | _ => none
      | _ => none
  | sum sub left right => do
      let l ← left.exact
      let r ← right.exact
      TemporalValue.combine sub l r

/-- The operation does not move a timestamp out of CEL's range. -/
def ShiftInRange : TemporalTree → Prop
  | sum sub left right =>
      ∀ l r, left.exact unitOf read = some l → right.exact unitOf read = some r →
        TemporalValue.ShiftInRange sub l r
  | _ => True

end Exact

end TemporalTree

namespace TemporalTree

section Exact

variable [Double.Rounding] {unitOf : String → UnitEntry} {read : TemporalText → Outcome}
  {text : TemporalText} {v : TemporalValue}

theorem exact_timestamp_eq_some_iff : (timestamp text).exact unitOf read = some v ↔
    ∃ s nanos, read text = .value (.string s) ∧ parseRfc3339Timestamp s = some nanos ∧
      TemporalValue.ofTimestamp nanos = some v := by
  rw [exact]
  constructor
  · intro h
    split at h
    next s hread =>
      obtain ⟨nanos, hparsed, hv⟩ := Option.bind_eq_some_iff.mp h
      exact ⟨s, nanos, hread, hparsed, hv⟩
    next => cases h
  · rintro ⟨s, nanos, hread, hparsed, hv⟩
    rw [hread]
    exact Option.bind_eq_some_iff.mpr ⟨nanos, hparsed, hv⟩

theorem exact_duration_eq_some_iff : (duration text).exact unitOf read = some v ↔
    ∃ s nanos, read text = .value (.string s) ∧ parseDuration unitOf s = .duration nanos ∧
      TemporalValue.ofDuration nanos = some v := by
  rw [exact]
  constructor
  · intro h
    split at h
    next s hread =>
      split at h
      next nanos hparsed => exact ⟨s, nanos, hread, hparsed, h⟩
      next => cases h
    next => cases h
  · rintro ⟨s, nanos, hread, hparsed, hv⟩
    rw [hread]
    simp only [hparsed, hv]

theorem exact_sum_eq_some_iff {sub : Bool} {left right : TemporalTree} :
    (sum sub left right).exact unitOf read = some v ↔
      ∃ l r, left.exact unitOf read = some l ∧ right.exact unitOf read = some r ∧
        TemporalValue.combine sub l r = some v := by
  rw [exact]
  simp only [Option.bind_eq_bind, Option.bind_eq_some_iff]
  constructor
  · rintro ⟨l, hl, r, hr, h⟩
    exact ⟨l, r, hl, hr, h⟩
  · rintro ⟨l, r, hl, hr, h⟩
    exact ⟨l, hl, r, hr, h⟩

end Exact

end TemporalTree

theorem ofTimestamp_of_parsed {text : String} {nanos : Int}
    (h : parseRfc3339Timestamp text = some nanos) :
    ∃ inRange, TemporalValue.ofTimestamp nanos = some (.timestamp ⟨nanos, inRange⟩) := by
  obtain ⟨-, hrange⟩ := Option.filter_eq_some_iff.mp h
  rw [inTimestampRange, Bool.and_eq_true, decide_eq_true_eq, decide_eq_true_eq] at hrange
  exact ⟨hrange, dif_pos hrange⟩

theorem ofDuration_of_parsed [Double.Rounding] {unitOf : String → UnitEntry} {text : String}
    {nanos : Int} (h : parseDuration unitOf text = .duration nanos) :
    ∃ fits, TemporalValue.ofDuration nanos = some (.duration ⟨nanos, fits⟩) :=
  ⟨parseDuration_fits h, dif_pos (parseDuration_fits h)⟩

end QueryPlanAdapters
