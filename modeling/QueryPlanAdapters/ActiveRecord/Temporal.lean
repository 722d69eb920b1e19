import QueryPlanAdapters.SqlAlchemy.Expression
import QueryPlanAdapters.SqlAlchemy.TemporalLiterals
import QueryPlanAdapters.Cel.TemporalArithmetic
import Mathlib.Tactic.Linarith

/-!
# ActiveRecord: temporal expressions

SQL has no portable interval arithmetic, so a duration is kept in Ruby, as an exact rational,
and moves to the constant side of the comparison. Nothing on the way is checked against CEL's
ranges. An instant or a duration is given in nanoseconds here.
-/

namespace QueryPlanAdapters.ActiveRecord

open Sql

/-- An Arel node. -/
abbrev Arel := SqlAlchemy.Expression

/-- What an error is raised for. -/
inductive Refusal where
  | invalidTimestamp (literal : String)
  | invalidDuration (literal : String)
  | timeSinceOperand
  | durationArithmetic
  | temporalColumnArithmetic
  | temporalComparison
  | subMicrosecond
  deriving DecidableEq, Repr

/-! ## Literals -/

/-- A text that is a timestamp of CEL. -/
structure TimestampLiteral where
  text : String
  nanos : Int
  valid : parseRfc3339Timestamp text = some nanos

/-- `Timestamps.parse`: `Time.iso8601` counts a day past its month's end into the next one. -/
def parseTimestamp (literal : String) : Except Refusal ℚ :=
  match SqlAlchemy.matchRfc3339 literal with
  | some m =>
      if m.month < 1 || 12 < m.month || m.day < 1 || 31 < m.day then
        .error (.invalidTimestamp literal)
      else .ok (((dayOfDate m.year m.month m.day * 86400 + m.hour * 3600 + m.minute * 60 +
        m.second - m.offset * 60) * 1000000000 +
          (decimalValue m.fraction * 10 ^ (9 - m.fraction.length) : ℕ) : Int) : ℚ)
  | none => .error (.invalidTimestamp literal)

/-- `DURATION_UNITS` -/
def durationUnits : List (String × ℚ) :=
  [("h", 3600000000000), ("m", 60000000000), ("s", 1000000000), ("ms", 1000000), ("us", 1000),
    ("µs", 1000), ("ns", 1)]

/-- One match of `DURATION_TERM`. -/
def termAmount (term : DurationTerm) : Option ℚ :=
  if term.whole.isEmpty && term.fraction.isEmpty then none
  else (durationUnits.lookup term.unit).map fun unit =>
    (decimalValue term.whole + decimalValue term.fraction / 10 ^ term.fraction.length) * unit

/-- `duration()` of a literal: the exact sum of its terms. -/
def parseDuration (literal : String) : Except Refusal ℚ :=
  let (negative, cs) := takeSign literal.toList
  match cs, (termsFrom cs.length cs).mapM termAmount with
  | _ :: _, some amounts => .ok (if negative then -amounts.sum else amounts.sum)
  | _, _ => .error (.invalidDuration literal)

/-! ## Values -/

inductive TemporalValue where
  /-- A sum or difference of two instants, which is left to the database. -/
  | node (element : Arel)
  /-- `timestamp()` of a column. -/
  | column (name : String)
  | time (nanos : ℚ)
  | duration (nanos : ℚ)
  | timeSince (name : String)
  | shifted (name : String) (nanos : ℚ)

/-- `temporal_value?` -/
def TemporalValue.isTemporal : TemporalValue → Bool
  | duration _ | timeSince _ | shifted .. => true
  | node _ | column _ | time _ => false

def TemporalValue.isTime : TemporalValue → Bool
  | time _ => true
  | _ => false

/-- A bound `Time`, of whole microseconds. One outside CEL's years reaches the store as a text
that each store reads in a way of its own. -/
def quoteTime (nanos : ℚ) : Except Refusal Arel :=
  if (nanos / 1000).den = 1 then
    .ok (.literal (if minTimestampNanos ≤ nanos ∧ nanos ≤ maxTimestampNanos then .time nanos.num
      else .text (toString nanos.num)))
  else .error .subMicrosecond

/-- `ArelSupport.quote` of what can stand in SQL. -/
def quote : TemporalValue → Except Refusal Arel
  | .node element => .ok element
  | .column name => .ok (.column name)
  | .time nanos => quoteTime nanos
  | _ => .error .temporalComparison

def signed (sub : Bool) (a b : ℚ) : ℚ :=
  if sub then a - b else a + b

/-- `duration_arithmetic` once a leading duration of a sum stands last. -/
def shift (sub : Bool) : (left right : TemporalValue) → Except Refusal TemporalValue
  | .duration a, .duration b => .ok (.duration (signed sub a b))
  | .time t, .duration d => .ok (.time (signed sub t d))
  | .shifted name total, .duration d => .ok (.shifted name (signed sub total d))
  | .column name, .duration d => .ok (.shifted name (signed sub 0 d))
  | _, _ => .error .durationArithmetic

def durationArithmetic (sub : Bool) : (left right : TemporalValue) → Except Refusal TemporalValue
  | .duration a, .duration b => shift sub (.duration a) (.duration b)
  | .duration d, right => if sub then .error .durationArithmetic else shift sub right (.duration d)
  | left, right => shift sub left right

/-- `arithmetic`, of temporal operands. -/
def arithmetic (sub : Bool) (left right : TemporalValue) : Except Refusal TemporalValue :=
  if left.isTemporal || right.isTemporal then durationArithmetic sub left right
  else match left, right with
    | .column _, _ | _, .column _ => .error .temporalColumnArithmetic
    | left, right => do
        let a ← quote left
        let b ← quote right
        return .node (.arith (if sub then .sub else .add) a b)

/-- `time_since`, on the translation's clock. -/
def timeSince (now : ℚ) : TemporalValue → Except Refusal TemporalValue
  | .time t => .ok (.duration (now - t))
  | .column name => .ok (.timeSince name)
  | _ => .error .timeSinceOperand

/-! ## Comparisons -/

def isEquality (operator : ComparisonOperator) : Bool :=
  operator = .eq || operator = .ne

/-- `heterogeneous_comparison` of a node with an instant: a node of a number's type is none. -/
def heterogeneousComparison (operator : ComparisonOperator) (element : Arel) : Arel :=
  if isEquality operator then
    .caseWhen (.isNull element) .null (.ofBool (operator = .ne))
  else .null

/-- `compare`, of values that no duration takes part in. -/
def compareLeaf (operator : ComparisonOperator) : (left right : TemporalValue) → Except Refusal Arel
  | .time t, .time u => .ok (.ofBool (operator.test (.finite t) (.finite u)))
  | .time _, .node element | .node element, .time _ =>
      .ok (heterogeneousComparison operator element)
  | left, right => do return .compare operator (← quote left) (← quote right)

/-- `compare_temporal` -/
def compareTemporal (now : ℚ) (operator : ComparisonOperator) :
    (left right : TemporalValue) → Except Refusal Arel
  | .duration d, .duration e => .ok (.ofBool (operator.test (.finite d) (.finite e)))
  | .timeSince name, .duration d => compareLeaf operator.mirrored (.column name) (.time (now - d))
  | .duration d, .timeSince name => compareLeaf operator (.column name) (.time (now - d))
  | .shifted name total, .time t => compareLeaf operator (.column name) (.time (t - total))
  | .time t, .shifted name total => compareLeaf operator (.time (t - total)) (.column name)
  | _, _ => .error .temporalComparison

def compare (now : ℚ) (operator : ComparisonOperator) (left right : TemporalValue) :
    Except Refusal Arel :=
  if left.isTemporal || right.isTemporal then compareTemporal now operator left right
  else compareLeaf operator left right

section Conventions

-- The columns whose mapping declares `null_representation: :explicit`.
variable (explicit : String → Bool)

/-- `explicit_null?` -/
def isExplicitNull : TemporalValue → Bool
  | .column name => explicit name
  | _ => false

/-- `definite_equality` -/
def definiteEquality (operator : ComparisonOperator) (left right : TemporalValue) :
    Except Refusal Arel := do
  let a ← quote left
  let b ← quote right
  let leftExplicit := isExplicitNull explicit left
  let rightExplicit := isExplicitNull explicit right
  let equal := SqlAlchemy.Expression.compare .eq a b
  let equal := if rightExplicit then .and (.isNotNull b) equal else equal
  let equal := if leftExplicit then .and (.isNotNull a) equal else equal
  let equal :=
    if leftExplicit && rightExplicit then .or (.and (.isNull a) (.isNull b)) equal else equal
  let result := if operator = .ne then .not equal else equal
  -- A constant is no node, and never missing.
  let missing :=
    (if leftExplicit || left.isTime then [] else [SqlAlchemy.Expression.isNull a]) ++
      if rightExplicit || right.isTime then [] else [.isNull b]
  return if missing.isEmpty then result
    else .caseWhen (SqlAlchemy.Expression.disjunction missing) .null result

/-- `with_null_conventions`: an equality of a column that answers NULL definitely is built again
from its operands. -/
def withNullConventions (operator : ComparisonOperator) (left right : TemporalValue) (plain : Arel) :
    Except Refusal Arel :=
  if isEquality operator && (isExplicitNull explicit left || isExplicitNull explicit right) then
    definiteEquality explicit operator left right
  else .ok plain

end Conventions

/-! ## Expressions -/

/-- A timestamp, or a duration, of columns, literals, the clock, sums and differences. -/
inductive TemporalExpression : (instant : Bool) → Type where
  /-- `timestamp(column)` -/
  | column (name : String) : TemporalExpression true
  | timestamp (literal : TimestampLiteral) : TemporalExpression true
  | duration (literal : String) : TemporalExpression false
  | timeSince (t : TemporalExpression true) : TemporalExpression false
  | shift (sub : Bool) (t : TemporalExpression true) (d : TemporalExpression false) :
      TemporalExpression true
  /-- The duration is the left operand. -/
  | shiftAfter (d : TemporalExpression false) (t : TemporalExpression true) :
      TemporalExpression true
  | combine (sub : Bool) (d e : TemporalExpression false) : TemporalExpression false
  | between (t u : TemporalExpression true) : TemporalExpression false

namespace TemporalExpression

/-- The translation's clock, of whole microseconds. -/
def now (clock : Int) : Int := clock - clock % 1000

section Value

variable (clock : Int)

/-- `evaluate` -/
def value {kind : Bool} : TemporalExpression kind → Except Refusal TemporalValue
  | column name => .ok (.column name)
  | timestamp literal => (parseTimestamp literal.text).map .time
  | duration literal => (parseDuration literal).map .duration
  | timeSince t => do ActiveRecord.timeSince (now clock) (← t.value)
  | shift sub t d => do arithmetic sub (← t.value) (← d.value)
  | shiftAfter d t => do arithmetic false (← d.value) (← t.value)
  | combine sub d e => do arithmetic sub (← d.value) (← e.value)
  | between t u => do arithmetic true (← t.value) (← u.value)

/-- `apply` of a comparison. -/
def comparison (explicit : String → Bool) {kind : Bool} (operator : ComparisonOperator)
    (left right : TemporalExpression kind) : Except Refusal Arel := do
  let leftValue ← left.value clock
  let rightValue ← right.value clock
  let plain ← compare (now clock) operator leftValue rightValue
  withNullConventions explicit operator leftValue rightValue plain

end Value

/-! ## CEL -/

section Meaning

variable (clock : Int) (stored : String → Option Int)

/-- A sum of CEL, none for the error of one out of range. -/
def inRange? (bounds : Int → Bool) (nanos : Int) : Option Int :=
  if bounds nanos then some nanos else none

def fitsInt64 (nanos : Int) : Bool :=
  int64Min ≤ nanos && nanos ≤ int64Max

/-- CEL's value in nanoseconds, none for an error. -/
def nanos? {kind : Bool} : TemporalExpression kind → Option Int
  | column name => stored name
  | timestamp literal => some literal.nanos
  | duration literal => GoTime.parseDuration literal
  | timeSince t => do return saturatedSince clock (← t.nanos?)
  | shift sub t d => do
      inRange? inTimestampRange (TemporalValue.signedSum sub (← t.nanos?) (← d.nanos?))
  | shiftAfter d t => do
      inRange? inTimestampRange ((← d.nanos?) + (← t.nanos?))
  | combine sub d e => do
      inRange? fitsInt64 (TemporalValue.signedSum sub (← d.nanos?) (← e.nanos?))
  | between t u => do
      inRange? fitsInt64 ((← t.nanos?) - (← u.nanos?))

/-- CEL's comparison. -/
def comparisonTruth {kind : Bool} (operator : ComparisonOperator)
    (left right : TemporalExpression kind) : Truth :=
  match left.nanos? clock stored, right.nanos? clock stored with
  | some n, some m => .ofBool (operator.test (.finite n) (.finite m))
  | _, _ => .unknown

/-- The exact value of what is written, on the translation's clock. -/
def exact {kind : Bool} : TemporalExpression kind → Option ℚ
  | column name => (stored name).map Int.cast
  | timestamp literal => some literal.nanos
  | duration literal => (parseDuration literal).toOption
  | timeSince t => do return now clock - (← t.exact)
  | shift sub t d => do return signed sub (← t.exact) (← d.exact)
  | shiftAfter d t => do return (← t.exact) + (← d.exact)
  | combine sub d e => do return signed sub (← d.exact) (← e.exact)
  | between t u => do return (← t.exact) - (← u.exact)

end Meaning

def columns {kind : Bool} : TemporalExpression kind → List String
  | column name => [name]
  | timestamp _ | duration _ => []
  | timeSince t => t.columns
  | shift _ t d => t.columns ++ d.columns
  | shiftAfter d t => d.columns ++ t.columns
  | combine _ d e => d.columns ++ e.columns
  | between t u => t.columns ++ u.columns

/-- A difference of two timestamps takes part. -/
def subtracts {kind : Bool} : TemporalExpression kind → Bool
  | column _ | timestamp _ | duration _ => false
  | timeSince t => t.subtracts
  | shift _ t d => t.subtracts || d.subtracts
  | shiftAfter d t => d.subtracts || t.subtracts
  | combine _ d e => d.subtracts || e.subtracts
  | between _ _ => true

/-- The column of a bare `timestamp(column)`. -/
def bareColumn? {kind : Bool} : TemporalExpression kind → Option String
  | column name => some name
  | _ => none

/-! ## When a comparison is CEL's -/

def InYears (nanos : ℚ) : Prop := minTimestampNanos ≤ nanos ∧ nanos ≤ maxTimestampNanos

instance (nanos : ℚ) : Decidable (InYears nanos) := inferInstanceAs (Decidable (_ ∧ _))

section Agreement

variable (explicit : String → Bool) (clock : Int) (stored : String → Option Int) {kind : Bool}
  (operator : ComparisonOperator) (left right : TemporalExpression kind)

/-- The instant that the one column of a comparison is compared with, once every duration and the
clock stand on the other side. -/
def bound? : Option ℚ :=
  if left.columns.isEmpty = right.columns.isEmpty then none
  else do
    let x ← left.exact clock fun _ => some 0
    let y ← right.exact clock fun _ => some 0
    return if kind = left.columns.isEmpty then x - y else y - x

/-- A bare column that answers NULL definitely is NULL, and every other bare column is there. -/
def AnswersNull : Prop :=
  (∃ name, (left.bareColumn? = some name ∨ right.bareColumn? = some name) ∧
    explicit name = true ∧ stored name = none) ∧
    ∀ name, left.bareColumn? = some name ∨ right.bareColumn? = some name →
      stored name = none → explicit name = true

/-- A column that is read is NULL. -/
def ReadsNull : Prop := ∃ name ∈ left.columns ++ right.columns, stored name = none

/-- When a translated comparison is CEL's in a row. -/
structure Agrees : Prop where
  missing : ReadsNull stored left right → isEquality operator = true →
    ¬ AnswersNull explicit stored left right
  difference : ¬ ReadsNull stored left right → (left.subtracts || right.subtracts) = true →
    isEquality operator = false ∧ left.columns ++ right.columns = [] ∧
      (left.subtracts && right.subtracts) = false ∧
      (left.nanos? clock stored = none ∨ right.nanos? clock stored = none)
  present : ¬ ReadsNull stored left right → (left.subtracts || right.subtracts) = false →
    (∃ n m x y, left.nanos? clock stored = some n ∧ right.nanos? clock stored = some m ∧
      left.exact clock stored = some x ∧ right.exact clock stored = some y ∧
      operator.test (.finite x) (.finite y) = operator.test (.finite n) (.finite m)) ∧
    ∀ bound, bound? clock left right = some bound → InYears bound

end Agreement

end TemporalExpression

/-! ## What a translated expression is -/

/-- A sum or difference left to the database. -/
def IsRaw (element : Arel) : Prop := ∃ op a b, element = .arith op a b

open TemporalExpression in
inductive Lowered (clock : Int) : {kind : Bool} → TemporalExpression kind → TemporalValue → Prop where
  | column (name : String) : Lowered clock (.column name) (.column name)
  | time {e : TemporalExpression true} {t : ℚ} (hnone : e.subtracts = false)
      (hcolumns : e.columns = []) (hexact : ∀ stored, e.exact clock stored = some t) :
      Lowered clock e (.time t)
  | duration {e : TemporalExpression false} {d : ℚ} (hnone : e.subtracts = false)
      (hcolumns : e.columns = []) (hexact : ∀ stored, e.exact clock stored = some d) :
      Lowered clock e (.duration d)
  | shifted {e : TemporalExpression true} {name : String} {total : ℚ} (hnone : e.subtracts = false)
      (hcolumns : e.columns = [name]) (hbare : e.bareColumn? = none)
      (hexact : ∀ stored, e.exact clock stored = (stored name).map fun n : Int => (n : ℚ) + total) :
      Lowered clock e (.shifted name total)
  | timeSince {e : TemporalExpression false} {name : String} (hnone : e.subtracts = false)
      (hcolumns : e.columns = [name])
      (hexact : ∀ stored, e.exact clock stored = (stored name).map fun n : Int => (now clock : ℚ) - n) :
      Lowered clock e (.timeSince name)
  | node {kind : Bool} {e : TemporalExpression kind} {element : Arel} (hsome : e.subtracts = true)
      (hcolumns : e.columns = []) (hbare : e.bareColumn? = none) (hraw : IsRaw element) :
      Lowered clock e (.node element)

/-- The instant that `Time.iso8601` reads in a timestamp of CEL. -/
theorem parseTimestamp_eq {literal : TimestampLiteral} {t : ℚ}
    (h : parseTimestamp literal.text = .ok t) : t = literal.nanos := by
  have hinstant : parseRfc3339Instant literal.text = some literal.nanos :=
    (Option.filter_eq_some_iff.mp literal.valid).1
  obtain ⟨m, hm, -, hnanos⟩ := SqlAlchemy.matchRfc3339_of_parsed hinstant
  rw [parseTimestamp, hm] at h
  dsimp only at h
  split at h
  · cases h
  · rw [← Except.ok.inj h, hnanos]

theorem signed_add (sub : Bool) (n total d : ℚ) : signed sub (n + total) d = n + signed sub total d := by
  cases sub with
  | true => exact add_sub_assoc n total d
  | false => exact add_assoc n total d

theorem signed_eq (sub : Bool) (n d : ℚ) : signed sub n d = n + signed sub 0 d := by
  rw [← signed_add, add_zero]

section Lowering

open TemporalExpression (columns subtracts exact)

variable {clock : Int} {kind : Bool} {e : TemporalExpression kind} {v w : TemporalValue}

variable {u : TemporalValue}

/-- A value that a duration moves. -/
theorem lowered_shift {sub : Bool} {t e : TemporalExpression true} {d : ℚ}
    (ht : Lowered clock t v) (hrun : shift sub v (.duration d) = .ok w)
    (hcolumns : e.columns = t.columns) (hsubtracts : e.subtracts = t.subtracts)
    (hbare : e.bareColumn? = none)
    (hexact : ∀ stored, e.exact clock stored = (t.exact clock stored).map (signed sub · d)) :
    Lowered clock e w := by
  cases ht with
  | column name =>
      obtain rfl := Except.ok.inj hrun
      refine .shifted hsubtracts hcolumns hbare ?_
      intro stored
      rw [hexact, TemporalExpression.exact]
      cases stored name with
      | none => rfl
      | some n => exact congrArg some (signed_eq sub n d)
  | time hnone hnil hvalue =>
      obtain rfl := Except.ok.inj hrun
      refine .time (hsubtracts.trans hnone) (hcolumns.trans hnil) ?_
      intro stored
      rw [hexact, hvalue, Option.map_some]
  | shifted hnone hname hbare' hvalue =>
      obtain rfl := Except.ok.inj hrun
      refine .shifted (hsubtracts.trans hnone) (hcolumns.trans hname) hbare ?_
      intro stored
      rw [hexact, hvalue]
      cases stored _ with
      | none => rfl
      | some n => exact congrArg some (signed_add sub n _ d)
  | node hsome hnil hbare' hraw => cases hrun

/-- Two operands that no duration takes part in are both instants, of no column. -/
theorem arithmetic_eq_node {sub : Bool} (hv : v.isTemporal = false) (hw : w.isTemporal = false)
    (hrun : arithmetic sub v w = .ok u) :
    (∀ name, v ≠ .column name) ∧ (∀ name, w ≠ .column name) ∧
      ∃ element, u = .node element ∧ IsRaw element := by
  have hquoted : ∀ {v w : TemporalValue} {u : TemporalValue},
      (do let a ← quote v
          let b ← quote w
          return TemporalValue.node (.arith (if sub then .sub else .add) a b) :
        Except Refusal TemporalValue) = .ok u → ∃ element, u = .node element ∧ IsRaw element := by
    intro v w u h
    obtain ⟨a, -, h⟩ := Except.bind_eq_ok_iff.mp h
    obtain ⟨b, -, h⟩ := Except.bind_eq_ok_iff.mp h
    exact ⟨_, (Except.ok.inj h).symm, _, a, b, rfl⟩
  cases v with
  | duration d => cases hv
  | timeSince name => cases hv
  | shifted name d => cases hv
  | column name =>
      cases w with
      | duration d => cases hw
      | timeSince name => cases hw
      | shifted name d => cases hw
      | column name => cases hrun
      | node b => cases hrun
      | time u => cases hrun
  | node a | time t =>
      cases w with
      | duration d => cases hw
      | timeSince name => cases hw
      | shifted name d => cases hw
      | column name => cases hrun
      | node b | time u => exact ⟨fun _ h => (by cases h), fun _ h => (by cases h), hquoted hrun⟩

/-- Neither operand of such a sum reads a column. -/
theorem lowered_columns_eq_nil (h : Lowered clock e v) (htemporal : v.isTemporal = false)
    (hcolumn : ∀ name, v ≠ .column name) : e.columns = [] := by
  cases h with
  | column name => exact (hcolumn name rfl).elim
  | time hnone hnil hvalue => exact hnil
  | node hsome hnil hbare hraw => exact hnil
  | duration hnone hnil hvalue => exact hnil
  | shifted hnone hname hbare hvalue => cases htemporal
  | timeSince hnone hname hvalue => cases htemporal

/-- An instant beside a sum or difference that is left to the database. -/
theorem instant_beside_node {sub : Bool} {t : TemporalExpression true} {element : Arel}
    (ht : Lowered clock t v)
    (hrun : arithmetic sub v (.node element) = .ok u ∨ arithmetic sub (.node element) v = .ok u) :
    v.isTemporal = false ∧ (∀ name, v ≠ .column name) ∧
      ∃ element, u = .node element ∧ IsRaw element := by
  cases htemporal : v.isTemporal with
  | true =>
      cases ht with
      | shifted hnone hname hbare hvalue => obtain hrun | hrun := hrun <;> cases hrun
      | column name => cases htemporal
      | time hnone hnil hvalue => cases htemporal
      | node hsome hnil hbare hraw => cases htemporal
  | false =>
      obtain hrun | hrun := hrun
      · obtain ⟨hv, -, hnode⟩ := arithmetic_eq_node htemporal rfl hrun
        exact ⟨rfl, hv, hnode⟩
      · obtain ⟨-, hv, hnode⟩ := arithmetic_eq_node rfl htemporal hrun
        exact ⟨rfl, hv, hnode⟩

/-- An instant before a duration. -/
theorem arithmetic_shift {sub : Bool} {t e : TemporalExpression true} {d : TemporalExpression false}
    (ht : Lowered clock t v) (hd : Lowered clock d w)
    (hrun : arithmetic sub v w = .ok u) (hcolumns : e.columns = t.columns ++ d.columns)
    (hsubtracts : e.subtracts = (t.subtracts || d.subtracts)) (hbare : e.bareColumn? = none)
    (hexact : ∀ stored, e.exact clock stored = do
      return signed sub (← t.exact clock stored) (← d.exact clock stored)) : Lowered clock e u := by
  cases hd with
  | @duration _ amount hnone hnil hvalue =>
      have hshift : arithmetic sub v (.duration amount) = shift sub v (.duration amount) := by
        cases ht <;> cases sub <;> rfl
      rw [hshift] at hrun
      refine lowered_shift ht hrun ?_ ?_ hbare ?_
      · rw [hcolumns, hnil, List.append_nil]
      · rw [hsubtracts, hnone, Bool.or_false]
      · intro stored
        rw [hexact, hvalue]
        cases t.exact clock stored <;> rfl
  | timeSince hnone hname hvalue => cases ht <;> cases hrun
  | node hsome hnil hbare' hraw =>
      obtain ⟨htemporal, hnode⟩ := instant_beside_node ht (.inl hrun)
      obtain ⟨hv, element, rfl, hraw'⟩ := hnode
      refine .node ?_ ?_ hbare hraw'
      · rw [hsubtracts, hsome, Bool.or_true]
      · rw [hcolumns, hnil, lowered_columns_eq_nil ht htemporal hv, List.append_nil]

/-- What the adapter makes of an expression. -/
theorem lowered_value (h : e.value clock = .ok v) : Lowered clock e v := by
  induction e generalizing v with
  | column name =>
      obtain rfl := Except.ok.inj h
      exact .column name
  | timestamp literal =>
      obtain ⟨t, ht, rfl⟩ := Except.map_eq_ok_iff.mp h
      refine .time rfl rfl ?_
      intro stored
      rw [parseTimestamp_eq ht]
      rfl
  | duration literal =>
      obtain ⟨d, hd, rfl⟩ := Except.map_eq_ok_iff.mp h
      refine .duration rfl rfl ?_
      intro stored
      rw [TemporalExpression.exact, hd]
      rfl
  | timeSince t iht =>
      obtain ⟨vt, hvt, h⟩ := Except.bind_eq_ok_iff.mp h
      cases iht hvt with
      | column name =>
          obtain rfl := Except.ok.inj h
          refine .timeSince rfl rfl ?_
          intro stored
          rw [TemporalExpression.exact, TemporalExpression.exact]
          cases stored name <;> rfl
      | time hnone hnil hvalue =>
          obtain rfl := Except.ok.inj h
          refine .duration hnone hnil ?_
          intro stored
          rw [TemporalExpression.exact, hvalue]
          rfl
      | shifted hnone hname hbare hvalue => cases h
      | node hsome hnil hbare hraw => cases h
  | shift sub t d iht ihd =>
      obtain ⟨vt, hvt, h⟩ := Except.bind_eq_ok_iff.mp h
      obtain ⟨vd, hvd, h⟩ := Except.bind_eq_ok_iff.mp h
      exact arithmetic_shift (iht hvt) (ihd hvd) h rfl rfl rfl fun _ => rfl
  | shiftAfter d t ihd iht =>
      obtain ⟨vd, hvd, h⟩ := Except.bind_eq_ok_iff.mp h
      obtain ⟨vt, hvt, h⟩ := Except.bind_eq_ok_iff.mp h
      have ht := iht hvt
      cases ihd hvd with
      | @duration _ amount hnone hnil hvalue =>
          have hshift : arithmetic false (.duration amount) vt = shift false vt (.duration amount) := by
            cases ht <;> rfl
          rw [hshift] at h
          refine lowered_shift ht h ?_ ?_ rfl ?_
          · rw [columns, hnil, List.nil_append]
          · rw [subtracts, hnone, Bool.false_or]
          · intro stored
            rw [exact, hvalue]
            cases t.exact clock stored <;> rfl
      | timeSince hnone hname hvalue => cases ht <;> cases h
      | node hsome hnil hbare hraw =>
          obtain ⟨htemporal, hv, element, rfl, hraw'⟩ := instant_beside_node ht (.inr h)
          refine .node ?_ ?_ rfl hraw'
          · rw [subtracts, hsome, Bool.true_or]
          · rw [columns, hnil, lowered_columns_eq_nil ht htemporal hv, List.append_nil]
  | combine sub d e ihd ihe =>
      obtain ⟨vd, hvd, h⟩ := Except.bind_eq_ok_iff.mp h
      obtain ⟨ve, hve, h⟩ := Except.bind_eq_ok_iff.mp h
      cases ihd hvd with
      | duration hnone hnil hvalue =>
          cases ihe hve with
          | duration hnone' hnil' hvalue' =>
              obtain rfl := Except.ok.inj h
              refine .duration ?_ ?_ ?_
              · rw [subtracts, hnone, hnone', Bool.or_false]
              · rw [columns, hnil, hnil', List.append_nil]
              · intro stored
                rw [exact, hvalue, hvalue']
                rfl
          | timeSince hnone' hname' hvalue' => cases sub <;> cases h
          | node hsome' hnil' hbare' hraw' => cases sub <;> cases h
      | timeSince hnone hname hvalue => cases ihe hve <;> cases h
      | node hsome hnil hbare hraw =>
          cases ihe hve with
          | duration hnone' hnil' hvalue' => cases h
          | timeSince hnone' hname' hvalue' => cases h
          | node hsome' hnil' hbare' hraw' =>
              obtain ⟨-, -, element, rfl, hraw''⟩ := arithmetic_eq_node rfl rfl h
              refine .node ?_ ?_ rfl hraw''
              · rw [subtracts, hsome, Bool.true_or]
              · rw [columns, hnil, hnil', List.append_nil]
  | between t u iht ihu =>
      obtain ⟨vt, hvt, h⟩ := Except.bind_eq_ok_iff.mp h
      obtain ⟨vu, hvu, h⟩ := Except.bind_eq_ok_iff.mp h
      have ht := iht hvt
      have hu := ihu hvu
      have htemporal : vt.isTemporal = false ∧ vu.isTemporal = false := by
        cases ht with
        | shifted hnone hname hbare hvalue => cases hu <;> cases h
        | column name | time hnone hnil hvalue | node hsome hnil hbare hraw =>
            cases hu with
            | shifted hnone' hname' hbare' hvalue' => cases h
            | _ => exact ⟨rfl, rfl⟩
      obtain ⟨hv, hw, element, rfl, hraw⟩ := arithmetic_eq_node htemporal.1 htemporal.2 h
      refine .node rfl ?_ rfl hraw
      rw [columns, lowered_columns_eq_nil ht htemporal.1 hv,
        lowered_columns_eq_nil hu htemporal.2 hw, List.append_nil]

end Lowering

/-! ## The predicate -/

/-- The instants of a row. -/
def storedInstants (row : Row) (name : String) : Option Int :=
  match row name with
  | .time nanos => some nanos
  | _ => none

/-- The columns hold instants of CEL's range, or NULL. -/
def StoresInstants (row : Row) (columns : List String) : Prop :=
  ∀ name ∈ columns, row name = .null ∨ ∃ nanos, row name = .time nanos ∧ inTimestampRange nanos = true

/-- Every store answers alike. -/
def Decided (p : Arel) (row : Row) (t : Truth) : Prop :=
  ∀ engine, p.truth engine row = t

/-- Two stores answer differently. -/
def Undecided (p : Arel) (row : Row) : Prop :=
  ∃ e₁ e₂ b, p.truth e₁ row = .unknown ∧ p.truth e₂ row = .ofBool b

/-- A store that answers every sum of instants and every comparison across types alike. -/
def answering (sum : SqlValue) (t : Truth) : Engine :=
  { Engine.bare with arith := fun _ _ _ => sum, compareMixed := fun _ _ _ => t }

/-- What a bound `Time` is to a store. -/
def boundValue (nanos : ℚ) : SqlValue :=
  if TemporalExpression.InYears nanos then .time nanos.num else .text (toString nanos.num)

section Predicate

variable {row : Row} {p : Arel} {t : Truth}

theorem Undecided.not_decided (h : Undecided p row) : ¬ Decided p row t := by
  intro hdecided
  obtain ⟨e₁, e₂, b, hunknown, hbool⟩ := h
  rw [hdecided e₁] at hunknown
  rw [hdecided e₂, hunknown] at hbool
  cases b <;> cases hbool

theorem quoteTime_eq_ok {nanos : ℚ} {q : Arel} (h : quoteTime nanos = .ok q) :
    q = .literal (boundValue nanos) ∧ (nanos.num : ℚ) = nanos := by
  rw [quoteTime] at h
  split at h
  next hden =>
    refine ⟨(Except.ok.inj h).symm, ?_⟩
    have hmicros : ((nanos / 1000).num : ℚ) = nanos / 1000 := (Rat.den_eq_one_iff _).mp hden
    have hwhole : nanos = ((1000 * (nanos / 1000).num : Int) : ℚ) := by
      rw [Int.cast_mul, hmicros, Int.cast_ofNat]
      ring
    rw [hwhole, Rat.num_intCast]
  next => cases h

theorem boundValue_isNull (nanos : ℚ) : (boundValue nanos).isNull = false := by
  rw [boundValue]
  split <;> rfl

variable {operator : ComparisonOperator} {n : Int} {bound : ℚ}

/-- An instant beside one that every store reads. -/
theorem compare_boundValue (hbound : TemporalExpression.InYears bound)
    (hwhole : (bound.num : ℚ) = bound) (engine : Engine) :
    engine.compare operator (.time n) (boundValue bound) =
        .ofBool (operator.test (.finite n) (.finite bound)) ∧
      engine.compare operator (boundValue bound) (.time n) =
        .ofBool (operator.test (.finite bound) (.finite n)) := by
  rw [boundValue, if_pos hbound]
  have hleft : engine.compare operator (.time n) (.time bound.num) =
      .ofBool (operator.test (.finite n) (.finite (bound.num : ℚ))) := rfl
  have hright : engine.compare operator (.time bound.num) (.time n) =
      .ofBool (operator.test (.finite (bound.num : ℚ)) (.finite n)) := rfl
  rw [hleft, hright, hwhole]
  exact ⟨rfl, rfl⟩

/-- Beside one that each store reads in its own way. -/
theorem compare_outside (hbound : ¬ TemporalExpression.InYears bound) (sum : SqlValue) (t : Truth) :
    (answering sum t).compare operator (.time n) (boundValue bound) = t ∧
      (answering sum t).compare operator (boundValue bound) (.time n) = t := by
  rw [boundValue, if_neg hbound]
  exact ⟨rfl, rfl⟩

/-- The answer of an equality that is built again, from whether its operands are explicit, missing
and NULL. -/
def definiteTruth (operator : ComparisonOperator)
    (leftExplicit rightExplicit leftMissing rightMissing leftNull rightNull : Bool) (equal : Truth) :
    Truth :=
  if leftMissing || rightMissing then .unknown
  else Truth.polarised (operator = .ne)
    (if leftExplicit && leftNull || rightExplicit && rightNull then
      .ofBool (leftExplicit && leftNull && (rightExplicit && rightNull))
    else equal)

theorem truth_definiteEquality {explicit : String → Bool} {left right : TemporalValue} {a b : Arel}
    (ha : quote left = .ok a) (hb : quote right = .ok b)
    (h : definiteEquality explicit operator left right = .ok p) (engine : Engine) :
    p.truth engine row =
      definiteTruth operator (isExplicitNull explicit left) (isExplicitNull explicit right)
        (!(isExplicitNull explicit left || left.isTime) && (a.eval engine row).isNull)
        (!(isExplicitNull explicit right || right.isTime) && (b.eval engine row).isNull)
        (a.eval engine row).isNull (b.eval engine row).isNull
        (engine.compare .eq (a.eval engine row) (b.eval engine row)) := by
  rw [definiteEquality, ha, hb] at h
  obtain rfl := Except.ok.inj h
  clear h
  generalize isExplicitNull explicit left = leftExplicit
  generalize isExplicitNull explicit right = rightExplicit
  generalize left.isTime = leftTime
  generalize right.isTime = rightTime
  have hguard : ∀ (missing : List Arel) (result : Arel),
      (if missing.isEmpty then result
        else .caseWhen (SqlAlchemy.Expression.disjunction missing) .null result : Arel).truth
          engine row =
        if Truth.any (missing.map (·.truth engine row)) = .yes then .unknown
        else result.truth engine row := by
    intro missing result
    cases missing with
    | nil => rfl
    | cons x missing =>
        rw [List.isEmpty_cons, if_neg Bool.false_ne_true, SqlAlchemy.Expression.truth_caseWhen,
          SqlAlchemy.Expression.truth_disjunction]
        rfl
  rw [hguard, definiteTruth]
  congr 1
  · cases leftExplicit <;> cases leftTime <;> cases rightExplicit <;> cases rightTime <;>
      simp
  · by_cases hne : operator = .ne <;> cases leftExplicit <;> cases rightExplicit <;>
      cases hleft : (a.eval engine row).isNull <;> cases hright : (b.eval engine row).isNull <;>
      simp [hne, hleft, hright]

/-- The answer of a comparison in SQL, from the values of its operands. -/
def leafTruth (explicit : String → Bool) (operator : ComparisonOperator) (left right : TemporalValue)
    (a b : SqlValue) (engine : Engine) : Truth :=
  if isEquality operator && (isExplicitNull explicit left || isExplicitNull explicit right) then
    definiteTruth operator (isExplicitNull explicit left) (isExplicitNull explicit right)
      (!(isExplicitNull explicit left || left.isTime) && a.isNull)
      (!(isExplicitNull explicit right || right.isTime) && b.isNull) a.isNull b.isNull
      (engine.compare .eq a b)
  else engine.compare operator a b

theorem truth_leaf {explicit : String → Bool} {left right : TemporalValue} {plain : Arel} (row : Row)
    (hsql : compareLeaf operator left right = do return .compare operator (← quote left) (← quote right))
    (hplain : compareLeaf operator left right = .ok plain)
    (hp : withNullConventions explicit operator left right plain = .ok p) :
    ∃ a b, quote left = .ok a ∧ quote right = .ok b ∧ ∀ engine, p.truth engine row =
      leafTruth explicit operator left right (a.eval engine row) (b.eval engine row) engine := by
  rw [hsql] at hplain
  obtain ⟨a, ha, hplain⟩ := Except.bind_eq_ok_iff.mp hplain
  obtain ⟨b, hb, hplain⟩ := Except.bind_eq_ok_iff.mp hplain
  obtain rfl := Except.ok.inj hplain
  refine ⟨a, b, ha, hb, ?_⟩
  intro engine
  rw [withNullConventions] at hp
  rw [leafTruth]
  split at hp
  next hrebuilt =>
    rw [if_pos hrebuilt, truth_definiteEquality ha hb hp]
  next hplain =>
    rw [if_neg hplain, ← Except.ok.inj hp, SqlAlchemy.Expression.truth_compare]

section Leaf

variable {explicit : String → Bool} {left right : TemporalValue} {a b : SqlValue} {engine : Engine}

theorem polarised_test (hequality : isEquality operator = true) (x y : Double) :
    Truth.polarised (operator = .ne) (.ofBool (ComparisonOperator.eq.test x y)) =
      .ofBool (operator.test x y) := by
  cases operator with
  | eq => rfl
  | ne => exact Truth.not_ofBool _
  | _ => cases hequality

/-- Without a NULL, an equality that is built again is one. -/
theorem leafTruth_present (ha : a.isNull = false) (hb : b.isNull = false) :
    leafTruth explicit operator left right a b engine =
      if isEquality operator && (isExplicitNull explicit left || isExplicitNull explicit right) then
        Truth.polarised (operator = .ne) (engine.compare .eq a b)
      else engine.compare operator a b := by
  rw [leafTruth, definiteTruth, ha, hb]
  simp

theorem leafTruth_of_test {x y : Double} (ha : a.isNull = false) (hb : b.isNull = false)
    (htest : ∀ op, engine.compare op a b = .ofBool (op.test x y)) :
    leafTruth explicit operator left right a b engine = .ofBool (operator.test x y) := by
  rw [leafTruth_present ha hb, htest, htest]
  split
  next h => exact polarised_test (Bool.and_eq_true_iff.mp h).1 x y
  next => rfl

theorem leafTruth_of_unknown (ha : a.isNull = false) (hb : b.isNull = false)
    (hunknown : ∀ op, engine.compare op a b = .unknown) :
    leafTruth explicit operator left right a b engine = .unknown := by
  rw [leafTruth_present ha hb, hunknown, hunknown, Truth.polarised_unknown, ite_self]

theorem leafTruth_of_bool {r : ComparisonOperator → Bool} (ha : a.isNull = false)
    (hb : b.isNull = false) (hbool : ∀ op, engine.compare op a b = .ofBool (r op)) :
    ∃ result, leafTruth explicit operator left right a b engine = .ofBool result := by
  rw [leafTruth_present ha hb, hbool, hbool]
  split
  · cases decide (operator = .ne)
    · exact ⟨_, rfl⟩
    · exact ⟨_, Truth.not_ofBool _⟩
  · exact ⟨_, rfl⟩

/-- An explicit operand is NULL, and no operand is missing. -/
def NullAnswers (explicit : String → Bool) (left right : TemporalValue) (a b : SqlValue) : Prop :=
  (isExplicitNull explicit left && a.isNull || isExplicitNull explicit right && b.isNull) = true ∧
    (a.isNull = true → (isExplicitNull explicit left || left.isTime) = true) ∧
      (b.isNull = true → (isExplicitNull explicit right || right.isTime) = true)

theorem leafTruth_null_answers (hequality : isEquality operator = true)
    (h : NullAnswers explicit left right a b) :
    ∃ result, leafTruth explicit operator left right a b engine = .ofBool result := by
  obtain ⟨hnull, ha, hb⟩ := h
  have hexplicit : (isExplicitNull explicit left || isExplicitNull explicit right) = true := by
    rw [Bool.or_eq_true] at hnull ⊢
    exact hnull.imp (fun h => (Bool.and_eq_true_iff.mp h).1) fun h => (Bool.and_eq_true_iff.mp h).1
  have hmissing : (!(isExplicitNull explicit left || left.isTime) && a.isNull ||
      !(isExplicitNull explicit right || right.isTime) && b.isNull) = false := by
    rw [Bool.or_eq_false_iff, Bool.and_eq_false_iff, Bool.and_eq_false_iff, Bool.not_eq_false',
      Bool.not_eq_false']
    refine ⟨?_, ?_⟩
    · cases h : a.isNull with
      | true => exact .inl (ha h)
      | false => exact .inr rfl
    · cases h : b.isNull with
      | true => exact .inl (hb h)
      | false => exact .inr rfl
  rw [leafTruth, hequality, hexplicit, Bool.and_true, if_pos rfl, definiteTruth, hmissing,
    if_neg Bool.false_ne_true, hnull, if_pos rfl]
  cases decide (operator = .ne)
  · exact ⟨_, rfl⟩
  · exact ⟨_, Truth.not_ofBool _⟩

theorem leafTruth_null (hnull : (a.isNull || b.isNull) = true)
    (h : ¬ (isEquality operator = true ∧ NullAnswers explicit left right a b)) :
    leafTruth explicit operator left right a b engine = .unknown := by
  have hcompare : ∀ op, engine.compare op a b = .unknown := fun op => by
    rw [Engine.compare, hnull, if_pos rfl]
  rw [leafTruth, hcompare, hcompare]
  split
  next hrebuilt =>
    rw [definiteTruth]
    split
    next => rfl
    next hmissing =>
      rw [if_neg, Truth.polarised_unknown]
      intro hanswers
      refine h ⟨(Bool.and_eq_true_iff.mp hrebuilt).1, hanswers, ?_, ?_⟩
      · intro ha
        rw [ha, Bool.and_true, Bool.or_eq_true, not_or, Bool.not_eq_true', Bool.not_eq_false] at hmissing
        exact hmissing.1
      · intro hb
        rw [hb, Bool.and_true, Bool.or_eq_true, not_or, Bool.not_eq_true' (_ || right.isTime),
          Bool.not_eq_false] at hmissing
        exact hmissing.2
  next => rfl

end Leaf

end Predicate

end QueryPlanAdapters.ActiveRecord
