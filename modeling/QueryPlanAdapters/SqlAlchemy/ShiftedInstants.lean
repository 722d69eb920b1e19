import QueryPlanAdapters.SqlAlchemy.Expression
import QueryPlanAdapters.SqlAlchemy.TemporalLiterals
import QueryPlanAdapters.Cel.TemporalArithmetic
import Mathlib.Tactic.Ring

/-!
# SQLAlchemy: shifted timestamps

A timestamp column plus durations is kept apart from its total shift until a comparison moves
the shift to the literal. One guard bounds the column to where the last sum exists; the sums
on the way to it are not looked at. A difference of timestamps with a column in it is left to
the database.
-/

namespace QueryPlanAdapters.SqlAlchemy

open Sql

/-! ## Python values -/

/-- The type SQLAlchemy gives an expression. -/
inductive SqlType where
  | dateTime
  | interval
  | nullType
  deriving DecidableEq

/-- The type of a sum or difference, as SQLAlchemy adapts its operands'. -/
def SqlType.adapt (sub : Bool) : (left right : SqlType) → SqlType
  | dateTime, dateTime => if sub then interval else nullType
  | dateTime, interval => dateTime
  | interval, dateTime => if sub then nullType else dateTime
  | interval, interval => interval
  | _, _ => nullType

inductive PyValue where
  | sql (element : Expression) (type : SqlType)
  | datetime (t : Datetime)
  | timedelta (d : Timedelta)
  /-- `ShiftedInstant` -/
  | shifted (instant : Expression) (delta : Timedelta)

/-- `_shift`. A `datetime` is always within `_MIN_CEL_TIMESTAMP` and `_MAX_CEL_TIMESTAMP`. -/
def shift : (instant : PyValue) → (delta : Timedelta) → Except Failure PyValue
  | .shifted instant total, delta =>
      (Timedelta.ofMicros (total.micros + delta.micros)).map (.shifted instant)
  | .datetime t, delta =>
      match Datetime.ofMicros (t.micros + delta.micros) with
      | none => .error (.unsupported .sumRange)
      | some shifted => .ok (.datetime shifted)
  | .sql element .dateTime, delta => .ok (.shifted element delta)
  | _, _ => .error (.unsupported .durationWithoutTimestamp)

def arithmeticOperator (sub : Bool) : ArithmeticOperator :=
  if sub then .sub else .add

/-- A bound `datetime`. -/
def bindDatetime (t : Datetime) : Expression := .literal (.time t.nanos)

/-- `numeric` of `_additive`: Python's operator, which is SQL's where an operand is. -/
def numeric (sub : Bool) : (c v : PyValue) → Except Failure PyValue
  | .datetime t, .datetime u =>
      if sub then (Timedelta.ofMicros (t.micros - u.micros)).map .timedelta
      else .error .typeError
  | .datetime t, .sql b type =>
      .ok (.sql (.arith (arithmeticOperator sub) (bindDatetime t) b) (.adapt sub .dateTime type))
  | .sql a type, .datetime u =>
      .ok (.sql (.arith (arithmeticOperator sub) a (bindDatetime u)) (.adapt sub type .dateTime))
  | .sql a left, .sql b right =>
      .ok (.sql (.arith (arithmeticOperator sub) a b) (.adapt sub left right))
  | _, _ => .error .typeError

/-- `_additive(1)` and `_additive(-1)`. -/
def additive (sub : Bool) : (c v : PyValue) → Except Failure PyValue
  | .timedelta c, .timedelta v =>
      (Timedelta.ofMicros (TemporalValue.signedSum sub c.micros v.micros)).map .timedelta
  | c, .timedelta v => do
      shift c (← if sub then Timedelta.ofMicros (-v.micros) else .ok v)
  | .timedelta c, v =>
      if sub then .error (.unsupported .temporalArithmetic) else shift v c
  | .shifted .., _ | _, .shifted .. => .error (.unsupported .temporalArithmetic)
  | c, v => numeric sub c v

/-! ## Comparisons -/

/-- `_compare_shifted` of a shifted column and the other operand. -/
def compareShiftedWith (operator : ComparisonOperator) (instant : Expression) (delta : Timedelta) :
    (right : PyValue) → Except Failure Expression
  | .datetime t =>
      match Datetime.ofMicros (t.micros - delta.micros) with
      | none => .error (.unsupported .boundRange)
      | some bound =>
          let comparison := Expression.compare operator instant (bindDatetime bound)
          if 0 < delta.micros then
            match Datetime.ofMicros (maxMicros - delta.micros) with
            | none => .ok .null
            | some limit => .ok (.onlyWhen (.compare .le instant (bindDatetime limit)) comparison)
          else if delta.micros < 0 then
            match Datetime.ofMicros (minMicros - delta.micros) with
            | none => .ok .null
            | some limit => .ok (.onlyWhen (.compare .ge instant (bindDatetime limit)) comparison)
          else .ok comparison
  | _ => .error (.unsupported .shiftedAgainstColumn)

/-- `_compare_shifted` -/
def compareShifted (operator : ComparisonOperator) : (left right : PyValue) → Except Failure Expression
  | .shifted .., .shifted .. => .error (.unsupported .twoShiftedColumns)
  | left, .shifted instant delta => compareShiftedWith operator.mirrored instant delta left
  | .shifted instant delta, right => compareShiftedWith operator instant delta right
  | _, _ => .error .typeError

/-- `_compare_leaf`, of temporal values. A Python comparison is a constant. -/
def compareLeaf (operator : ComparisonOperator) : (left right : PyValue) → Except Failure Expression
  | .shifted instant delta, right => compareShifted operator (.shifted instant delta) right
  | left, .shifted instant delta => compareShifted operator left (.shifted instant delta)
  | .timedelta c, .timedelta v =>
      .ok (.ofBool (operator.test (.finite c.nanos) (.finite v.nanos)))
  | .timedelta _, _ | _, .timedelta _ => .error (.unsupported .durationAgainstOther)
  | .datetime t, .datetime u =>
      .ok (.ofBool (operator.test (.finite t.nanos) (.finite u.nanos)))
  | .datetime t, .sql b _ => .ok (.compare operator (bindDatetime t) b)
  | .sql a _, .datetime u => .ok (.compare operator a (bindDatetime u))
  | .sql a _, .sql b _ => .ok (.compare operator a b)

/-! ## Expressions -/

/-- A timestamp, or a duration, of columns, literals, sums and differences. -/
inductive TemporalExpression : (instant : Bool) → Type where
  /-- `timestamp(column)` -/
  | column (name : String) : TemporalExpression true
  | timestamp (text : String) : TemporalExpression true
  | duration (text : String) : TemporalExpression false
  | shift (sub : Bool) (t : TemporalExpression true) (d : TemporalExpression false) :
      TemporalExpression true
  /-- The duration is the left operand. -/
  | shiftAfter (d : TemporalExpression false) (t : TemporalExpression true) :
      TemporalExpression true
  | combine (sub : Bool) (d e : TemporalExpression false) : TemporalExpression false
  | between (t u : TemporalExpression true) : TemporalExpression false

namespace TemporalExpression

section Value

variable (readsFraction : Nat → Bool)

/-- `Translator.value` -/
def value {kind : Bool} : TemporalExpression kind → Except Failure PyValue
  | column name => .ok (.sql (.column name) .dateTime)
  | timestamp text => (timestampLiteral readsFraction text).map .datetime
  | duration text => (durationLiteral text).map .timedelta
  | shift sub t d => do additive sub (← t.value) (← d.value)
  | shiftAfter d t => do additive false (← d.value) (← t.value)
  | combine sub d e => do additive sub (← d.value) (← e.value)
  | between t u => do additive true (← t.value) (← u.value)

/-- The predicate of a comparison of an instant with `timestamp("literal")`, which may stand
first. -/
def comparison (e : TemporalExpression true) (operator : ComparisonOperator) (literal : String)
    (literalFirst : Bool) : Except Failure Expression := do
  let value ← e.value readsFraction
  let other ← timestampLiteral readsFraction literal
  if literalFirst then compareLeaf operator (.datetime other) value
  else compareLeaf operator value (.datetime other)

end Value

/-! ## CEL -/

/-- A sum of CEL, none for the error of one out of range. -/
def inRange? (bounds : Int → Bool) (nanos : Int) : Option Int :=
  if bounds nanos then some nanos else none

def fitsInt64 (nanos : Int) : Bool :=
  int64Min ≤ nanos && nanos ≤ int64Max

section Meaning

variable (stored : String → Option Int)

/-- CEL's value in nanoseconds, none for an error: a missing attribute, or a sum out of range. -/
def nanos? {kind : Bool} : TemporalExpression kind → Option Int
  | column name => stored name
  | timestamp text => parseRfc3339Timestamp text
  | duration text => GoTime.parseDuration text
  | shift sub t d => do
      inRange? inTimestampRange (TemporalValue.signedSum sub (← t.nanos?) (← d.nanos?))
  | shiftAfter d t => do
      inRange? inTimestampRange ((← d.nanos?) + (← t.nanos?))
  | combine sub d e => do
      inRange? fitsInt64 (TemporalValue.signedSum sub (← d.nanos?) (← e.nanos?))
  | between t u => do
      inRange? fitsInt64 ((← t.nanos?) - (← u.nanos?))

/-- CEL's comparison with a literal. -/
def comparisonTruth (e : TemporalExpression true) (operator : ComparisonOperator)
    (literal : String) (literalFirst : Bool) : Truth :=
  match e.nanos? stored, parseRfc3339Timestamp literal with
  | some instant, some other =>
      .ofBool (if literalFirst then operator.test (.finite other) (.finite instant)
        else operator.test (.finite instant) (.finite other))
  | _, _ => .unknown

/-- The exact sum, wherever the sums on the way to it lie. -/
def total {kind : Bool} : TemporalExpression kind → Option Int
  | column name => stored name
  | timestamp text => parseRfc3339Timestamp text
  | duration text => GoTime.parseDuration text
  | shift sub t d => do return TemporalValue.signedSum sub (← t.total) (← d.total)
  | shiftAfter d t => do return (← d.total) + (← t.total)
  | combine sub d e => do return TemporalValue.signedSum sub (← d.total) (← e.total)
  | between t u => do return (← t.total) - (← u.total)

/-- The timestamp that the shifts of an instant begin at. -/
def start {kind : Bool} : TemporalExpression kind → Option Int
  | column name => stored name
  | timestamp text => parseRfc3339Timestamp text
  | shift _ t _ => t.start
  | shiftAfter _ t => t.start
  | _ => none

end Meaning

def columns {kind : Bool} : TemporalExpression kind → List String
  | column name => [name]
  | timestamp _ | duration _ => []
  | shift _ t d => t.columns ++ d.columns
  | shiftAfter d t => d.columns ++ t.columns
  | combine _ d e => d.columns ++ e.columns
  | between t u => t.columns ++ u.columns

/-- A difference of timestamps takes part that reads a column. -/
def subtractsColumn {kind : Bool} : TemporalExpression kind → Bool
  | column _ | timestamp _ | duration _ => false
  | shift _ t d => t.subtractsColumn || d.subtractsColumn
  | shiftAfter d t => d.subtractsColumn || t.subtractsColumn
  | combine _ d e => d.subtractsColumn || e.subtractsColumn
  | between t u => !(t.columns ++ u.columns).isEmpty

/-- Every literal is one of CEL. -/
def HasLiterals {kind : Bool} : TemporalExpression kind → Prop
  | column _ => True
  | timestamp text => (parseRfc3339Timestamp text).isSome = true
  | duration text => (GoTime.parseDuration text).isSome = true
  | shift _ t d => t.HasLiterals ∧ d.HasLiterals
  | shiftAfter d t => d.HasLiterals ∧ t.HasLiterals
  | combine _ d e => d.HasLiterals ∧ e.HasLiterals
  | between t u => t.HasLiterals ∧ u.HasLiterals

/-- The last instant the guard lets a later timestamp be. -/
def lastMicrosecond : Int := maxMicros * 1000

/-- When one guard on the last sum is enough: no column is subtracted, or one that is read is
NULL; every sum on the way is in range when the last one is, and the last one is not past the
last microsecond when the shifts lead forward. -/
structure GuardSuffices (e : TemporalExpression true) (stored : String → Option Int) : Prop where
  differences : e.subtractsColumn = true → ∃ name ∈ e.columns, stored name = none
  sums : ∀ start total, e.subtractsColumn = false → e.start stored = some start →
    e.total stored = some total → inTimestampRange total = true →
      (start < total → total ≤ lastMicrosecond) → (e.nanos? stored).isSome = true
  lastSum : ∀ start total, e.subtractsColumn = false → e.start stored = some start →
    e.nanos? stored = some total → start < total → total ≤ lastMicrosecond

section Sums

variable {stored : String → Option Int} {kind : Bool} {e : TemporalExpression kind}

theorem inRange?_eq_some_iff {bounds : Int → Bool} {nanos n : Int} :
    inRange? bounds nanos = some n ↔ nanos = n ∧ bounds n = true := by
  rw [inRange?]
  split
  next h =>
    rw [Option.some_inj]
    exact ⟨fun heq => ⟨heq, heq ▸ h⟩, And.left⟩
  next h =>
    refine iff_of_false (fun heq => by cases heq) ?_
    rintro ⟨rfl, hbounds⟩
    exact h hbounds

/-- A sum that CEL has is the exact one. -/
theorem total_of_nanos? {n : Int} (h : e.nanos? stored = some n) : e.total stored = some n := by
  induction e generalizing n with
  | column name => exact h
  | timestamp text => exact h
  | duration text => exact h
  | shift sub t d iht ihd | combine sub t d iht ihd =>
      obtain ⟨x, hx, h⟩ := Option.bind_eq_some_iff.mp h
      obtain ⟨y, hy, h⟩ := Option.bind_eq_some_iff.mp h
      rw [total, iht hx, ihd hy, ← (inRange?_eq_some_iff.mp h).1]
      rfl
  | shiftAfter t d iht ihd | between t d iht ihd =>
      obtain ⟨x, hx, h⟩ := Option.bind_eq_some_iff.mp h
      obtain ⟨y, hy, h⟩ := Option.bind_eq_some_iff.mp h
      rw [total, iht hx, ihd hy, ← (inRange?_eq_some_iff.mp h).1]
      rfl

/-- A missing attribute is an error of the whole expression. -/
theorem total_eq_none {name : String} (hname : name ∈ e.columns) (hnull : stored name = none) :
    e.total stored = none := by
  induction e with
  | column name' =>
      obtain rfl := List.mem_singleton.mp hname
      exact hnull
  | timestamp text => cases hname
  | duration text => cases hname
  | shift sub t d iht ihd | combine sub t d iht ihd =>
      rw [total]
      obtain h | h := List.mem_append.mp hname
      · rw [iht h]
        rfl
      · rw [ihd h]
        cases t.total stored <;> rfl
  | shiftAfter t d iht ihd | between t d iht ihd =>
      rw [total]
      obtain h | h := List.mem_append.mp hname
      · rw [iht h]
        rfl
      · rw [ihd h]
        cases t.total stored <;> rfl

theorem columns_ne_nil (h : e.subtractsColumn = true) : e.columns ≠ [] := by
  induction e with
  | column name => cases h
  | timestamp text => cases h
  | duration text => cases h
  | shift sub t d iht ihd | combine sub t d iht ihd | shiftAfter t d iht ihd =>
      obtain h | h := Bool.or_eq_true_iff.mp h
      · exact List.append_ne_nil_of_left_ne_nil (iht h) _
      · exact List.append_ne_nil_of_right_ne_nil _ (ihd h)
  | between t u =>
      rw [subtractsColumn, Bool.not_eq_true', List.isEmpty_eq_false_iff] at h
      exact h

end Sums

/-! ## What a translated expression is -/

/-- An expression of columns and instants that the database adds and subtracts, with the columns
that it reads. -/
inductive TemporalSql : Expression → List String → Prop where
  | column (name : String) : TemporalSql (.column name) [name]
  | bind (t : Datetime) : TemporalSql (bindDatetime t) []
  | arith (op : ArithmeticOperator) {a b : Expression} {as bs : List String} (ha : TemporalSql a as)
      (hb : TemporalSql b bs) : TemporalSql (.arith op a b) (as ++ bs)

/-- A sum or difference left to the database. -/
def IsRaw (x : Expression) (columns : List String) : Prop :=
  TemporalSql x columns ∧ ∃ op a b, x = .arith op a b

inductive Lowered (stored : String → Option Int) : {kind : Bool} → TemporalExpression kind →
    PyValue → Prop where
  | datetime {e : TemporalExpression true} {t : Datetime} (hcolumns : e.columns = [])
      (htotal : e.total stored = some t.nanos) : Lowered stored e (.datetime t)
  | timedelta {e : TemporalExpression false} {d : Timedelta} (hcolumns : e.columns = [])
      (htotal : e.total stored = some d.nanos) : Lowered stored e (.timedelta d)
  | column {e : TemporalExpression true} {name : String} (hnone : e.subtractsColumn = false)
      (hcolumns : e.columns = [name]) (hstart : e.start stored = stored name)
      (htotal : e.total stored = stored name) : Lowered stored e (.sql (.column name) .dateTime)
  | shifted {e : TemporalExpression true} {name : String} {delta : Timedelta}
      (hnone : e.subtractsColumn = false) (hcolumns : e.columns = [name])
      (hstart : e.start stored = stored name)
      (htotal : e.total stored = (stored name).map (· + delta.nanos)) :
      Lowered stored e (.shifted (.column name) delta)
  | raw {e : TemporalExpression true} {x : Expression} (hsome : e.subtractsColumn = true)
      (hraw : IsRaw x e.columns) : Lowered stored e (.sql x .dateTime)
  | rawShifted {e : TemporalExpression true} {x : Expression} {delta : Timedelta}
      (hsome : e.subtractsColumn = true) (hraw : IsRaw x e.columns) :
      Lowered stored e (.shifted x delta)
  | difference {e : TemporalExpression false} {x : Expression} (hsome : e.subtractsColumn = true)
      (hraw : IsRaw x e.columns) : Lowered stored e (.sql x .interval)

/-- The SQL operand that a value is, with its type. -/
def operand? : PyValue → Option (Expression × SqlType)
  | .sql x type => some (x, type)
  | .datetime t => some (bindDatetime t, .dateTime)
  | _ => none

theorem subtractsColumn_eq_false {kind : Bool} {e : TemporalExpression kind} (h : e.columns = []) :
    e.subtractsColumn = false :=
  Bool.eq_false_iff.mpr fun hsome => columns_ne_nil hsome h

section Lowering

variable {stored : String → Option Int} {kind : Bool} {e : TemporalExpression kind} {v w : PyValue}

theorem lowered_operand {x : Expression} {type : SqlType} (h : Lowered stored e v)
    (hoperand : operand? v = some (x, type)) :
    TemporalSql x e.columns ∧ type = if kind then .dateTime else .interval := by
  cases h with
  | datetime hcolumns htotal =>
      obtain ⟨rfl, rfl⟩ := Prod.mk.inj (Option.some.inj hoperand)
      rw [hcolumns]
      exact ⟨.bind _, rfl⟩
  | column hnone hcolumns =>
      obtain ⟨rfl, rfl⟩ := Prod.mk.inj (Option.some.inj hoperand)
      rw [hcolumns]
      exact ⟨.column _, rfl⟩
  | raw hsome hraw =>
      obtain ⟨rfl, rfl⟩ := Prod.mk.inj (Option.some.inj hoperand)
      exact ⟨hraw.1, rfl⟩
  | difference hsome hraw =>
      obtain ⟨rfl, rfl⟩ := Prod.mk.inj (Option.some.inj hoperand)
      exact ⟨hraw.1, rfl⟩
  | _ => cases hoperand

/-- An instant moved by a constant duration. -/
theorem lowered_shift {t e : TemporalExpression true} {delta : Timedelta} (h : Lowered stored t v)
    (hrun : QueryPlanAdapters.SqlAlchemy.shift v delta = .ok w) (hcolumns : e.columns = t.columns)
    (hsubtracts : e.subtractsColumn = t.subtractsColumn) (hstart : e.start stored = t.start stored)
    (htotal : e.total stored = (t.total stored).map (· + delta.nanos)) : Lowered stored e w := by
  cases h with
  | datetime hnil hvalue =>
      rw [QueryPlanAdapters.SqlAlchemy.shift] at hrun
      split at hrun
      · cases hrun
      next shifted hshifted =>
        obtain rfl := Except.ok.inj hrun
        rw [Datetime.ofMicros_eq_some_iff] at hshifted
        refine .datetime (hcolumns.trans hnil) ?_
        rw [htotal, hvalue, Option.map_some, Datetime.nanos, Datetime.nanos, hshifted,
          Timedelta.nanos, Int.add_mul]
  | column hnone hname hfrom hvalue =>
      obtain rfl := Except.ok.inj hrun
      exact .shifted (hsubtracts.trans hnone) (hcolumns.trans hname) (hstart.trans hfrom)
        (by rw [htotal, hvalue])
  | shifted hnone hname hfrom hvalue =>
      obtain ⟨sum, hsum, rfl⟩ := Except.map_eq_ok_iff.mp hrun
      rw [Timedelta.ofMicros_eq_ok_iff] at hsum
      refine .shifted (hsubtracts.trans hnone) (hcolumns.trans hname) (hstart.trans hfrom) ?_
      rw [htotal, hvalue, Option.map_map]
      congr 1
      funext x
      rw [Function.comp_apply, Timedelta.nanos, Timedelta.nanos, Timedelta.nanos, hsum]
      ring
  | raw hsome hraw =>
      obtain rfl := Except.ok.inj hrun
      exact .rawShifted (hsubtracts.trans hsome) (hcolumns ▸ hraw)
  | rawShifted hsome hraw =>
      obtain ⟨sum, -, rfl⟩ := Except.map_eq_ok_iff.mp hrun
      exact .rawShifted (hsubtracts.trans hsome) (hcolumns ▸ hraw)

/-- Without a duration among the operands, Python subtracts two instants, and the rest is SQL. -/
theorem additive_eq_ok {sub : Bool} {c v w : PyValue} (hrun : additive sub c v = .ok w)
    (hc : ∀ d, c ≠ .timedelta d) (hv : ∀ d, v ≠ .timedelta d) :
    (∃ t u, c = .datetime t ∧ v = .datetime u) ∨
      ∃ a left b right, operand? c = some (a, left) ∧ operand? v = some (b, right) ∧
        w = .sql (.arith (arithmeticOperator sub) a b) (.adapt sub left right) := by
  cases c with
  | timedelta d => exact (hc d rfl).elim
  | shifted instant delta =>
      cases v with
      | timedelta d => exact (hv d rfl).elim
      | _ => cases hrun
  | datetime t =>
      cases v with
      | timedelta d => exact (hv d rfl).elim
      | shifted instant delta => cases hrun
      | datetime u => exact .inl ⟨t, u, rfl, rfl⟩
      | sql b right => exact .inr ⟨_, _, _, _, rfl, rfl, (Except.ok.inj hrun).symm⟩
  | sql a left =>
      cases v with
      | timedelta d => exact (hv d rfl).elim
      | shifted instant delta => cases hrun
      | datetime u => exact .inr ⟨_, _, _, _, rfl, rfl, (Except.ok.inj hrun).symm⟩
      | sql b right => exact .inr ⟨_, _, _, _, rfl, rfl, (Except.ok.inj hrun).symm⟩

/-- A sum or difference one of whose operands is left to the database is, too. -/
theorem additive_difference {leftKind rightKind sub : Bool} {c : TemporalExpression leftKind}
    {d : TemporalExpression rightKind} {v v' : PyValue} (hc : Lowered stored c v)
    (hd : Lowered stored d v') (hrun : additive sub v v' = .ok w) (hleft : ∀ d, v ≠ .timedelta d)
    (hright : ∀ d, v' ≠ .timedelta d) (hnot : ¬ ∃ t u, v = .datetime t ∧ v' = .datetime u) :
    ∃ x, IsRaw x (c.columns ++ d.columns) ∧
      w = .sql x (.adapt sub (if leftKind then .dateTime else .interval)
        (if rightKind then .dateTime else .interval)) := by
  obtain h | ⟨a, left, b, right, ha, hb, rfl⟩ := additive_eq_ok hrun hleft hright
  · exact (hnot h).elim
  · obtain ⟨hsqlLeft, rfl⟩ := lowered_operand hc ha
    obtain ⟨hsqlRight, rfl⟩ := lowered_operand hd hb
    exact ⟨_, ⟨.arith _ hsqlLeft hsqlRight, _, _, _, rfl⟩, rfl⟩

theorem instant_ne_timedelta {t : TemporalExpression true} (h : Lowered stored t v) (d : Timedelta) :
    v ≠ .timedelta d := by
  rintro rfl
  cases h

/-- A duration after another value moves it. -/
theorem additive_timedelta {c : PyValue} (hc : ∀ d, c ≠ .timedelta d) (sub : Bool) (d : Timedelta) :
    additive sub c (.timedelta d) =
      (if sub then Timedelta.ofMicros (-d.micros) else .ok d) >>=
        QueryPlanAdapters.SqlAlchemy.shift c := by
  cases c with
  | timedelta c => exact (hc c rfl).elim
  | _ => cases sub <;> rfl

theorem signedSum_eq (sub : Bool) (x y : Int) :
    TemporalValue.signedSum sub x y = x + if sub then -y else y := by
  cases sub with
  | true => exact Int.sub_eq_add_neg
  | false => rfl

variable {readsFraction : Nat → Bool}

/-- What the adapter makes of an expression in CEL's literals. -/
theorem lowered_value (h : e.value readsFraction = .ok v) (hliterals : e.HasLiterals) :
    Lowered stored e v := by
  induction e generalizing v with
  | column name =>
      obtain rfl := Except.ok.inj h
      exact .column rfl rfl rfl rfl
  | timestamp text =>
      obtain ⟨t, ht, rfl⟩ := Except.map_eq_ok_iff.mp h
      obtain ⟨nanos, hnanos⟩ := Option.isSome_iff_exists.mp hliterals
      refine .datetime rfl ?_
      rw [← timestampLiteral_eq ht hnanos]
      exact hnanos
  | duration text =>
      obtain ⟨d, hd, rfl⟩ := Except.map_eq_ok_iff.mp h
      obtain ⟨nanos, hnanos⟩ := Option.isSome_iff_exists.mp hliterals
      refine .timedelta rfl ?_
      rw [← durationLiteral_eq hd hnanos]
      exact hnanos
  | shift sub t d iht ihd =>
      obtain ⟨vt, hvt, h⟩ := Except.bind_eq_ok_iff.mp h
      obtain ⟨vd, hvd, h⟩ := Except.bind_eq_ok_iff.mp h
      have ht := iht hvt hliterals.1
      have hd := ihd hvd hliterals.2
      cases hd with
      | @timedelta _ delta hnil hvalue =>
          rw [additive_timedelta (instant_ne_timedelta ht)] at h
          obtain ⟨moved, hmoved, h⟩ := Except.bind_eq_ok_iff.mp h
          have hnanos : moved.nanos = if sub then -delta.nanos else delta.nanos := by
            cases sub with
            | true =>
                rw [if_pos rfl, Timedelta.ofMicros_eq_ok_iff] at hmoved
                rw [if_pos rfl, Timedelta.nanos, hmoved, Timedelta.nanos, Int.neg_mul]
            | false => rw [Except.ok.inj hmoved, if_neg Bool.false_ne_true]
          refine lowered_shift ht h ?_ ?_ rfl ?_
          · rw [columns, hnil, List.append_nil]
          · rw [subtractsColumn, subtractsColumn_eq_false hnil, Bool.or_false]
          · rw [total, hvalue, hnanos]
            cases t.total stored with
            | none => rfl
            | some x => exact congrArg some (signedSum_eq sub x _)
      | difference hsome hraw =>
          obtain ⟨x, hx, rfl⟩ := additive_difference ht (.difference hsome hraw) h
            (instant_ne_timedelta ht) (fun _ => by simp) (by simp)
          exact .raw (by rw [subtractsColumn, hsome, Bool.or_true]) hx
  | shiftAfter d t ihd iht =>
      obtain ⟨vd, hvd, h⟩ := Except.bind_eq_ok_iff.mp h
      obtain ⟨vt, hvt, h⟩ := Except.bind_eq_ok_iff.mp h
      have ht := iht hvt hliterals.2
      have hd := ihd hvd hliterals.1
      cases hd with
      | @timedelta _ delta hnil hvalue =>
          have hadd : additive false (.timedelta delta) vt =
              QueryPlanAdapters.SqlAlchemy.shift vt delta := by
            cases ht <;> rfl
          rw [hadd] at h
          refine lowered_shift ht h ?_ ?_ rfl ?_
          · rw [columns, hnil, List.nil_append]
          · rw [subtractsColumn, subtractsColumn_eq_false hnil, Bool.false_or]
          · rw [total, hvalue]
            cases t.total stored with
            | none => rfl
            | some x => exact congrArg some (Int.add_comm _ _)
      | difference hsome hraw =>
          obtain ⟨x, hx, rfl⟩ := additive_difference (.difference hsome hraw) ht h
            (fun _ => by simp) (instant_ne_timedelta ht) (by simp)
          exact .raw (by rw [subtractsColumn, hsome, Bool.true_or]) hx
  | combine sub d e ihd ihe =>
      obtain ⟨vd, hvd, h⟩ := Except.bind_eq_ok_iff.mp h
      obtain ⟨ve, hve, h⟩ := Except.bind_eq_ok_iff.mp h
      have hd := ihd hvd hliterals.1
      have he := ihe hve hliterals.2
      cases hd with
      | timedelta hnil hvalue =>
          cases he with
          | timedelta hnil' hvalue' =>
              obtain ⟨sum, hsum, rfl⟩ := Except.map_eq_ok_iff.mp h
              rw [Timedelta.ofMicros_eq_ok_iff] at hsum
              refine .timedelta (by rw [columns, hnil, hnil', List.append_nil]) ?_
              rw [total, hvalue, hvalue']
              refine congrArg some ?_
              rw [signedSum_eq] at hsum ⊢
              rw [Timedelta.nanos, Timedelta.nanos, Timedelta.nanos, hsum]
              split <;> ring
          | difference hsome hraw => cases sub <;> cases h
      | difference hsome hraw =>
          cases he with
          | timedelta hnil' hvalue' =>
              rw [additive_timedelta (fun _ => by simp)] at h
              obtain ⟨moved, hmoved, h⟩ := Except.bind_eq_ok_iff.mp h
              cases h
          | difference hsome' hraw' =>
              have hleft : Lowered stored d _ := .difference hsome hraw
              have hright : Lowered stored e _ := .difference hsome' hraw'
              obtain ⟨x, hx, rfl⟩ := additive_difference hleft hright h (fun _ => by simp)
                (fun _ => by simp) (by simp)
              exact .difference (by rw [subtractsColumn, hsome, Bool.true_or]) hx
  | between t u iht ihu =>
      obtain ⟨vt, hvt, h⟩ := Except.bind_eq_ok_iff.mp h
      obtain ⟨vu, hvu, h⟩ := Except.bind_eq_ok_iff.mp h
      have ht := iht hvt hliterals.1
      have hu := ihu hvu hliterals.2
      by_cases hboth : ∃ t u, vt = .datetime t ∧ vu = .datetime u
      · obtain ⟨t', u', rfl, rfl⟩ := hboth
        cases ht with
        | datetime hnil hvalue =>
            cases hu with
            | datetime hnil' hvalue' =>
                obtain ⟨delta, hdelta, rfl⟩ := Except.map_eq_ok_iff.mp h
                rw [Timedelta.ofMicros_eq_ok_iff] at hdelta
                refine .timedelta (by rw [columns, hnil, hnil', List.append_nil]) ?_
                rw [total, hvalue, hvalue']
                refine congrArg some ?_
                rw [Timedelta.nanos, hdelta, Datetime.nanos, Datetime.nanos, Int.sub_mul]
      · obtain ⟨x, hx, rfl⟩ := additive_difference ht hu h (instant_ne_timedelta ht)
          (instant_ne_timedelta hu) hboth
        refine .difference ?_ hx
        have hreads : ∀ {t : TemporalExpression true} {v : PyValue}, Lowered stored t v →
            (∀ t', v ≠ .datetime t') → t.columns ≠ [] := by
          intro t v ht hne
          cases ht with
          | datetime hnil hvalue => exact (hne _ rfl).elim
          | column hnone hcolumns => simp [hcolumns]
          | shifted hnone hcolumns => simp [hcolumns]
          | raw hsome hraw => exact columns_ne_nil hsome
          | rawShifted hsome hraw => exact columns_ne_nil hsome
        rw [subtractsColumn, Bool.not_eq_true', List.isEmpty_eq_false_iff]
        by_cases hfirst : ∃ t', vt = .datetime t'
        · obtain ⟨t', rfl⟩ := hfirst
          exact List.append_ne_nil_of_right_ne_nil _
            (hreads hu fun u' hu' => hboth ⟨t', u', rfl, hu'⟩)
        · exact List.append_ne_nil_of_left_ne_nil
            (hreads ht fun t' ht' => hfirst ⟨t', ht'⟩) _

end Lowering

/-! ## The predicate -/

/-- What an engine makes of a sum or difference with NULL. -/
def PropagatesNull (engine : Engine) : Prop :=
  ∀ op a b, (a.isNull || b.isNull) = true → engine.arith op a b = .null

/-- An expression moved by constant durations, as the adapter keeps it. -/
inductive Moved : PyValue → Expression → (nanos : Int) → Prop where
  | still (x : Expression) (type : SqlType) : Moved (.sql x type) x 0
  | shifted (x : Expression) (delta : Timedelta) : Moved (.shifted x delta) x delta.nanos

/-- The guard of a shifted timestamp. -/
def Guard (nanos delta : Int) : Prop :=
  (0 < delta → nanos + delta ≤ lastMicrosecond) ∧ (delta < 0 → minTimestampNanos ≤ nanos + delta)

instance (nanos delta : Int) : Decidable (Guard nanos delta) :=
  inferInstanceAs (Decidable (_ ∧ _))

/-- The operator with the expression on its left. -/
def sided (operator : ComparisonOperator) (literalFirst : Bool) : ComparisonOperator :=
  if literalFirst then operator.mirrored else operator

section Predicate

variable {engine : Engine} {row : Row} {operator : ComparisonOperator} {literalFirst : Bool}
  {other : Datetime} {v : PyValue} {x p : Expression} {delta : Int}

theorem test_sided (operator : ComparisonOperator) (literalFirst : Bool) (n m : Int) :
    (if literalFirst then operator.test (.finite m) (.finite n)
      else operator.test (.finite n) (.finite m)) =
        (sided operator literalFirst).test (.finite n) (.finite m) := by
  cases literalFirst with
  | false => rfl
  | true => exact (test_mirrored operator _ _).symm

/-- The comparison that a translated operand ends in. -/
theorem compareLeaf_moved (hmoved : Moved v x delta)
    (h : (if literalFirst then compareLeaf operator (.datetime other) v
      else compareLeaf operator v (.datetime other)) = .ok p) :
    (delta = 0 ∧ p = if literalFirst then .compare operator (bindDatetime other) x
        else .compare operator x (bindDatetime other)) ∨
      ∃ d : Timedelta, d.nanos = delta ∧
        compareShiftedWith (sided operator literalFirst) x d (.datetime other) = .ok p := by
  cases hmoved with
  | still x type =>
      refine .inl ⟨rfl, ?_⟩
      cases literalFirst <;> exact (Except.ok.inj h).symm
  | shifted x d =>
      refine .inr ⟨d, rfl, ?_⟩
      cases literalFirst <;> exact h

theorem truth_compare_time {n m : Int} {a b : Expression} (ha : a.eval engine row = .time n)
    (hb : b.eval engine row = .time m) (operator : ComparisonOperator) :
    (Expression.compare operator a b).truth engine row =
      .ofBool (operator.test (.finite n) (.finite m)) := by
  rw [Expression.truth_compare, ha, hb]
  rfl

/-- Comparing a column with the literal moved back is comparing the moved column. -/
theorem test_movedBack (operator : ComparisonOperator) (n d : Int) :
    operator.test (.finite n) (.finite (other.nanos - d : Int)) =
      operator.test (.finite (n + d : Int)) (.finite other.nanos) := by
  apply test_finite_iff
  · constructor <;> intro h <;> omega
  · constructor <;> intro h <;> omega

theorem test_le_iff {n m : Int} :
    ComparisonOperator.le.test (.finite n) (.finite m) = true ↔ n ≤ m := by
  simp [ComparisonOperator.test]

theorem test_ge_iff {n m : Int} :
    ComparisonOperator.ge.test (.finite n) (.finite m) = true ↔ m ≤ n := by
  simp [ComparisonOperator.test]

/-- A comparison under a guard. -/
theorem truth_guarded {guard comparison : Expression} {holds result : Bool} {condition : Prop}
    [Decidable condition] (hguard : guard.truth engine row = .ofBool holds)
    (hcomparison : comparison.truth engine row = .ofBool result) (h : holds = true ↔ condition) :
    (Expression.onlyWhen guard comparison).truth engine row =
      if condition then .ofBool result else .unknown := by
  rw [Expression.truth_onlyWhen, hcomparison]
  by_cases hcondition : condition
  · rw [if_pos hcondition, if_pos]
    rw [hguard, h.mpr hcondition]
    rfl
  · rw [if_neg hcondition, if_neg]
    rw [hguard, Truth.ofBool_eq_yes_iff, h]
    exact hcondition

/-- Where the operand is NULL, the predicate is UNKNOWN. -/
theorem truth_moved_null (hmoved : Moved v x delta)
    (h : (if literalFirst then compareLeaf operator (.datetime other) v
      else compareLeaf operator v (.datetime other)) = .ok p)
    (hx : x.eval engine row = .null) : p.truth engine row = .unknown := by
  obtain ⟨-, rfl⟩ | ⟨d, -, hrun⟩ := compareLeaf_moved hmoved h
  · cases literalFirst <;> simp [hx]
  · rw [compareShiftedWith] at hrun
    split at hrun
    · cases hrun
    next bound hbound =>
      dsimp only at hrun
      split at hrun
      · split at hrun <;> obtain rfl := Except.ok.inj hrun
        · rfl
        · rw [Expression.truth_onlyWhen, Expression.truth_compare, hx, Engine.compare_null_left]
          rfl
      · split at hrun
        · split at hrun <;> obtain rfl := Except.ok.inj hrun
          · rfl
          · rw [Expression.truth_onlyWhen, Expression.truth_compare, hx, Engine.compare_null_left]
            rfl
        · obtain rfl := Except.ok.inj hrun
          simp [hx]

/-- Elsewhere it is the comparison of the moved operand, where the guard holds. -/
theorem truth_moved (hmoved : Moved v x delta)
    (h : (if literalFirst then compareLeaf operator (.datetime other) v
      else compareLeaf operator v (.datetime other)) = .ok p)
    {n : Int} (hx : x.eval engine row = .time n) :
    p.truth engine row = if Guard n delta then
      .ofBool ((sided operator literalFirst).test (.finite (n + delta : Int)) (.finite other.nanos))
      else .unknown := by
  have hother : (bindDatetime other).eval engine row = .time other.nanos := rfl
  obtain ⟨rfl, rfl⟩ | ⟨d, rfl, hrun⟩ := compareLeaf_moved hmoved h
  · have hguard : Guard n 0 := ⟨fun h => absurd h (lt_irrefl 0), fun h => absurd h (lt_irrefl 0)⟩
    rw [if_pos hguard, Int.add_zero, ← test_sided]
    cases literalFirst with
    | true => exact truth_compare_time hother hx operator
    | false => exact truth_compare_time hx hother operator
  · rw [compareShiftedWith] at hrun
    split at hrun
    · cases hrun
    next bound hbound =>
      rw [Datetime.ofMicros_eq_some_iff] at hbound
      have hcomparison : (Expression.compare (sided operator literalFirst) x
          (bindDatetime bound)).truth engine row = .ofBool ((sided operator literalFirst).test
            (.finite (n + d.nanos : Int)) (.finite other.nanos)) := by
        have hback : bound.nanos = other.nanos - d.nanos := by
          rw [Datetime.nanos, Datetime.nanos, Timedelta.nanos, hbound, Int.sub_mul]
        rw [truth_compare_time hx rfl, hback, test_movedBack]
      have hbounds := bound.inRange
      have hothers := other.inRange
      have hnanos : d.nanos = d.micros * 1000 := rfl
      have hlast : lastMicrosecond = maxMicros * 1000 := rfl
      have hfirst : minTimestampNanos = minMicros * 1000 := rfl
      dsimp only at hrun
      split at hrun
      next hpositive =>
        split at hrun
        next hnone =>
          rw [Datetime.ofMicros, dif_pos (by omega)] at hnone
          cases hnone
        next limit hlimit =>
          obtain rfl := Except.ok.inj hrun
          rw [Datetime.ofMicros_eq_some_iff] at hlimit
          refine truth_guarded (truth_compare_time hx rfl _) hcomparison ?_
          rw [test_le_iff, Datetime.nanos, hlimit]
          constructor
          · intro hle
            exact ⟨fun _ => by omega, fun _ => by omega⟩
          · rintro ⟨hle, -⟩
            have := hle (by omega)
            omega
      next hpositive =>
        split at hrun
        next hnegative =>
          split at hrun
          next hnone =>
            rw [Datetime.ofMicros, dif_pos (by omega)] at hnone
            cases hnone
          next limit hlimit =>
            obtain rfl := Except.ok.inj hrun
            rw [Datetime.ofMicros_eq_some_iff] at hlimit
            refine truth_guarded (truth_compare_time hx rfl _) hcomparison ?_
            rw [test_ge_iff, Datetime.nanos, hlimit]
            constructor
            · intro hge
              exact ⟨fun _ => by omega, fun _ => by omega⟩
            · rintro ⟨-, hge⟩
              have := hge (by omega)
              omega
        next hnegative =>
          obtain rfl := Except.ok.inj hrun
          rw [hcomparison, if_pos ⟨fun _ => by omega, fun _ => by omega⟩]

end Predicate

/-! ## Sums left to the database -/

section Raw

variable {engine : Engine} {row : Row} {x : Expression} {columns : List String}

theorem eval_temporalSql_null (hx : TemporalSql x columns) (hengine : PropagatesNull engine)
    {name : String} (hname : name ∈ columns) (hnull : row name = .null) :
    x.eval engine row = .null := by
  induction hx with
  | column name' =>
      obtain rfl := List.mem_singleton.mp hname
      exact hnull
  | bind t => cases hname
  | arith op ha hb iha ihb =>
      rw [Expression.eval]
      apply hengine
      obtain h | h := List.mem_append.mp hname
      · rw [iha h]
        rfl
      · rw [ihb h, Bool.or_eq_true]
        exact .inr rfl

/-- An engine that answers every sum of two values alike. -/
def constantEngine (value : SqlValue) : Engine :=
  { Engine.bare with arith := fun _ a b => if a.isNull || b.isNull then .null else value }

theorem constantEngine_propagatesNull (value : SqlValue) : PropagatesNull (constantEngine value) :=
  fun _ _ _ h => if_pos h

theorem eval_temporalSql_ne_null (nanos : Int) (hx : TemporalSql x columns)
    (hpresent : ∀ name ∈ columns, (row name).isNull = false) :
    (x.eval (constantEngine (.time nanos)) row).isNull = false := by
  induction hx with
  | column name => exact hpresent name (List.mem_singleton_self _)
  | bind t => rfl
  | arith op ha hb iha ihb =>
      have hleft := iha fun name h => hpresent name (List.mem_append_left _ h)
      have hright := ihb fun name h => hpresent name (List.mem_append_right _ h)
      rw [Expression.eval, constantEngine]
      dsimp only
      rw [← constantEngine, hleft, hright]
      rfl

/-- On present columns it is what the engine answers, NULL at will. -/
theorem eval_raw (hraw : IsRaw x columns) (hpresent : ∀ name ∈ columns, (row name).isNull = false)
    (nanos : Int) :
    x.eval (constantEngine .null) row = .null ∧
      x.eval (constantEngine (.time nanos)) row = .time nanos := by
  obtain ⟨hx, op, a, b, rfl⟩ := hraw
  constructor
  · rw [Expression.eval, constantEngine]
    exact ite_self _
  · have hnull : (Expression.arith op a b).eval (constantEngine (.time nanos)) row = .null ∨
        (Expression.arith op a b).eval (constantEngine (.time nanos)) row = .time nanos := by
      rw [Expression.eval, constantEngine]
      dsimp only
      split
      · exact .inl rfl
      · exact .inr rfl
    obtain hnull | hvalue := hnull
    · have hpresent' := eval_temporalSql_ne_null nanos hx hpresent
      rw [hnull] at hpresent'
      cases hpresent'
    · exact hvalue

end Raw

/-! ## The guard and CEL -/

/-- The instants of a row. -/
def storedInstants (row : Row) (name : String) : Option Int :=
  match row name with
  | .time nanos => some nanos
  | _ => none

/-- The columns hold instants of CEL's range, or NULL. -/
def StoresInstants (row : Row) (columns : List String) : Prop :=
  ∀ name ∈ columns, row name = .null ∨ ∃ nanos, row name = .time nanos ∧ inTimestampRange nanos = true

section Exact

variable {stored : String → Option Int} {e : TemporalExpression true} {row : Row}
  {operator : ComparisonOperator} {literal : String} {literalFirst : Bool}

/-- CEL's instants are in its range. -/
theorem nanos?_inRange {n : Int}
    (hstored : ∀ name ∈ e.columns, ∀ m, stored name = some m → inTimestampRange m = true)
    (h : e.nanos? stored = some n) : inTimestampRange n = true := by
  cases e with
  | column name => exact hstored name (List.mem_singleton_self _) n h
  | timestamp text => exact (Option.filter_eq_some_iff.mp h).2
  | shift sub t d =>
      obtain ⟨x, -, h⟩ := Option.bind_eq_some_iff.mp h
      obtain ⟨y, -, h⟩ := Option.bind_eq_some_iff.mp h
      obtain ⟨rfl, hrange⟩ := inRange?_eq_some_iff.mp h
      exact hrange
  | shiftAfter d t =>
      obtain ⟨x, -, h⟩ := Option.bind_eq_some_iff.mp h
      obtain ⟨y, -, h⟩ := Option.bind_eq_some_iff.mp h
      obtain ⟨rfl, hrange⟩ := inRange?_eq_some_iff.mp h
      exact hrange

theorem start_isSome {kind : Bool} {e : TemporalExpression kind} (hkind : kind = true)
    (htotal : (e.total stored).isSome = true) : (e.start stored).isSome = true := by
  induction e with
  | column name => exact htotal
  | timestamp text => exact htotal
  | duration text => cases hkind
  | shift sub t d iht ihd =>
      apply iht rfl
      rw [total] at htotal
      cases ht : t.total stored with
      | none =>
          rw [ht] at htotal
          cases htotal
      | some x => rfl
  | shiftAfter d t ihd iht =>
      apply iht rfl
      rw [total] at htotal
      cases ht : t.total stored with
      | none =>
          rw [ht] at htotal
          cases hd : d.total stored <;> rw [hd] at htotal <;> cases htotal
      | some x => rfl
  | combine sub d e => cases hkind
  | between t u => cases hkind

/-- Of a sum that the adapter makes itself, the guard has to hold exactly where CEL has it. -/
theorem guardSuffices_iff {begin_ sum : Int} (hnone : e.subtractsColumn = false)
    (hstored : ∀ name ∈ e.columns, ∀ m, stored name = some m → inTimestampRange m = true)
    (hstart : e.start stored = some begin_) (htotal : e.total stored = some sum) :
    GuardSuffices e stored ↔ ((e.nanos? stored).isSome = true ↔
      inTimestampRange sum = true ∧ (begin_ < sum → sum ≤ lastMicrosecond)) := by
  constructor
  · intro h
    constructor
    · intro hsome
      obtain ⟨n, hn⟩ := Option.isSome_iff_exists.mp hsome
      obtain rfl := Option.some.inj ((total_of_nanos? hn).symm.trans htotal)
      exact ⟨nanos?_inRange hstored hn, h.lastSum _ _ hnone hstart hn⟩
    · rintro ⟨hrange, hlast⟩
      exact h.sums _ _ hnone hstart htotal hrange hlast
  · intro h
    refine ⟨fun hsome => ?_, fun start total _ hs ht hrange hlast => ?_,
      fun start total _ hs hn => ?_⟩
    · rw [hnone] at hsome
      cases hsome
    · obtain rfl := Option.some.inj (hstart.symm.trans hs)
      obtain rfl := Option.some.inj (htotal.symm.trans ht)
      exact h.mpr ⟨hrange, hlast⟩
    · obtain rfl := Option.some.inj (hstart.symm.trans hs)
      obtain rfl := Option.some.inj ((total_of_nanos? hn).symm.trans htotal)
      exact (h.mp (by rw [hn]; rfl)).2

/-- A sum that is not there is an error, and nothing is left to guard. -/
theorem guardSuffices_of_missing {name : String} (hname : name ∈ e.columns)
    (hnull : stored name = none) : GuardSuffices e stored := by
  have htotal := total_eq_none hname hnull
  refine ⟨fun _ => ⟨name, hname, hnull⟩, fun start total _ _ ht => ?_, fun start total _ _ hn => ?_⟩
  · rw [htotal] at ht
    cases ht
  · rw [total_of_nanos? hn] at htotal
    cases htotal

theorem comparisonTruth_eq {m : Int} (hliteral : parseRfc3339Timestamp literal = some m) :
    e.comparisonTruth stored operator literal literalFirst =
      (e.nanos? stored).elim .unknown fun n =>
        .ofBool ((sided operator literalFirst).test (.finite n) (.finite m)) := by
  rw [comparisonTruth, hliteral]
  cases e.nanos? stored with
  | none => rfl
  | some n => exact congrArg Truth.ofBool (test_sided operator literalFirst n m)

theorem comparisonTruth_missing {name : String} (hname : name ∈ e.columns)
    (hnull : stored name = none) :
    e.comparisonTruth stored operator literal literalFirst = .unknown := by
  have hnanos : e.nanos? stored = none := by
    cases hn : e.nanos? stored with
    | none => rfl
    | some n =>
        have htotal := total_of_nanos? hn
        rw [total_eq_none hname hnull] at htotal
        cases htotal
  rw [comparisonTruth, hnanos]

/-- A predicate that compares the exact sum under a guard is CEL's comparison when the guard
holds exactly where CEL has the sum. -/
theorem exact_iff_guard {p : Expression} {sum m : Int} {guard : Prop} [Decidable guard]
    (hliteral : parseRfc3339Timestamp literal = some m) (htotal : e.total stored = some sum)
    (htruth : ∀ engine, p.truth engine row = if guard then
      .ofBool ((sided operator literalFirst).test (.finite sum) (.finite m)) else .unknown) :
    (∀ engine, PropagatesNull engine →
        p.truth engine row = e.comparisonTruth stored operator literal literalFirst) ↔
      ((e.nanos? stored).isSome = true ↔ guard) := by
  have hengine := constantEngine_propagatesNull .null
  simp only [htruth, comparisonTruth_eq hliteral]
  cases hn : e.nanos? stored with
  | none =>
      rw [Option.elim_none, Option.isSome_none]
      by_cases hguard : guard
      · simp only [if_pos hguard, hguard, iff_true, Bool.false_eq_true, iff_false, not_forall]
        exact ⟨_, hengine, Truth.ofBool_ne_unknown _⟩
      · simp [hguard]
  | some n =>
      obtain rfl := Option.some.inj ((total_of_nanos? hn).symm.trans htotal)
      rw [Option.elim_some, Option.isSome_some]
      by_cases hguard : guard
      · simp [hguard]
      · simp only [if_neg hguard, hguard, iff_false, not_true_eq_false, not_forall]
        exact ⟨_, hengine, (Truth.ofBool_ne_unknown _).symm⟩

theorem storedInstants_eq_some {name : String} {nanos : Int} :
    storedInstants row name = some nanos ↔ row name = .time nanos := by
  rw [storedInstants]
  cases row name with
  | time n => simp
  | _ => simp

theorem storedInstants_of_null {name : String} (h : row name = .null) :
    storedInstants row name = none := by
  rw [storedInstants, h]

theorem inRange_of_stores (hrow : StoresInstants row e.columns) :
    ∀ name ∈ e.columns, ∀ m, storedInstants row name = some m → inTimestampRange m = true := by
  intro name hname m hm
  rw [storedInstants_eq_some] at hm
  obtain hnull | ⟨nanos, htime, hrange⟩ := hrow name hname
  · rw [hnull] at hm
    cases hm
  · obtain rfl := SqlValue.time.inj (htime.symm.trans hm)
    exact hrange

section Cases

variable {v : PyValue} {other : Datetime} {delta : Int} {p : Expression}

/-- A column that the adapter keeps with its shift. -/
theorem exact_iff_of_column {name : String} (hmoved : Moved v (.column name) delta)
    (hnone : e.subtractsColumn = false) (hcolumns : e.columns = [name])
    (hstart : e.start (storedInstants row) = storedInstants row name)
    (htotal : e.total (storedInstants row) = (storedInstants row name).map (· + delta))
    (hrow : StoresInstants row e.columns)
    (hliteral : parseRfc3339Timestamp literal = some other.nanos)
    (h : (if literalFirst then compareLeaf operator (.datetime other) v
      else compareLeaf operator v (.datetime other)) = .ok p) :
    (∀ engine, PropagatesNull engine → p.truth engine row =
        e.comparisonTruth (storedInstants row) operator literal literalFirst) ↔
      GuardSuffices e (storedInstants row) := by
  have hname : name ∈ e.columns := hcolumns ▸ List.mem_singleton_self _
  obtain hnull | ⟨nanos, htime, hrange⟩ := hrow name hname
  · have hmissing := storedInstants_of_null hnull
    refine iff_of_true (fun engine _ => ?_) (guardSuffices_of_missing hname hmissing)
    rw [truth_moved_null hmoved h hnull, comparisonTruth_missing hname hmissing]
  · have hstored := storedInstants_eq_some.mpr htime
    rw [hstored] at hstart htotal
    rw [exact_iff_guard hliteral htotal fun engine => truth_moved hmoved h htime,
      guardSuffices_iff hnone (inRange_of_stores hrow) hstart htotal]
    -- A timestamp of the range only leaves it in the direction of the shift.
    rw [inTimestampRange, Bool.and_eq_true, decide_eq_true_eq, decide_eq_true_eq] at hrange
    have hlast : lastMicrosecond ≤ maxTimestampNanos := by decide
    have hguard : Guard nanos delta ↔ inTimestampRange (nanos + delta) = true ∧
        (nanos < nanos + delta → nanos + delta ≤ lastMicrosecond) := by
      rw [inTimestampRange, Bool.and_eq_true, decide_eq_true_eq, decide_eq_true_eq]
      constructor
      · rintro ⟨hafter, hbefore⟩
        refine ⟨⟨?_, ?_⟩, fun hlt => hafter (by omega)⟩
        · obtain hdelta | hdelta := lt_or_ge delta 0
          · exact hbefore hdelta
          · omega
        · obtain hdelta | hdelta := lt_or_ge 0 delta
          · exact (hafter hdelta).trans hlast
          · omega
      · rintro ⟨⟨hfirst, -⟩, hafter⟩
        exact ⟨fun hdelta => hafter (by omega), fun _ => hfirst⟩
    rw [hguard]

/-- A sum that the database makes: it is exact only where it is NULL. -/
theorem exact_iff_of_raw {x : Expression} (hmoved : Moved v x delta)
    (hsome : e.subtractsColumn = true) (hraw : IsRaw x e.columns)
    (hrow : StoresInstants row e.columns)
    (h : (if literalFirst then compareLeaf operator (.datetime other) v
      else compareLeaf operator v (.datetime other)) = .ok p) :
    (∀ engine, PropagatesNull engine → p.truth engine row =
        e.comparisonTruth (storedInstants row) operator literal literalFirst) ↔
      GuardSuffices e (storedInstants row) := by
  by_cases hmissing : ∃ name ∈ e.columns, row name = .null
  · obtain ⟨name, hname, hnull⟩ := hmissing
    have hstored := storedInstants_of_null hnull
    refine iff_of_true (fun engine hengine => ?_) (guardSuffices_of_missing hname hstored)
    rw [truth_moved_null hmoved h (eval_temporalSql_null hraw.1 hengine hname hnull),
      comparisonTruth_missing hname hstored]
  · have hpresent : ∀ name ∈ e.columns, (row name).isNull = false := by
      intro name hname
      obtain hnull | ⟨nanos, htime, -⟩ := hrow name hname
      · exact (hmissing ⟨name, hname, hnull⟩).elim
      · rw [htime]
        rfl
    refine iff_of_false (fun hexact => ?_) (fun hsuffices => ?_)
    · -- One engine answers NULL, another an instant at which the guard holds.
      obtain ⟨hnull, htime⟩ := eval_raw hraw hpresent (other.nanos - delta)
      have hfirst := hexact _ (constantEngine_propagatesNull .null)
      have hsecond := hexact _ (constantEngine_propagatesNull (.time (other.nanos - delta)))
      have hguard : Guard (other.nanos - delta) delta := by
        have hrange := other.inRange
        have hnanos : other.nanos = other.micros * 1000 := rfl
        have hlast : lastMicrosecond = maxMicros * 1000 := rfl
        have hfirst : minTimestampNanos = minMicros * 1000 := rfl
        exact ⟨fun _ => by omega, fun _ => by omega⟩
      rw [truth_moved_null hmoved h hnull] at hfirst
      rw [truth_moved hmoved h htime, if_pos hguard, ← hfirst] at hsecond
      exact Truth.ofBool_ne_unknown _ hsecond
    · obtain ⟨name, hname, hnone⟩ := hsuffices.differences hsome
      obtain hnull | ⟨nanos, htime, -⟩ := hrow name hname
      · exact hmissing ⟨name, hname, hnull⟩
      · rw [storedInstants_eq_some.mpr htime] at hnone
        cases hnone

end Cases

/-- On every engine the predicate has the truth of CEL's comparison exactly in the rows where a
guard on the last sum is enough. -/
theorem comparison_exact_iff {readsFraction : Nat → Bool} {p : Expression}
    (hliterals : e.HasLiterals) (hliteral : (parseRfc3339Timestamp literal).isSome = true)
    (hrow : StoresInstants row e.columns)
    (h : e.comparison readsFraction operator literal literalFirst = .ok p) :
    (∀ engine, PropagatesNull engine → p.truth engine row =
        e.comparisonTruth (storedInstants row) operator literal literalFirst) ↔
      GuardSuffices e (storedInstants row) := by
  obtain ⟨v, hv, h⟩ := Except.bind_eq_ok_iff.mp h
  obtain ⟨other, hother, h⟩ := Except.bind_eq_ok_iff.mp h
  obtain ⟨nanos, hnanos⟩ := Option.isSome_iff_exists.mp hliteral
  obtain rfl := timestampLiteral_eq hother hnanos
  have hlowered : Lowered (storedInstants row) e v := lowered_value hv hliterals
  cases hlowered with
  | @datetime _ t hcolumns htotal =>
      obtain ⟨begin_, hstart⟩ :=
        Option.isSome_iff_exists.mp (start_isSome rfl (by rw [htotal]; rfl))
      have htruth : ∀ engine, p.truth engine row = if True then
          .ofBool ((sided operator literalFirst).test (.finite t.nanos) (.finite other.nanos))
          else .unknown := by
        intro engine
        rw [if_pos trivial, ← test_sided]
        cases literalFirst with
        | true =>
            obtain rfl := Except.ok.inj h
            rfl
        | false =>
            obtain rfl := Except.ok.inj h
            rfl
      rw [exact_iff_guard hnanos htotal htruth, guardSuffices_iff
        (subtractsColumn_eq_false hcolumns) (inRange_of_stores hrow) hstart htotal]
      have hrange := t.inRange
      have hfits : inTimestampRange t.nanos = true ∧
          (begin_ < t.nanos → t.nanos ≤ lastMicrosecond) := by
        have ht : t.nanos = t.micros * 1000 := rfl
        have hlast : lastMicrosecond = maxMicros * 1000 := rfl
        have hfirst : minTimestampNanos = minMicros * 1000 := rfl
        have hmax : maxTimestampNanos = maxMicros * 1000 + 999 := rfl
        rw [inTimestampRange, Bool.and_eq_true, decide_eq_true_eq, decide_eq_true_eq]
        omega
      rw [iff_true_intro hfits]
  | column hnone hcolumns hstart htotal =>
      refine exact_iff_of_column (.still _ _) hnone hcolumns hstart ?_ hrow hnanos h
      simp [htotal]
  | shifted hnone hcolumns hstart htotal =>
      exact exact_iff_of_column (.shifted _ _) hnone hcolumns hstart htotal hrow hnanos h
  | raw hsome hraw => exact exact_iff_of_raw (.still _ _) hsome hraw hrow h
  | rawShifted hsome hraw => exact exact_iff_of_raw (.shifted _ _) hsome hraw hrow h

end Exact

/-! ## A day forward and back at the end of the range -/

/-- `timestamp(due) + duration("86400s") - duration("86400s")` -/
def thereAndBack : TemporalExpression true :=
  shift true (shift false (column "due") (duration "86400s")) (duration "86400s")

/-- Due at noon of the last day. -/
def lastDay : Row := fun _ => .time 253402257600000000000

theorem thereAndBack_hasLiterals : thereAndBack.HasLiterals := by
  have hday : (GoTime.parseDuration "86400s").isSome = true := by decide
  exact ⟨⟨trivial, hday⟩, hday⟩

theorem lastDay_storesInstants : StoresInstants lastDay thereAndBack.columns :=
  fun _ _ => .inr ⟨_, rfl, by decide⟩

/-- The predicate of `thereAndBack >= timestamp("2024-01-01T00:00:00Z")`. -/
def thereAndBackPredicate : Expression :=
  .compare .ge (.column "due") (.literal (.time 1704067200000000000))

theorem comparison_thereAndBack :
    thereAndBack.comparison (fun _ => true) .ge "2024-01-01T00:00:00Z" false =
      .ok thereAndBackPredicate := by
  decide

theorem thereAndBack_granted :
    thereAndBack.HasLiterals ∧ StoresInstants lastDay thereAndBack.columns ∧
      thereAndBack.comparison (fun _ => true) .ge "2024-01-01T00:00:00Z" false =
        .ok thereAndBackPredicate ∧
      thereAndBackPredicate.truth Engine.bare lastDay = .yes ∧
      thereAndBack.comparisonTruth (storedInstants lastDay) .ge "2024-01-01T00:00:00Z" false =
        .unknown :=
  ⟨thereAndBack_hasLiterals, lastDay_storesInstants, comparison_thereAndBack, by decide,
    by decide⟩

theorem comparison_exact_iff_thereAndBack :
    (∀ engine, PropagatesNull engine → thereAndBackPredicate.truth engine lastDay =
        thereAndBack.comparisonTruth (storedInstants lastDay) .ge "2024-01-01T00:00:00Z" false) ↔
      GuardSuffices thereAndBack (storedInstants lastDay) :=
  comparison_exact_iff thereAndBack_hasLiterals (by decide) lastDay_storesInstants
    comparison_thereAndBack

end TemporalExpression

end QueryPlanAdapters.SqlAlchemy
