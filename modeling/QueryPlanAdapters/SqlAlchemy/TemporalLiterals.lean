import QueryPlanAdapters.Cel.DigitTexts
import QueryPlanAdapters.Cel.DurationLiterals
import QueryPlanAdapters.Logic.Exception
import Mathlib.Tactic.Ring

/-!
# SQLAlchemy: timestamp and duration literals

Python's instants and durations are whole microseconds, in ranges of their own: a `datetime`
is one of the years 1 to 9999, and a `timedelta` has fewer than a billion days. The adapter
reads a literal of either kind into one, or refuses it.
-/

namespace QueryPlanAdapters.SqlAlchemy

/-- What `UnsupportedPlanError` is raised for. -/
inductive Refusal where
  | invalidTimestamp (value : String)
  | timestampPrecision (value : String)
  | timestampRange (value : String)
  | invalidDuration (value : String)
  | durationPrecision (value : String)
  | sumRange
  | boundRange
  | durationWithoutTimestamp
  | temporalArithmetic
  | twoShiftedColumns
  | shiftedAgainstColumn
  | durationAgainstOther
  deriving DecidableEq, Repr

/-- An exception: the adapter's own, or one of Python's that nothing catches. -/
inductive Failure where
  | unsupported (refusal : Refusal)
  | overflowError
  | typeError
  deriving DecidableEq, Repr

/-! ## Python's instants and durations -/

/-- The microseconds of `datetime.min` and `datetime.max` in UTC. -/
def minMicros : Int := -62135596800000000

def maxMicros : Int := 253402300799999999

/-- A `datetime` in UTC, as the microseconds from 1970-01-01T00:00:00Z. -/
structure Datetime where
  micros : Int
  inRange : minMicros ≤ micros ∧ micros ≤ maxMicros
  deriving DecidableEq

namespace Datetime

/-- The `datetime` of an exact sum, none for an `OverflowError`. -/
def ofMicros (micros : Int) : Option Datetime :=
  if h : minMicros ≤ micros ∧ micros ≤ maxMicros then some ⟨micros, h⟩ else none

def nanos (t : Datetime) : Int := t.micros * 1000

theorem ofMicros_eq_some_iff {micros : Int} {t : Datetime} :
    ofMicros micros = some t ↔ t.micros = micros := by
  rw [ofMicros]
  constructor
  · intro h
    split at h
    next => exact congrArg Datetime.micros (Option.some.inj h).symm
    next => cases h
  · rintro rfl
    exact dif_pos t.inRange

end Datetime

/-- A `timedelta`, from `-999999999 days` to `999999999 days, 23:59:59.999999`. -/
structure Timedelta where
  micros : Int
  inRange : -86399999913600000000 ≤ micros ∧ micros ≤ 86399999999999999999
  deriving DecidableEq

namespace Timedelta

def ofMicros (micros : Int) : Except Failure Timedelta :=
  if h : -86399999913600000000 ≤ micros ∧ micros ≤ 86399999999999999999 then .ok ⟨micros, h⟩
  else .error .overflowError

def nanos (d : Timedelta) : Int := d.micros * 1000

theorem ofMicros_eq_ok_iff {micros : Int} {d : Timedelta} :
    ofMicros micros = .ok d ↔ d.micros = micros := by
  rw [ofMicros]
  constructor
  · intro h
    split at h
    next => exact congrArg Timedelta.micros (Except.ok.inj h).symm
    next => cases h
  · rintro rfl
    exact dif_pos d.inRange

end Timedelta

/-! ## Reading a literal -/

/-- `(?:\.(\d{1,9}))?`: the digits behind a point. -/
def takeFractionDigits : List Char → Option (List Char × List Char)
  | '.' :: cs =>
      let digits := cs.takeWhile isDigit
      if digits.isEmpty || 9 < digits.length then none else some (digits, cs.dropWhile isDigit)
  | cs => some ([], cs)

/-- `(?:[Zz]|[+-](?:[01]\d|2[0-3]):[0-5]\d)`: the offset in minutes. -/
def takeOffset (cs : List Char) : Option Int :=
  if cs = ['z'] then some 0 else parseZone cs

/-- The groups of `_RFC3339_TIMESTAMP`. -/
structure Rfc3339Match where
  year : Nat
  month : Nat
  day : Nat
  hour : Nat
  minute : Nat
  second : Nat
  fraction : List Char
  offset : Int

/-- `_RFC3339_TIMESTAMP.fullmatch(value)` -/
def matchRfc3339 (value : String) : Option Rfc3339Match := do
  let (year, cs) ← takeDigits 4 value.toList
  let cs ← takeChar '-' cs
  let (month, cs) ← takeDigits 2 cs
  let cs ← takeChar '-' cs
  let (day, cs) ← takeDigits 2 cs
  let cs ← (takeChar 'T' cs).or (takeChar 't' cs)
  let (hour, cs) ← takeDigits 2 cs
  let cs ← takeChar ':' cs
  let (minute, cs) ← takeDigits 2 cs
  let cs ← takeChar ':' cs
  let (second, cs) ← takeDigits 2 cs
  let (fraction, cs) ← takeFractionDigits cs
  let offset ← takeOffset cs
  if year = 0 || 23 < hour || 59 < minute || 59 < second then none
  else some ⟨year, month, day, hour, minute, second, fraction, offset⟩

/-- The wall clock that is matched, in microseconds. -/
def Rfc3339Match.micros (m : Rfc3339Match) : Int :=
  (dayOfDate m.year m.month m.day * 86400 + m.hour * 3600 + m.minute * 60 + m.second) * 1000000 +
    decimalValue (m.fraction.take 6) * 10 ^ (6 - min m.fraction.length 6)

section Read

variable (readsFraction : Nat → Bool)

/-- `_parse_rfc3339`: a wall clock in microseconds and its offset in minutes. The numbers of
fraction digits that `datetime.fromisoformat` reads are 0, 3 and 6 before Python 3.11, and all
since. -/
def parseRfc3339 (value : String) : Except Failure (Int × Int) :=
  match matchRfc3339 value with
  | none => .error (.unsupported (.invalidTimestamp value))
  | some m =>
      if 6 < m.fraction.length && (m.fraction.drop 6).any (· ≠ '0') then
        .error (.unsupported (.timestampPrecision value))
      else if m.month < 1 || 12 < m.month || m.day < 1 || daysInMonth m.year m.month < m.day ||
          !readsFraction (min m.fraction.length 6) then
        .error (.unsupported (.invalidTimestamp value))
      else .ok (m.micros, m.offset)

/-- `_timestamp` of a text. -/
def timestampLiteral (value : String) : Except Failure Datetime := do
  let (micros, offset) ← parseRfc3339 readsFraction value
  match Datetime.ofMicros (micros - offset * 60000000) with
  | none => .error (.unsupported (.timestampRange value))
  | some t => .ok t

end Read

/-- `_duration` of a text. -/
def durationLiteral (value : String) : Except Failure Timedelta :=
  match matchSeconds value with
  | none => .error (.unsupported (.invalidDuration value))
  | some (negative, seconds, nanos) =>
      if nanos % 1000 ≠ 0 then .error (.unsupported (.durationPrecision value))
      else do
        let delta ← Timedelta.ofMicros (decimalValue seconds * 1000000 + nanos / 1000)
        if negative then Timedelta.ofMicros (-delta.micros) else return delta

/-! ## The literals of CEL -/

theorem takeFractionDigits_of_takeFraction {cs rest : List Char} {nanos : Nat}
    (h : takeFraction cs = some (nanos, rest)) :
    ∃ digits, takeFractionDigits cs = some (digits, rest) ∧ digits.length ≤ 9 ∧
      nanos = decimalValue digits * 10 ^ (9 - digits.length) := by
  rw [takeFraction.eq_def] at h
  split at h
  next cs =>
    dsimp only at h
    split at h
    next => cases h
    next hdigits =>
      obtain ⟨rfl, rfl⟩ := Prod.mk.inj (Option.some.inj h)
      have htaken : takeFractionDigits ('.' :: cs) =
          some (cs.takeWhile isDigit, cs.dropWhile isDigit) := if_neg hdigits
      simp only [Bool.or_eq_true, not_or, decide_eq_true_eq] at hdigits
      exact ⟨_, htaken, by omega, rfl⟩
  next hpoint =>
    obtain ⟨rfl, rfl⟩ := Prod.mk.inj (Option.some.inj h)
    refine ⟨[], ?_, Nat.zero_le _, rfl⟩
    rw [takeFractionDigits.eq_def]
    split
    next cs => exact (hpoint cs rfl).elim
    next => rfl

theorem takeOffset_of_parseZone {cs : List Char} {minutes : Int} (h : parseZone cs = some minutes) :
    takeOffset cs = some minutes := by
  rw [takeOffset, if_neg, h]
  rintro rfl
  cases h

/-- A timestamp of CEL matches, with its parts. -/
theorem matchRfc3339_of_parsed {value : String} {nanos : Int}
    (h : parseRfc3339Instant value = some nanos) :
    ∃ m, matchRfc3339 value = some m ∧ m.fraction.length ≤ 9 ∧
      nanos = (dayOfDate m.year m.month m.day * 86400 + m.hour * 3600 + m.minute * 60 + m.second -
        m.offset * 60) * 1000000000 + (decimalValue m.fraction * 10 ^ (9 - m.fraction.length) : ℕ) := by
  unfold parseRfc3339Instant at h
  simp only [Option.bind_eq_bind, Option.bind_eq_some_iff] at h
  obtain ⟨⟨year, cs₁⟩, hyear, cs₂, hdash, ⟨month, cs₃⟩, hmonth, cs₄, hdash', ⟨day, cs₅⟩, hday,
    cs₆, hT, ⟨hour, cs₇⟩, hhour, cs₈, hcolon, ⟨minute, cs₉⟩, hminute, cs₁₀, hcolon',
    ⟨second, cs₁₁⟩, hsecond, ⟨fraction, cs₁₂⟩, hfraction, offset, hzone, h⟩ := h
  obtain ⟨digits, hdigits, hlength, rfl⟩ := takeFractionDigits_of_takeFraction hfraction
  dsimp only at hdash hmonth hdash' hday hT hhour hcolon hminute hcolon' hsecond hdigits hzone h
  split at h
  next => cases h
  next hexists =>
    simp only [Bool.or_eq_true, not_or, decide_eq_true_eq, not_lt] at hexists
    refine ⟨⟨year, month, day, hour, minute, second, digits, offset⟩, ?_, hlength,
      (Option.some.inj h).symm⟩
    unfold matchRfc3339
    simp only [hyear, hdash, hmonth, hdash', hday, hT, hhour, hcolon, hminute, hcolon', hsecond,
      hdigits, takeOffset_of_parseZone hzone, Option.bind_eq_bind, Option.bind_some, Option.some_or]
    rw [if_neg]
    simp only [Bool.or_eq_true, not_or, decide_eq_true_eq, not_lt]
    omega

/-- The digits past the sixth are zeros, and six are microseconds. -/
theorem fraction_micros {digits : List Char} (hlength : digits.length ≤ 9)
    (hexact : (6 < digits.length && (digits.drop 6).any (· ≠ '0')) = false) :
    decimalValue digits * 10 ^ (9 - digits.length) =
      decimalValue (digits.take 6) * 10 ^ (6 - min digits.length 6) * 1000 := by
  obtain hshort | hlong := Nat.lt_or_ge 6 digits.length
  · have hzeros : digits.drop 6 = List.replicate (digits.length - 6) '0' := by
      have hall : ∀ c ∈ digits.drop 6, c = '0' := by
        simpa [hshort] using hexact
      rw [List.eq_replicate_of_mem hall, List.length_drop]
    have hvalue : decimalValue digits =
        decimalValue (digits.take 6) * 10 ^ (digits.length - 6) := by
      rw [← decimalValue_zeros, ← hzeros, List.take_append_drop]
    have hpow : 10 ^ (digits.length - 6) * 10 ^ (9 - digits.length) = 1000 := by
      rw [← Nat.pow_add, show digits.length - 6 + (9 - digits.length) = 3 by omega]
    rw [hvalue, Nat.mul_assoc, hpow, Nat.min_eq_right (by omega), Nat.sub_self, Nat.pow_zero,
      Nat.mul_one]
  · have hpow : 10 ^ (9 - digits.length) = 10 ^ (6 - digits.length) * 1000 := by
      rw [show 9 - digits.length = 6 - digits.length + 3 by omega, Nat.pow_add]
    rw [List.take_of_length_le hlong, Nat.min_eq_left hlong, hpow, Nat.mul_assoc]

/-- A timestamp that both read is the same instant. -/
theorem timestampLiteral_eq {readsFraction : Nat → Bool} {value : String} {t : Datetime} {nanos : Int}
    (h : timestampLiteral readsFraction value = .ok t)
    (hparsed : parseRfc3339Timestamp value = some nanos) : nanos = t.nanos := by
  obtain ⟨hinstant, -⟩ := Option.filter_eq_some_iff.mp hparsed
  obtain ⟨m, hmatch, hlength, rfl⟩ := matchRfc3339_of_parsed hinstant
  obtain ⟨⟨micros, offset⟩, hread, h⟩ := Except.bind_eq_ok_iff.mp h
  rw [parseRfc3339, hmatch] at hread
  dsimp only at hread
  split at hread
  · cases hread
  next hexact =>
    split at hread
    · cases hread
    next =>
      obtain ⟨rfl, rfl⟩ := Prod.mk.inj (Except.ok.inj hread)
      have hfraction := fraction_micros hlength (Bool.eq_false_iff.mpr hexact)
      dsimp only at h
      split at h
      · cases h
      next t' ht =>
        obtain rfl := Except.ok.inj h
        rw [Datetime.ofMicros_eq_some_iff] at ht
        rw [hfraction, Datetime.nanos, ht, Rfc3339Match.micros]
        push_cast
        ring

/-- A duration that both read is the same. -/
theorem durationLiteral_eq {value : String} {d : Timedelta} {nanos : Int}
    (h : durationLiteral value = .ok d) (hparsed : GoTime.parseDuration value = some nanos) :
    nanos = d.nanos := by
  rw [durationLiteral] at h
  split at h
  · cases h
  next negative seconds fraction hmatch =>
    obtain ⟨text, rfl, rfl, rfl, rfl⟩ := exists_secondsText hmatch
    rw [SecondsText.goParseDuration_text] at hparsed
    split at hparsed
    next =>
      obtain rfl := Option.some.inj hparsed
      split at h
      · cases h
      next hmicros =>
        obtain ⟨delta, hdelta, h⟩ := Except.bind_eq_ok_iff.mp h
        rw [Timedelta.ofMicros_eq_ok_iff] at hdelta
        rw [SecondsText.nanos, SecondsText.magnitude, Timedelta.nanos]
        cases hnegative : text.negative with
        | true =>
            rw [hnegative, if_pos rfl, Timedelta.ofMicros_eq_ok_iff] at h
            rw [if_pos rfl, h, hdelta]
            omega
        | false =>
            rw [hnegative, if_neg Bool.false_ne_true] at h
            obtain rfl := Except.ok.inj h
            rw [if_neg Bool.false_ne_true, hdelta]
            omega
    next => cases hparsed

end QueryPlanAdapters.SqlAlchemy
