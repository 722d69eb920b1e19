import QueryPlanAdapters.Cel.Conversion

/-!
# Timestamps and durations

Both are counts of nanoseconds. A timestamp is read from an RFC 3339 text and
counted from 1970; a duration is read as Go's `time.ParseDuration` reads it. The
two evaluators carry a copy of both parsers; only the lookup of a duration unit
differs between the copies, and is a parameter here.
-/

namespace QueryPlanAdapters

def minTimestampNanos : Int := -62135596800000000000

def maxTimestampNanos : Int := 253402300799999999999

def isLeapYear (year : Nat) : Bool :=
  year % 4 = 0 && (year % 100 ≠ 0 || year % 400 = 0)

def monthLengths (year : Nat) : List Nat :=
  [31, if isLeapYear year then 29 else 28, 31, 30, 31, 30, 31, 31, 30, 31, 30, 31]

def daysInMonth (year month : Nat) : Nat :=
  (monthLengths year).getD (month - 1) 0

/-- The days from 1970-01-01 to the first day of a year, as `Date` counts them. -/
def dayFromYear (year : Int) : Int :=
  365 * (year - 1970) + (year - 1969) / 4 - (year - 1901) / 100 + (year - 1601) / 400

/-- The days from 1970-01-01 to a date. -/
def dayOfDate (year month day : Nat) : Int :=
  dayFromYear year + ((monthLengths year).take (month - 1)).sum + (day - 1)

/-- Exactly `count` decimal digits. -/
def takeDigits (count : Nat) (cs : List Char) : Option (Nat × List Char) :=
  let digits := cs.take count
  if digits.length = count && digits.all isDigit then
    some (decimalValue digits, cs.drop count)
  else none

def takeChar (c : Char) : List Char → Option (List Char)
  | [] => none
  | d :: cs => if d = c then some cs else none

/-- The nanoseconds an optional fraction of one to nine digits spells. -/
def takeFraction : List Char → Option (Nat × List Char)
  | '.' :: cs =>
      let digits := cs.takeWhile isDigit
      if digits.isEmpty || 9 < digits.length then none
      else some (decimalValue digits * 10 ^ (9 - digits.length), cs.dropWhile isDigit)
  | cs => some (0, cs)

/-- The offset in minutes a time zone spells. -/
def parseZone : List Char → Option Int
  | ['Z'] => some 0
  | sign :: cs => do
      let (hour, cs) ← takeDigits 2 cs
      let cs ← takeChar ':' cs
      let (minute, cs) ← takeDigits 2 cs
      if !cs.isEmpty || 23 < hour || 59 < minute then none
      else if sign = '+' then some (hour * 60 + minute)
      else if sign = '-' then some (-(hour * 60 + minute))
      else none
  | [] => none

/-- Nanoseconds since the epoch; no instant for a text outside the grammar, or a
date or time that does not exist. -/
def parseRfc3339Instant (text : String) : Option Int := do
  let (year, cs) ← takeDigits 4 text.toList
  let cs ← takeChar '-' cs
  let (month, cs) ← takeDigits 2 cs
  let cs ← takeChar '-' cs
  let (day, cs) ← takeDigits 2 cs
  let cs ← takeChar 'T' cs
  let (hour, cs) ← takeDigits 2 cs
  let cs ← takeChar ':' cs
  let (minute, cs) ← takeDigits 2 cs
  let cs ← takeChar ':' cs
  let (second, cs) ← takeDigits 2 cs
  let (fractionNanos, cs) ← takeFraction cs
  let offsetMinutes ← parseZone cs
  if year < 1 || month < 1 || 12 < month || day < 1 || daysInMonth year month < day ||
      23 < hour || 59 < minute || 59 < second then none
  else
    let seconds := dayOfDate year month day * 86400 + hour * 3600 + minute * 60 + second
    some ((seconds - offsetMinutes * 60) * 1000000000 + fractionNanos)

/-- Whether an instant lies in the years 1 to 9999. -/
def inTimestampRange (nanos : Int) : Bool :=
  minTimestampNanos ≤ nanos && nanos ≤ maxTimestampNanos

/-- The timestamp an RFC 3339 text spells. -/
def parseRfc3339Timestamp (text : String) : Option Int :=
  (parseRfc3339Instant text).filter inTimestampRange

/-- A duration from nanoseconds, when they fit an int64. -/
def checkedDuration (nanos : Int) : Outcome :=
  if int64Min ≤ nanos ∧ nanos ≤ int64Max then .value (.duration nanos) else .error

/-- Go's `now.Sub(t)`, saturating at the int64 bounds. -/
def saturatedSince (now timestamp : Int) : Int :=
  if int64Max < now - timestamp then int64Max
  else if now - timestamp < int64Min then int64Min
  else now - timestamp

/-! ## Go's duration syntax -/

/-- What the unit table answers for a unit text. A plain JavaScript object also
answers with what it inherits, which is no bigint. -/
inductive UnitEntry where
  | nanos (n : Nat)
  | missing
  | inherited
  deriving DecidableEq

/-- The table's own entries; the micro sign and the Greek mu both stand for micro. -/
def durationUnits : List (String × Nat) :=
  [("ns", 1), ("us", 1000), ("µs", 1000), ("μs", 1000), ("ms", 1000000), ("s", 1000000000),
    ("m", 60000000000), ("h", 3600000000000)]

/-- A parsed duration, CEL's error, or the exception of mixing a bigint with
another type. -/
inductive DurationParse where
  | duration (nanos : Int)
  | error
  | typeError
  deriving DecidableEq

/-- The digits before the point, an error past `2 ^ 63`. -/
def leadingInt : (whole : Nat) → List Char → Option (Nat × List Char)
  | whole, [] => some (whole, [])
  | whole, c :: cs =>
      if isDigit c then
        if 2 ^ 63 / 10 < whole then none
        else
          let next := whole * 10 + digitValue c
          if 2 ^ 63 < next then none else leadingInt next cs
      else some (whole, c :: cs)

section Durations

variable [Double.Rounding] (unitOf : String → UnitEntry)

/-- The digits after the point with their scale, a double; those past int64 are
dropped. -/
def leadingFraction : (fraction : Nat) → (scale : Double) → (overflow : Bool) → List Char →
    Nat × Double
  | fraction, scale, _, [] => (fraction, scale)
  | fraction, scale, overflow, c :: cs =>
      if overflow || (2 ^ 63 - 1) / 10 < fraction then leadingFraction fraction scale true cs
      else
        let next := fraction * 10 + digitValue c
        if 2 ^ 63 < next then leadingFraction fraction scale true cs
        else leadingFraction next (scale.mul (.finite 10)) false cs

/-- The nanoseconds a fraction of a unit adds, through a float64 scale. -/
def fractionNanos (fraction : Nat) (scale : Double) (unit : Nat) : Int :=
  ((Double.ofInt fraction).mul ((Double.ofInt unit).div scale)).trunc

/-- One number and its unit at the front of a text: its nanoseconds and the rest. -/
def parseDurationPart (cs : List Char) : Except DurationParse (Nat × List Char) := do
  let some (whole, rest) := leadingInt 0 cs | throw .error
  let sawWhole := cs.head?.any isDigit
  let hasPoint := rest.head? = some '.'
  let digits := if hasPoint then rest.tail.takeWhile isDigit else []
  let rest := if hasPoint then rest.tail.dropWhile isDigit else rest
  let (fraction, scale) := leadingFraction 0 (.finite 1) false digits
  if !sawWhole && digits.isEmpty then throw .error
  let isUnitChar := fun c => !(c = '.' || isDigit c)
  match unitOf (String.ofList (rest.takeWhile isUnitChar)) with
  | .missing => throw .error
  | .inherited => throw .typeError
  | .nanos unit =>
      if 2 ^ 63 / unit < whole then throw .error
      let value := whole * unit + (if 0 < fraction then (fractionNanos fraction scale unit).toNat else 0)
      if 2 ^ 63 < value then throw .error
      return (value, rest.dropWhile isUnitChar)

/-- The sum of all numbers with their units. Every part consumes a character, so
as many rounds as the text has characters are enough. -/
def parseDurationParts : (rounds total : Nat) → List Char → Except DurationParse Nat
  | _, total, [] => return total
  | 0, _, _ :: _ => throw .error
  | rounds + 1, total, c :: cs => do
      let (value, rest) ← parseDurationPart unitOf (c :: cs)
      if 2 ^ 63 < total + value then throw .error
      parseDurationParts rounds (total + value) rest

/-- `duration(text)`: an optional sign, then numbers each with a unit, or a bare 0. -/
def parseDuration (text : String) : DurationParse :=
  let (negative, cs) := takeSign text.toList
  if cs = ['0'] then .duration 0
  else if cs = [] then .error
  else match parseDurationParts unitOf cs.length 0 cs with
    | .error failure => failure
    | .ok total =>
        if negative then .duration (-total)
        else if int64Max < total then .error
        else .duration total

end Durations

example : parseRfc3339Timestamp "1970-01-02T00:00:00.5+01:00" = some 82800500000000 := by decide

end QueryPlanAdapters
