import QueryPlanAdapters.Cel.TemporalArithmetic
import QueryPlanAdapters.Drizzle.InstantTexts

/-!
# Drizzle: instants compare as instants

A native column is compared with a point of its own grid beside the literal. A text column of
SQLite is rewritten into the texts of fixed width of `InstantTexts`.
-/

namespace QueryPlanAdapters.Drizzle

/-! ## Literals -/

/-- What a timestamp is refused for. -/
inductive InstantRefusal where
  | invalid (value : String)
  | outside (value : String)
  | gridUnknown (value : String)
  deriving DecidableEq, Repr

/-- `parseRfc3339Nanoseconds`: the text is validated to its millisecond, and the digits past the
millisecond are added to it. -/
def parseRfc3339Nanoseconds (value : String) : Except InstantRefusal Int :=
  match Prisma.rfc3339Nanos value with
  | none => .error (.invalid value)
  | some nanos =>
      let milliseconds := nanos / 1000000
      if milliseconds < Prisma.minInstant || Prisma.maxInstant < milliseconds then
        .error (.outside value)
      else .ok (milliseconds * 1000000 + nanos % 1000000)

/-- `sqliteInstantLiteral` -/
def sqliteInstantLiteral (value : String) : Except InstantRefusal String :=
  (parseRfc3339Nanoseconds value).map (formatRfc3339Nanoseconds · 9)

/-! ## Native columns -/

/-- A column by its declaration. -/
inductive TimestampColumn where
  | pgTimestamp (precision : Option Nat)
  | mySqlTimestamp (fsp : Option Nat)
  | other

/-- `timestampColumnDigits` -/
def timestampColumnDigits : TimestampColumn → Option Nat
  | .pgTimestamp precision => some (precision.getD 6)
  | .mySqlTimestamp fsp => some (fsp.getD 0)
  | .other => none

inductive GridComparison where
  /-- The column beside a bound, which is written for an instant. -/
  | bound (operator : ComparisonOperator) (text : String) (instant : Int)
  /-- The answer for every present row. -/
  | constant (answer : Bool)
  deriving DecidableEq

/-- The nanoseconds between two points of a grid. -/
def gridOf (digits : Nat) : Int := 10 ^ (9 - digits)

/-- What the column is compared with, beside an instant. -/
def gridComparison (operator : ComparisonOperator) (digits : Nat) (instant : Int) : GridComparison :=
  let grid := gridOf digits
  let remainder := instant % grid
  let floor := instant - remainder
  let ceil := if remainder = 0 then floor else floor + grid
  let bound operator nanoseconds :=
    GridComparison.bound operator (formatRfc3339Nanoseconds nanoseconds digits) nanoseconds
  if remainder = 0 then bound operator floor
  else match operator with
    | .lt => bound .lt ceil
    | .le => bound .le floor
    | .gt => bound .gt floor
    | .ge => bound .ge ceil
    | .eq => .constant false
    | .ne => .constant true

/-- `buildOffGridTimestampComparison` -/
def buildOffGridTimestampComparison (operator : ComparisonOperator) (column : TimestampColumn)
    (literal : String) : Except InstantRefusal GridComparison :=
  match timestampColumnDigits column with
  | none => .error (.gridUnknown literal)
  | some digits =>
      if 9 < digits then .error (.gridUnknown literal)
      else (parseRfc3339Nanoseconds literal).map (gridComparison operator digits)

/-- The comparison holds for an instant of the grid exactly when it does of the literal's, and
the bound denotes the instant that it is written for. -/
def GridComparison.Exact (comparison : GridComparison) (operator : ComparisonOperator) (grid : Int)
    (instant : Int) : Prop :=
  match comparison with
  | .bound op text rounded => parseRfc3339Timestamp text = some rounded ∧
      ∀ c : Int, grid ∣ c → op.test (.finite c) (.finite rounded) =
        operator.test (.finite c) (.finite instant)
  | .constant answer => ∀ c : Int, grid ∣ c → operator.test (.finite c) (.finite instant) = answer

/-- The next point of the grid is one of CEL's, where it is what the column is compared with. -/
def CeilingInYears (operator : ComparisonOperator) (grid instant : Int) : Prop :=
  operator = .lt ∨ operator = .ge → ¬ grid ∣ instant →
    instant - instant % grid + grid ≤ maxTimestampNanos

/-! ## Texts in SQLite -/

/-- SQLite's date functions. -/
structure SqliteDates where
  /-- `strftime('%Y-%m-%dT%H:%M:%S', text)` -/
  strftime : String → Option String
  /-- `strftime('%Y-%m-%dT%H:%M:%S', julianday(text))` -/
  viaJulianDay : String → Option String

/-- `SQLITE_DATE_TIME_PREFIX` without its `*`; a digit stands for any. -/
def dateTimePattern : List Char := "0000-00-00T00:00:00".toList

/-- A text matches `SQLITE_DATE_TIME_PREFIX`. -/
def globsDateTime (cs : List Char) : Bool :=
  19 ≤ cs.length && (List.zipWith (fun p c => if isDigit p then isDigit c else p = c)
    dateTimePattern cs).all id

/-- A text matches `*[+-][0-9][0-9]:[0-9][0-9]`. -/
def globsOffset (cs : List Char) : Bool :=
  match cs.drop (cs.length - 6) with
  | [sign, a, b, colon, c, d] =>
      (sign = '+' || sign = '-') && isDigit a && isDigit b && colon = ':' && isDigit c && isDigit d
  | _ => false

/-- The characters of a text's zone. -/
def zoneLength (cs : List Char) : Option Nat :=
  if cs.getLast? = some 'Z' then some 1
  else if globsOffset cs then some 6
  else none

/-- `sqliteTextInstant`: none is NULL. -/
def sqliteTextInstant (dates : SqliteDates) (stored : String) : Option String := do
  let cs := stored.toList
  let zone ← zoneLength cs
  let digits : Int := cs.length - 20 - zone
  let wholeSeconds ← dates.strftime (String.ofList (cs.take 19 ++ cs.drop (cs.length - zone)))
  let valid := globsDateTime cs &&
    dates.viaJulianDay (String.ofList (cs.take 19)) = some (String.ofList (cs.take 19)) &&
    (digits = -1 || (cs[19]? = some '.' && 1 ≤ digits && digits ≤ 9 &&
      ((cs.drop 20).take digits.toNat).all isDigit)) &&
    0 ≤ compareCodePoints wholeSeconds.toList "0001-01-01T00:00:00".toList
  if valid then
    some (String.ofList (wholeSeconds.toList ++ '.' ::
      (((cs.drop 20).take digits.toNat ++ List.replicate 9 '0').take 9 ++ ['Z'])))
  else none

/-! ## CEL's reading -/

/-- The instant of a text, a year 0 included, as Go reads it. -/
def readInstant (text : String) : Option Int := do
  let (year, cs) ← takeDigits 4 text.toList
  let cs ← takeChar '-' cs
  let (month, cs) ← takeDigits 2 cs
  let cs ← takeChar '-' cs
  let (day, cs) ← takeDigits 2 cs
  let cs ← takeChar 'T' cs
  let (hour, cs) ← takeDigits 2 cs
  let cs ← takeChar ':' cs
  let (minute, cs) ← takeDigits 2 cs
  let cs ← takeChar ':' cs
  let (second, cs) ← takeDigits 2 cs
  let (fractionNanos, cs) ← takeFraction cs
  let offsetMinutes ← parseZone cs
  if month < 1 || 12 < month || day < 1 || daysInMonth year month < day ||
      23 < hour || 59 < minute || 59 < second then none
  else
    let seconds := dayOfDate year month day * 86400 + hour * 3600 + minute * 60 + second
    some ((seconds - offsetMinutes * 60) * 1000000000 + fractionNanos)

/-- `timestamp()` of a stored text: only the instant has to be in CEL's range. -/
def timestampOf (text : String) : Option Int :=
  (readInstant text).filter inTimestampRange

/-- A date and a time of day that exist. -/
structure DateTime where
  year : Nat
  month : Nat
  day : Nat
  hour : Nat
  minute : Nat
  second : Nat
  year_le : year ≤ 9999
  month_mem : 1 ≤ month ∧ month ≤ 12
  day_mem : 1 ≤ day ∧ day ≤ daysInMonth year month
  hour_le : hour ≤ 23
  minute_le : minute ≤ 59
  second_le : second ≤ 59

namespace DateTime

def text (t : DateTime) : List Char :=
  paddedDigits 4 t.year ++ '-' :: (paddedDigits 2 t.month ++ '-' :: (paddedDigits 2 t.day ++ 'T' ::
    (paddedDigits 2 t.hour ++ ':' :: (paddedDigits 2 t.minute ++ ':' :: paddedDigits 2 t.second))))

def seconds (t : DateTime) : Int :=
  dayOfDate t.year t.month t.day * 86400 + t.hour * 3600 + t.minute * 60 + t.second

end DateTime

/-- What SQLite documents of its date functions. -/
structure SqliteDates.Documented (dates : SqliteDates) : Prop where
  /-- A Julian day is written as a date that exists. -/
  fixed : ∀ cs, globsDateTime cs = true →
    dates.viaJulianDay (String.ofList (cs.take 19)) = some (String.ofList (cs.take 19)) →
      ∃ t : DateTime, t.text = cs.take 19
  /-- An offset has at most 14 hours. -/
  offset_le : ∀ cs sign a b c d,
    dates.strftime (String.ofList (cs ++ [sign, a, b, ':', c, d])) ≠ none →
      decimalValue [a, b] ≤ 14 ∧ decimalValue [c, d] ≤ 59
  /-- An offset is applied exactly. There is no text past the year 9999, and one before the year 1
  stands before it. -/
  applies : ∀ (t : DateTime) (z : Zone) (out : String),
    dates.strftime (String.ofList (t.text ++ z.text)) = some out →
      t.seconds - z.minutes * 60 ≤ 253402300799 ∧
        if t.seconds - z.minutes * 60 < -62135596800 then
          compareCodePoints out.toList "0001-01-01T00:00:00".toList < 0
        else out.toList = wholeSecondsText (t.seconds - z.minutes * 60)

/-! ## The grid -/

section Grid

variable {instant grid : Int}

theorem parseRfc3339Nanoseconds_eq_ok_iff {value : String} :
    parseRfc3339Nanoseconds value = .ok instant ↔
      Prisma.rfc3339Nanos value = some instant ∧ inTimestampRange instant = true := by
  rw [parseRfc3339Nanoseconds, inTimestampRange, Bool.and_eq_true, decide_eq_true_eq,
    decide_eq_true_eq, minTimestampNanos, maxTimestampNanos]
  cases Prisma.rfc3339Nanos value with
  | none => simp
  | some nanos =>
      have hsum : nanos / 1000000 * 1000000 + nanos % 1000000 = nanos := by omega
      dsimp only
      rw [hsum, Option.some_inj]
      split
      next hrange =>
        rw [Bool.or_eq_true, decide_eq_true_eq, decide_eq_true_eq, Prisma.minInstant,
          Prisma.maxInstant] at hrange
        refine iff_of_false (fun h => by cases h) ?_
        rintro ⟨rfl, hmin, hmax⟩
        omega
      next hrange =>
        rw [Bool.or_eq_true, decide_eq_true_eq, decide_eq_true_eq, Prisma.minInstant,
          Prisma.maxInstant] at hrange
        constructor
        · intro h
          obtain rfl := Except.ok.inj h
          exact ⟨rfl, by omega⟩
        · rintro ⟨rfl, -⟩
          rfl

/-- Between two points of the grid there is no value to disagree about. -/
theorem test_grid (hgrid : 0 < grid) (hoff : ¬ grid ∣ instant) {c : Int} (hc : grid ∣ c) :
    (ComparisonOperator.lt.test (.finite c) (.finite (instant - instant % grid + grid : Int)) =
        ComparisonOperator.lt.test (.finite c) (.finite instant)) ∧
      (ComparisonOperator.le.test (.finite c) (.finite (instant - instant % grid : Int)) =
        ComparisonOperator.le.test (.finite c) (.finite instant)) ∧
      (ComparisonOperator.gt.test (.finite c) (.finite (instant - instant % grid : Int)) =
        ComparisonOperator.gt.test (.finite c) (.finite instant)) ∧
      (ComparisonOperator.ge.test (.finite c) (.finite (instant - instant % grid + grid : Int)) =
        ComparisonOperator.ge.test (.finite c) (.finite instant)) ∧ c ≠ instant := by
  obtain ⟨k, rfl⟩ := hc
  have hmod := Int.emod_pos_of_not_dvd hoff
  have hlt := Int.emod_lt_of_pos instant hgrid
  have hdiv := Int.mul_ediv_add_emod instant grid
  have hle : grid * k ≤ instant ↔ grid * k ≤ instant - instant % grid := by
    constructor
    · intro h
      have hk : k ≤ instant / grid := by
        rw [Int.le_ediv_iff_mul_le hgrid, Int.mul_comm]
        exact h
      have hscaled := Int.mul_le_mul_of_nonneg_left hk hgrid.le
      omega
    · omega
  have hnext : grid * k < instant - instant % grid + grid ↔ grid * k ≤ instant - instant % grid := by
    constructor
    · intro h
      have hk : k < instant / grid + 1 := by
        have hscaled : grid * k < grid * (instant / grid + 1) := by
          rw [Int.mul_add, Int.mul_one]
          omega
        exact lt_of_mul_lt_mul_left hscaled hgrid.le
      have hscaled := Int.mul_le_mul_of_nonneg_left (Int.lt_add_one_iff.mp hk) hgrid.le
      omega
    · omega
  have hne : grid * k ≠ instant := by
    rintro rfl
    exact hoff (Int.dvd_mul_right grid k)
  have hlt' : grid * k < instant - instant % grid + grid ↔ grid * k < instant := by omega
  have hgt : instant - instant % grid < grid * k ↔ instant < grid * k := by omega
  have hge : instant - instant % grid + grid ≤ grid * k ↔ instant ≤ grid * k := by omega
  simp only [ComparisonOperator.test, Double.lt_finite, Double.le_finite, Int.cast_lt, Int.cast_le,
    hle, hlt', hgt, hge]
  exact ⟨trivial, trivial, trivial, trivial, hne⟩

theorem exact_constant (hoff : ∀ c : Int, grid ∣ c → c ≠ instant) :
    GridComparison.Exact (.constant false) .eq grid instant ∧
      GridComparison.Exact (.constant true) .ne grid instant := by
  have heq : ∀ c : Int, grid ∣ c → ¬ ((c : ℚ) = instant) := fun c hc h =>
    hoff c hc (by exact_mod_cast h)
  constructor
  · intro c hc
    simp [ComparisonOperator.test, heq c hc]
  · intro c hc
    simp [ComparisonOperator.test, heq c hc]

theorem gridOf_pos (digits : Nat) : 0 < gridOf digits :=
  pow_pos (by decide) _

theorem inYears_of_range (h : inTimestampRange instant = true) : InYears (instant / 1000000000) := by
  rw [inTimestampRange, Bool.and_eq_true, decide_eq_true_eq, decide_eq_true_eq, minTimestampNanos,
    maxTimestampNanos] at h
  constructor
  · omega
  · omega

/-- A point of the grid is written as itself exactly where it is an instant of CEL. -/
theorem parse_format_iff {digits : Nat} (hdigits : digits ≤ 9) {rounded : Int}
    (hgrid : gridOf digits ∣ rounded) :
    parseRfc3339Timestamp (formatRfc3339Nanoseconds rounded digits) = some rounded ↔
      inTimestampRange rounded = true := by
  constructor
  · intro h
    exact (Option.filter_eq_some_iff.mp h).2
  · intro h
    exact parse_formatRfc3339Nanoseconds (inYears_of_range h) hdigits hgrid

/-- Whole seconds are on every grid. -/
theorem gridOf_dvd_second (digits : Nat) : gridOf digits ∣ 1000000000 := by
  have hnine : (10 ^ 9 : Int) = 1000000000 := by norm_num
  rw [gridOf, ← hnine]
  exact pow_dvd_pow 10 (Nat.sub_le 9 digits)

/-- Rounding down stays in CEL's years, which begin with a whole second. -/
theorem floor_inRange (digits : Nat) (h : inTimestampRange instant = true) :
    inTimestampRange (instant - instant % gridOf digits) = true := by
  rw [inTimestampRange, Bool.and_eq_true, decide_eq_true_eq, decide_eq_true_eq, minTimestampNanos,
    maxTimestampNanos] at h ⊢
  have hnonneg := Int.emod_nonneg instant (gridOf_pos digits).ne'
  refine ⟨?_, by omega⟩
  obtain ⟨k, hk⟩ := (gridOf_dvd_second digits).mul_left (-62135596800)
  have hmin : gridOf digits * k ≤ instant := by omega
  have hquotient : k ≤ instant / gridOf digits := by
    rw [Int.le_ediv_iff_mul_le (gridOf_pos digits), Int.mul_comm]
    exact hmin
  have hscaled := Int.mul_le_mul_of_nonneg_left hquotient (gridOf_pos digits).le
  have hdiv := Int.mul_ediv_add_emod instant (gridOf digits)
  omega

theorem gridComparison_on (operator : ComparisonOperator) {digits : Nat}
    (h : instant % gridOf digits = 0) :
    gridComparison operator digits instant =
      .bound operator (formatRfc3339Nanoseconds instant digits) instant := by
  simp [gridComparison, h]

theorem exact_iff_ceilingInYears (operator : ComparisonOperator) {digits : Nat} (hle : digits ≤ 9)
    (hrange : inTimestampRange instant = true) :
    (gridComparison operator digits instant).Exact operator (gridOf digits) instant ↔
      CeilingInYears operator (gridOf digits) instant := by
  by_cases hremainder : instant % gridOf digits = 0
  · have hdvd := Int.dvd_of_emod_eq_zero hremainder
    rw [gridComparison_on operator hremainder]
    exact iff_of_true ⟨(parse_format_iff hle hdvd).mpr hrange, fun _ _ => rfl⟩
      fun _ hoff => (hoff hdvd).elim
  · have hoff : ¬ gridOf digits ∣ instant := fun hdvd => hremainder (Int.emod_eq_zero_of_dvd hdvd)
    have hfloor : gridOf digits ∣ instant - instant % gridOf digits := Int.dvd_self_sub_emod
    have hceil : gridOf digits ∣ instant - instant % gridOf digits + gridOf digits :=
      Int.dvd_add hfloor (Int.dvd_refl _)
    have hfloorText := (parse_format_iff hle hfloor).mpr (floor_inRange digits hrange)
    have hceilText : parseRfc3339Timestamp (formatRfc3339Nanoseconds
        (instant - instant % gridOf digits + gridOf digits) digits) =
          some (instant - instant % gridOf digits + gridOf digits) ↔
        instant - instant % gridOf digits + gridOf digits ≤ maxTimestampNanos := by
      have hmin := floor_inRange digits hrange
      have hpos := gridOf_pos digits
      rw [parse_format_iff hle hceil, inTimestampRange, Bool.and_eq_true, decide_eq_true_eq,
        decide_eq_true_eq]
      rw [inTimestampRange, Bool.and_eq_true, decide_eq_true_eq] at hmin
      exact and_iff_right (by omega)
    have htest := fun c hc => test_grid (gridOf_pos digits) hoff (c := c) hc
    have hconstant := exact_constant fun c hc => (htest c hc).2.2.2.2
    cases operator with
    | eq =>
        have hcase : gridComparison .eq digits instant = .constant false := by
          simp [gridComparison, hremainder]
        rw [hcase]
        exact iff_of_true hconstant.1 fun h => by cases h <;> contradiction
    | ne =>
        have hcase : gridComparison .ne digits instant = .constant true := by
          simp [gridComparison, hremainder]
        rw [hcase]
        exact iff_of_true hconstant.2 fun h => by cases h <;> contradiction
    | le =>
        have hcase : gridComparison .le digits instant = .bound .le (formatRfc3339Nanoseconds
            (instant - instant % gridOf digits) digits) (instant - instant % gridOf digits) := by
          simp [gridComparison, hremainder]
        rw [hcase]
        exact iff_of_true ⟨hfloorText, fun c hc => (htest c hc).2.1⟩
          fun h => by cases h <;> contradiction
    | gt =>
        have hcase : gridComparison .gt digits instant = .bound .gt (formatRfc3339Nanoseconds
            (instant - instant % gridOf digits) digits) (instant - instant % gridOf digits) := by
          simp [gridComparison, hremainder]
        rw [hcase]
        exact iff_of_true ⟨hfloorText, fun c hc => (htest c hc).2.2.1⟩
          fun h => by cases h <;> contradiction
    | lt =>
        have hcase : gridComparison .lt digits instant = .bound .lt (formatRfc3339Nanoseconds
            (instant - instant % gridOf digits + gridOf digits) digits)
              (instant - instant % gridOf digits + gridOf digits) := by
          simp [gridComparison, hremainder]
        rw [hcase]
        constructor
        · intro hexact _ _
          exact hceilText.mp hexact.1
        · intro hyears
          exact ⟨hceilText.mpr (hyears (.inl rfl) hoff), fun c hc => (htest c hc).1⟩
    | ge =>
        have hcase : gridComparison .ge digits instant = .bound .ge (formatRfc3339Nanoseconds
            (instant - instant % gridOf digits + gridOf digits) digits)
              (instant - instant % gridOf digits + gridOf digits) := by
          simp [gridComparison, hremainder]
        rw [hcase]
        constructor
        · intro hexact _ _
          exact hceilText.mp hexact.1
        · intro hyears
          exact ⟨hceilText.mpr (hyears (.inr rfl) hoff), fun c hc => (htest c hc).2.2.2.1⟩

end Grid

/-! ## Stored texts -/

/-- CEL reads a date and time that exist, whatever its fraction and its zone. -/
theorem readInstant_text (t : DateTime) (f : Fraction) (z : Zone) :
    readInstant (String.ofList (t.text ++ (f.text ++ z.text))) =
      some ((t.seconds - z.minutes * 60) * 1000000000 + f.nanos) := by
  have hlength : t.day < 10 ^ 2 := by
    have hle := t.day_mem.2
    rw [daysInMonth_eq t.month_mem] at hle
    have hmonth : Gregorian.monthLength t.year t.month ≤ 31 := by
      unfold Gregorian.monthLength
      split
      · split <;> decide
      · split <;> decide
    omega
  have hyear : t.year < 10 ^ 4 := Nat.lt_succ_of_le t.year_le
  have hmonth : t.month < 10 ^ 2 := by
    have hle := t.month_mem.2
    omega
  have hhour : t.hour < 10 ^ 2 := by
    have hle := t.hour_le
    omega
  have hminute : t.minute < 10 ^ 2 := by
    have hle := t.minute_le
    omega
  have hsecond : t.second < 10 ^ 2 := by
    have hle := t.second_le
    omega
  have hdigits : ∀ {count n : Nat} (rest : List Char), n < 10 ^ count →
      takeDigits count (paddedDigits count n ++ rest) = some (n, rest) :=
    fun rest h => takeDigits_eq_some_iff.mpr ⟨h, rfl⟩
  have hchar : ∀ (c : Char) rest, takeChar c (c :: rest) = some rest :=
    fun c rest => takeChar_eq_some_iff.mpr rfl
  have hzone : parseZone z.text = some z.minutes := parseZone_eq_some_iff.mpr ⟨z, rfl, rfl⟩
  have hexists : ¬ ((decide (t.month < 1) || decide (12 < t.month) || decide (t.day < 1) ||
      decide (daysInMonth t.year t.month < t.day) || decide (23 < t.hour) ||
      decide (59 < t.minute) || decide (59 < t.second)) = true) := by
    have hmonths := t.month_mem
    have hdays := t.day_mem
    have hhours := t.hour_le
    have hminutes := t.minute_le
    have hseconds := t.second_le
    simp only [Bool.or_eq_true, decide_eq_true_eq]
    omega
  have htext : t.text ++ (f.text ++ z.text) = paddedDigits 4 t.year ++ '-' ::
      (paddedDigits 2 t.month ++ '-' :: (paddedDigits 2 t.day ++ 'T' :: (paddedDigits 2 t.hour ++
        ':' :: (paddedDigits 2 t.minute ++ ':' :: (paddedDigits 2 t.second ++
          (f.text ++ z.text)))))) := by
    simp only [DateTime.text, List.append_assoc, List.cons_append]
  rw [htext]
  unfold readInstant
  simp only [Option.bind_eq_bind, Option.bind_eq_some_iff, String.toList_ofList]
  refine ⟨(t.year, _), hdigits _ hyear, _, hchar _ _, (t.month, _), hdigits _ hmonth, _, hchar _ _,
    (t.day, _), hdigits _ hlength, _, hchar _ _, (t.hour, _), hdigits _ hhour, _, hchar _ _,
    (t.minute, _), hdigits _ hminute, _, hchar _ _, (t.second, _), hdigits _ hsecond,
    (f.nanos, _), takeFraction_text f z.head_text, z.minutes, hzone, ?_⟩
  dsimp only
  rw [if_neg hexists]
  rfl

/-- A text that ends in one of the two zones. -/
theorem exists_zone {cs : List Char} {zone : Nat} (hzone : zoneLength cs = some zone) :
    zone ≤ cs.length ∧ (cs.drop (cs.length - zone) = ['Z'] ∨
      ∃ sign a b c d, cs.drop (cs.length - zone) = [sign, a, b, ':', c, d] ∧
        (sign = '+' ∨ sign = '-') ∧ [a, b].all isDigit = true ∧ [c, d].all isDigit = true) := by
  rw [zoneLength] at hzone
  split at hzone
  next hlast =>
    obtain rfl := Option.some.inj hzone
    obtain ⟨rest, rfl⟩ := List.getLast?_eq_some_iff.mp hlast
    rw [List.length_append, List.length_singleton, Nat.add_sub_cancel, List.drop_left]
    exact ⟨by omega, .inl rfl⟩
  next =>
    split at hzone
    next hglob =>
      obtain rfl := Option.some.inj hzone
      rw [globsOffset] at hglob
      split at hglob
      next sign a b colon c d hdrop =>
        simp only [Bool.and_eq_true, Bool.or_eq_true, decide_eq_true_eq] at hglob
        obtain ⟨⟨⟨⟨⟨hsign, ha⟩, hb⟩, rfl⟩, hc⟩, hd⟩ := hglob
        have hlength := congrArg List.length hdrop
        rw [List.length_drop] at hlength
        simp only [List.length_cons, List.length_nil] at hlength
        refine ⟨by omega, .inr ⟨sign, a, b, c, d, hdrop, hsign, ?_, ?_⟩⟩
        · simp [ha, hb]
        · simp [hc, hd]
      next => cases hglob
    next => cases hzone

/-- The nine digits of a stored fraction. -/
theorem nineDigits {ds : List Char} (hdigits : ds.all isDigit = true) (hlength : ds.length ≤ 9) :
    decimalValue ds * 10 ^ (9 - ds.length) < 10 ^ 9 ∧
      (ds ++ List.replicate 9 '0').take 9 =
        paddedDigits 9 (decimalValue ds * 10 ^ (9 - ds.length)) := by
  have htake : (ds ++ List.replicate 9 '0').take 9 = ds ++ List.replicate (9 - ds.length) '0' := by
    rw [List.take_append, List.take_of_length_le hlength, List.take_replicate,
      Nat.min_eq_left (Nat.sub_le 9 ds.length)]
  have hall : (ds ++ List.replicate (9 - ds.length) '0').all isDigit = true := by
    rw [List.all_append, hdigits, Bool.true_and, List.all_replicate]
    simp [isDigit]
  have hnine : (ds ++ List.replicate (9 - ds.length) '0').length = 9 := by
    rw [List.length_append, List.length_replicate]
    omega
  obtain ⟨hlt, hpadded⟩ := paddedDigits_decimalValue hall
  rw [hnine, decimalValue_zeros] at hlt hpadded
  exact ⟨hlt, htake.trans hpadded.symm⟩

section Stored

variable {dates : SqliteDates} {cs : List Char} {zone : Nat} {wholeSeconds : String}

theorem exists_zone_text (hdates : dates.Documented) (hzone : zoneLength cs = some zone)
    (hstrftime : dates.strftime (String.ofList (cs.take 19 ++ cs.drop (cs.length - zone))) =
      some wholeSeconds) :
    ∃ z : Zone, z.text = cs.drop (cs.length - zone) := by
  obtain ⟨-, hutc | ⟨sign, a, b, c, d, hoffset, hsign, hab, hcd⟩⟩ := exists_zone hzone
  · exact ⟨.utc, hutc.symm⟩
  · rw [hoffset] at hstrftime
    obtain ⟨hhour, hminute⟩ := hdates.offset_le (cs.take 19) sign a b c d (by
      rw [hstrftime]
      exact Option.some_ne_none wholeSeconds)
    refine ⟨.offset (sign = '-') ⟨decimalValue [a, b], by omega⟩ ⟨decimalValue [c, d], by omega⟩, ?_⟩
    have hpadded : paddedDigits 2 (decimalValue [a, b]) = [a, b] := (paddedDigits_decimalValue hab).2
    have hpadded' : paddedDigits 2 (decimalValue [c, d]) = [c, d] := (paddedDigits_decimalValue hcd).2
    rw [Zone.text, hpadded, hpadded', hoffset]
    rcases hsign with rfl | rfl <;> rfl

/-- The point and the digits between the second and the zone, or nothing. -/
theorem exists_fraction_text (hle : zone ≤ cs.length) {digits : Int}
    (hcount : digits = cs.length - 20 - zone)
    (hdigits : digits = -1 ∨ cs[19]? = some '.' ∧ 1 ≤ digits ∧ digits ≤ 9 ∧
      ((cs.drop 20).take digits.toNat).all isDigit = true) :
    ∃ f : Fraction, cs.drop 19 = f.text ++ cs.drop (cs.length - zone) ∧ f.nanos < 10 ^ 9 ∧
      ((cs.drop 20).take digits.toNat ++ List.replicate 9 '0').take 9 = paddedDigits 9 f.nanos := by
  rcases hdigits with hnone | ⟨hpoint, hpos, hnine, hall⟩
  · refine ⟨⟨0, 0, by decide, by decide⟩, ?_, by decide, ?_⟩
    · have hstart : cs.length - zone = 19 := by omega
      rw [hstart]
      rfl
    · rw [hnone]
      rfl
  · have hlength : ((cs.drop 20).take digits.toNat).length = digits.toNat := by
      rw [List.length_take, List.length_drop]
      omega
    obtain ⟨hlt, hpadded⟩ := paddedDigits_decimalValue hall
    obtain ⟨hnanos, hnineDigits⟩ := nineDigits hall (by omega)
    rw [hlength] at hlt hpadded hnanos hnineDigits
    refine ⟨⟨digits.toNat, decimalValue ((cs.drop 20).take digits.toNat), by omega, hlt⟩, ?_, hnanos,
      hnineDigits⟩
    obtain ⟨hin, hpoint⟩ := List.getElem?_eq_some_iff.mp hpoint
    have hrest : cs.drop (cs.length - zone) = (cs.drop 20).drop digits.toNat := by
      rw [List.drop_drop]
      congr 1
      omega
    rw [Fraction.text, if_neg (by dsimp only; omega), hpadded, hrest, List.cons_append,
      List.take_append_drop, List.drop_eq_getElem_cons hin, hpoint]

/-- A stored text that is rewritten is one that CEL reads, and is rewritten as its instant. -/
theorem sqliteTextInstant_eq_some (hdates : dates.Documented) {stored text : String}
    (h : sqliteTextInstant dates stored = some text) :
    ∃ seconds nanos, InYears seconds ∧ nanos < 10 ^ 9 ∧ text.toList = instantText seconds nanos ∧
      timestampOf stored = some (seconds * 1000000000 + nanos) := by
  rw [sqliteTextInstant] at h
  obtain ⟨zone, hzone, h⟩ := Option.bind_eq_some_iff.mp h
  obtain ⟨wholeSeconds, hstrftime, h⟩ := Option.bind_eq_some_iff.mp h
  dsimp only at h
  split at h
  next hvalid =>
    simp only [Bool.and_eq_true, Bool.or_eq_true, decide_eq_true_eq] at hvalid
    obtain ⟨⟨⟨hglob, hfixed⟩, hdigits⟩, hyear⟩ := hvalid
    obtain ⟨t, ht⟩ := hdates.fixed _ hglob hfixed
    obtain ⟨z, hz⟩ := exists_zone_text hdates hzone hstrftime
    obtain ⟨f, hfraction, hnanos, hnine⟩ := exists_fraction_text (exists_zone hzone).1 rfl
      (hdigits.imp id fun h => ⟨h.1.1.1, h.1.1.2, h.1.2, h.2⟩)
    obtain ⟨hlast, hout⟩ := hdates.applies t z wholeSeconds (by rw [ht, hz]; exact hstrftime)
    have hfirst : ¬ t.seconds - z.minutes * 60 < -62135596800 := by
      intro hbefore
      rw [if_pos hbefore] at hout
      omega
    rw [if_neg hfirst] at hout
    refine ⟨t.seconds - z.minutes * 60, f.nanos, ⟨by omega, hlast⟩, hnanos, ?_, ?_⟩
    · rw [← Option.some.inj h, String.toList_ofList, hout, hnine]
      rfl
    · have hstored : stored = String.ofList (t.text ++ (f.text ++ z.text)) := by
        rw [ht, hz, ← hfraction, List.take_append_drop, String.ofList_toList]
      rw [timestampOf, hstored, readInstant_text]
      apply Option.filter_some_pos
      rw [inTimestampRange, Bool.and_eq_true, decide_eq_true_eq, decide_eq_true_eq,
        minTimestampNanos, maxTimestampNanos]
      omega
  next => cases h

end Stored

/-! ## Every comparison -/

/-- Two texts stand in the order of two instants. -/
def TextsCompare (text other : String) (instant otherInstant : Int) : Prop :=
  ∀ operator : ComparisonOperator,
    operator.test (.finite (compareCodePoints text.toList other.toList)) (.finite 0) =
      operator.test (.finite instant) (.finite otherInstant)

/-- A stored text that is rewritten is CEL's timestamp, and stands in the order of instants beside
the literal's text, and beside every other such text. -/
def StoredTextsCompare (dates : SqliteDates) (literal : String) (instant : Int) : Prop :=
  ∀ stored text, sqliteTextInstant dates stored = some text → ∃ n, timestampOf stored = some n ∧
    (∀ written, sqliteInstantLiteral literal = .ok written → TextsCompare text written n instant) ∧
    ∀ other text', sqliteTextInstant dates other = some text' →
      ∃ m, timestampOf other = some m ∧ TextsCompare text text' n m

/-- A literal that CEL reads as well is the same instant. -/
theorem parseRfc3339Nanoseconds_of_timestamp {literal : String} {instant : Int}
    (h : parseRfc3339Timestamp literal = some instant) :
    parseRfc3339Nanoseconds literal = .ok instant := by
  obtain ⟨hinstant, hrange⟩ := Option.filter_eq_some_iff.mp h
  exact parseRfc3339Nanoseconds_eq_ok_iff.mpr ⟨Prisma.rfc3339Nanos_of_parsed hinstant, hrange⟩

theorem textsCompare_instantText {s t : Int} (hs : InYears s) (ht : InYears t) {n m : Nat}
    (hn : n < 10 ^ 9) (hm : m < 10 ^ 9) {text other : String} (htext : text.toList = instantText s n)
    (hother : other.toList = instantText t m) :
    TextsCompare text other (s * 1000000000 + n) (t * 1000000000 + m) := by
  intro operator
  rw [htext, hother, compareCodePoints_instantText hs ht hn hm]
  exact test_finite_iff operator orderSign_eq_zero_iff orderSign_lt_zero_iff

theorem storedTextsCompare {dates : SqliteDates} (hdates : dates.Documented) {literal : String}
    {instant : Int} (hinstant : parseRfc3339Nanoseconds literal = .ok instant) :
    StoredTextsCompare dates literal instant := by
  intro stored text htext
  obtain ⟨seconds, nanos, hyears, hnanos, hfixed, hread⟩ := sqliteTextInstant_eq_some hdates htext
  refine ⟨_, hread, ?_, ?_⟩
  · intro written hwritten
    rw [sqliteInstantLiteral, hinstant] at hwritten
    obtain rfl := Except.ok.inj hwritten
    have hinYears := inYears_of_range (parseRfc3339Nanoseconds_eq_ok_iff.mp hinstant).2
    have hparts : instant / 1000000000 * 1000000000 + ((instant % 1000000000).toNat : Int) =
        instant := by omega
    have hwide : (formatRfc3339Nanoseconds instant 9).toList =
        instantText (instant / 1000000000) (instant % 1000000000).toNat := by
      rw [formatRfc3339Nanoseconds_nine hinYears, String.toList_ofList]
    have hcompare := textsCompare_instantText hyears hinYears hnanos (by omega) hfixed hwide
    rwa [hparts] at hcompare
  · intro other text' hother
    obtain ⟨seconds', nanos', hyears', hnanos', hfixed', hread'⟩ :=
      sqliteTextInstant_eq_some hdates hother
    exact ⟨_, hread', textsCompare_instantText hyears hyears' hnanos hnanos' hfixed hfixed'⟩

/-- A literal compares as an instant exactly where the grid's next point, if it is what a native
column is compared with, is before the year 10000. -/
theorem instants_compare_iff {dates : SqliteDates} (hdates : dates.Documented)
    {operator : ComparisonOperator} {column : TimestampColumn} {literal : String} {digits : Nat}
    {instant : Int} {comparison : GridComparison}
    (hdigits : timestampColumnDigits column = some digits)
    (hinstant : parseRfc3339Nanoseconds literal = .ok instant)
    (h : buildOffGridTimestampComparison operator column literal = .ok comparison) :
    comparison.Exact operator (gridOf digits) instant ∧ StoredTextsCompare dates literal instant ↔
      CeilingInYears operator (gridOf digits) instant := by
  rw [buildOffGridTimestampComparison, hdigits, hinstant] at h
  dsimp only at h
  split at h
  next => cases h
  next hle =>
    obtain rfl := Except.ok.inj h
    rw [and_iff_left (storedTextsCompare hdates hinstant)]
    exact exact_iff_ceilingInYears operator (not_lt.mp hle)
      (parseRfc3339Nanoseconds_eq_ok_iff.mp hinstant).2

section Witness

/-- The hours and the minutes of an offset, where a text ends in one, are at most 14 and 59. -/
def offsetFits (cs : List Char) : Bool :=
  match cs.drop (cs.length - 6) with
  | [_, a, b, ':', c, d] => decimalValue [a, b] ≤ 14 && decimalValue [c, d] ≤ 59
  | _ => true

open Classical in
/-- The date functions, of the years 1 to 9999 and the dates that exist. -/
noncomputable def exactDates : SqliteDates where
  strftime text :=
    if offsetFits text.toList then
      (timestampOf text).map fun nanos => String.ofList (wholeSecondsText (nanos / 1000000000))
    else none
  viaJulianDay text := if ∃ t : DateTime, t.text = text.toList then some text else none

theorem exactDates_documented : exactDates.Documented where
  fixed cs _ h := by
    rw [exactDates] at h
    dsimp only at h
    split at h
    next hexists =>
      rw [String.toList_ofList] at hexists
      exact hexists
    next => cases h
  offset_le cs sign a b c d h := by
    have hlast : (cs ++ [sign, a, b, ':', c, d]).drop
        ((cs ++ [sign, a, b, ':', c, d]).length - 6) = [sign, a, b, ':', c, d] :=
      List.drop_left' (by simp)
    have hfits : offsetFits (cs ++ [sign, a, b, ':', c, d]) =
        (decide (decimalValue [a, b] ≤ 14) && decide (decimalValue [c, d] ≤ 59)) := by
      simp only [offsetFits, hlast]
    rw [exactDates] at h
    dsimp only at h
    rw [String.toList_ofList, hfits] at h
    by_contra hbeyond
    apply h
    apply if_neg
    rw [Bool.and_eq_true, decide_eq_true_eq, decide_eq_true_eq]
    exact hbeyond
  applies t z out h := by
    rw [exactDates] at h
    dsimp only at h
    split at h
    next =>
      obtain ⟨nanos, hnanos, rfl⟩ := Option.map_eq_some_iff.mp h
      have hread := readInstant_text t ⟨0, 0, by decide, by decide⟩ z
      have htext : t.text ++ (Fraction.text ⟨0, 0, by decide, by decide⟩ ++ z.text) =
          t.text ++ z.text := rfl
      rw [htext] at hread
      rw [timestampOf, hread] at hnanos
      obtain ⟨hvalue, hrange⟩ := Option.filter_eq_some_iff.mp hnanos
      rw [inTimestampRange, Bool.and_eq_true, decide_eq_true_eq, decide_eq_true_eq,
        minTimestampNanos, maxTimestampNanos] at hrange
      have hseconds : nanos / 1000000000 = t.seconds - z.minutes * 60 := by
        have hfraction : Fraction.nanos ⟨0, 0, by decide, by decide⟩ = 0 := rfl
        rw [← Option.some.inj hvalue, hfraction]
        omega
      rw [← hseconds, if_neg (by omega), String.toList_ofList]
      exact ⟨by omega, rfl⟩
    next => cases h

theorem instants_compare_iff_half_microsecond :
    (gridComparison .lt 6 1704067200000000500).Exact .lt (gridOf 6) 1704067200000000500 ∧
        StoredTextsCompare exactDates "2024-01-01T00:00:00.0000005Z" 1704067200000000500 ↔
      CeilingInYears .lt (gridOf 6) 1704067200000000500 := by
  have hinstant : parseRfc3339Nanoseconds "2024-01-01T00:00:00.0000005Z" =
      .ok 1704067200000000500 := parseRfc3339Nanoseconds_of_timestamp rfl
  have hdigits : timestampColumnDigits (.pgTimestamp none) = some 6 := rfl
  apply instants_compare_iff exactDates_documented hdigits hinstant
  rw [buildOffGridTimestampComparison, hinstant]
  rfl

end Witness

/-- The last nanosecond of the year 9999 beside a column of microseconds. -/
theorem lastNanosecond_ceiling :
    ∃ comparison, buildOffGridTimestampComparison .lt (.pgTimestamp none)
        "9999-12-31T23:59:59.999999999Z" = .ok comparison ∧
      ¬ comparison.Exact .lt (gridOf 6) 253402300799999999999 := by
  have hinstant : parseRfc3339Nanoseconds "9999-12-31T23:59:59.999999999Z" =
      .ok 253402300799999999999 := parseRfc3339Nanoseconds_of_timestamp rfl
  refine ⟨gridComparison .lt 6 253402300799999999999, ?_, ?_⟩
  · rw [buildOffGridTimestampComparison, hinstant]
    rfl
  · rw [exact_iff_ceilingInYears .lt (by decide) (by decide)]
    intro h
    exact absurd (h (.inl rfl) (by decide)) (by decide)

end QueryPlanAdapters.Drizzle
