import QueryPlanAdapters.Cel.Temporal
import QueryPlanAdapters.Numeric.Gregorian
import Mathlib.Data.List.Induction
import Mathlib.Tactic.IntervalCases

/-!
# RFC 3339 texts and the instants they denote

A timestamp's text is a calendar date, a time of day, an optional fraction of up to nine
digits and a zone. The parser reads exactly these texts. It numbers days by ECMAScript's
formula, which is shown to count them.
-/

namespace QueryPlanAdapters

open Gregorian

/-! ## Day numbers -/

theorem isLeapYear_eq (year : Nat) : isLeapYear year = decide (IsLeap year) := by
  rw [isLeapYear, Bool.eq_iff_iff, decide_eq_true_eq]
  simp only [Bool.and_eq_true, Bool.or_eq_true, decide_eq_true_eq, IsLeap, Nat.dvd_iff_mod_eq_zero]
  omega

theorem monthLengths_eq (year : Nat) :
    monthLengths year = (List.range' 1 12).map (monthLength year) := by
  simp only [monthLengths, isLeapYear_eq, decide_eq_true_eq]
  rfl

theorem daysInMonth_eq {year month : Nat} (hmonth : 1 ≤ month ∧ month ≤ 12) :
    daysInMonth year month = monthLength year month := by
  obtain ⟨month, rfl⟩ : ∃ m, month = m + 1 := ⟨month - 1, by omega⟩
  have hlt : month < 12 := by omega
  rw [daysInMonth, monthLengths_eq, Nat.add_sub_cancel]
  simp [List.getD_eq_getElem?_getD, hlt, Nat.add_comm 1 month]

/-- One more year has the days of its length. -/
theorem dayFromYear_succ (year : Nat) :
    dayFromYear (year + 1 : Nat) = dayFromYear year + if IsLeap year then 366 else 365 := by
  have hleap : IsLeap year ↔ year % 4 = 0 ∧ (year % 100 = 0 → year % 400 = 0) := by
    simp only [IsLeap, Nat.dvd_iff_mod_eq_zero]
  rw [dayFromYear, dayFromYear]
  split
  next h =>
    rw [hleap] at h
    omega
  next h =>
    rw [hleap] at h
    omega

/-- The number of a date, counted from 1970. -/
def dayNumber (d : Date) : Int :=
  dayOfDate d.year d.month d.day

theorem sum_take_succ (year : Nat) {month : Nat} (hmonth : month < 12) :
    ((monthLengths year).take (month + 1)).sum =
      ((monthLengths year).take month).sum + monthLength year (month + 1) := by
  rw [monthLengths_eq, List.take_add_one]
  simp [hmonth, Nat.add_comm 1 month]

theorem sum_monthLengths (year : Nat) :
    (monthLengths year).sum = if IsLeap year then 366 else 365 := by
  rw [monthLengths, isLeapYear_eq]
  simp only [decide_eq_true_eq]
  split <;> rfl

/-- ECMAScript's numbering of the days. -/
theorem isNumbering_dayNumber : Date.IsNumbering dayNumber where
  next d := by
    obtain ⟨year, month, day, hyear, hmonth, hday⟩ := d
    obtain ⟨month, rfl⟩ : ∃ m, month = m + 1 := ⟨month - 1, by omega⟩
    rw [Date.next]
    dsimp only
    split
    next => simp only [dayNumber, dayOfDate]; omega
    next hlast =>
      have hlength : day = monthLength year (month + 1) := by omega
      split
      next hmore =>
        have hmonth₁₂ : month < 12 := by omega
        have hsum := sum_take_succ year hmonth₁₂
        simp only [dayNumber, dayOfDate, Nat.add_sub_cancel]
        omega
      next hdecember =>
        obtain rfl : month = 11 := by omega
        have hnovember : 11 < 12 := by decide
        have hsum := sum_take_succ year hnovember
        have hall : (monthLengths year).take (11 + 1) = monthLengths year := rfl
        have htotal := sum_monthLengths year
        have hyears := dayFromYear_succ year
        have hnone : ((monthLengths (year + 1)).take (1 - 1)).sum = 0 := rfl
        rw [hall, htotal] at hsum
        simp only [dayNumber, dayOfDate, Nat.add_sub_cancel, hnone, hyears]
        by_cases hleap : IsLeap year
        · rw [if_pos hleap] at hsum ⊢
          omega
        · rw [if_neg hleap] at hsum ⊢
          omega

theorem epochYear_pos : 1 ≤ 1970 := by decide

theorem epochMonth_mem : 1 ≤ 1 ∧ 1 ≤ 12 := by decide

theorem epochDay_mem : 1 ≤ 1 ∧ 1 ≤ monthLength 1970 1 := by decide

def epochDate : Date :=
  ⟨1970, 1, 1, epochYear_pos, epochMonth_mem, epochDay_mem⟩

theorem daysTo_epochDate_iff {d : Date} {n : Int} :
    epochDate.DaysTo d n ↔ n = dayNumber d := by
  rw [Date.daysTo_iff isNumbering_dayNumber]
  have hepoch : dayNumber epochDate = 0 := by decide
  rw [hepoch, Int.sub_zero]

/-! ## Digits -/

/-- The last decimal digits of a number, zeros in front included. -/
def paddedDigits : (width n : Nat) → List Char
  | 0, _ => []
  | width + 1, n => paddedDigits width (n / 10) ++ [Nat.digitChar (n % 10)]

theorem length_paddedDigits (width n : Nat) : (paddedDigits width n).length = width := by
  induction width generalizing n with
  | zero => rfl
  | succ width ih => rw [paddedDigits, List.length_append, ih, List.length_singleton]

theorem isDigit_digitChar {d : Nat} (h : d < 10) : isDigit (Nat.digitChar d) = true := by
  interval_cases d <;> decide

theorem digitValue_digitChar {d : Nat} (h : d < 10) : digitValue (Nat.digitChar d) = d := by
  interval_cases d <;> decide

theorem digitChar_digitValue {c : Char} (h : isDigit c = true) :
    digitValue c < 10 ∧ Nat.digitChar (digitValue c) = c := by
  obtain ⟨hlow, hhigh⟩ : 48 ≤ c.toNat ∧ c.toNat ≤ 57 := by
    simpa [isDigit, Char.le_def, UInt32.le_iff_toNat_le] using h
  have hchar : Char.ofNat c.toNat = c := Char.ofNat_toNat c
  generalize hn : c.toNat = n at hlow hhigh hchar
  rw [digitValue, hn, ← hchar]
  interval_cases n <;> decide

theorem decimalValue_concat (cs : List Char) (c : Char) :
    decimalValue (cs ++ [c]) = decimalValue cs * 10 + digitValue c := by
  rw [decimalValue, List.foldl_append]
  rfl

theorem isDigit_paddedDigits (width n : Nat) : (paddedDigits width n).all isDigit = true := by
  induction width generalizing n with
  | zero => rfl
  | succ width ih =>
      rw [paddedDigits, List.all_append, ih]
      simp [isDigit_digitChar (Nat.mod_lt n (by decide : 0 < 10))]

theorem decimalValue_paddedDigits {width n : Nat} (h : n < 10 ^ width) :
    decimalValue (paddedDigits width n) = n := by
  induction width generalizing n with
  | zero =>
      obtain rfl : n = 0 := by simpa using h
      rfl
  | succ width ih =>
      have hquotient : n / 10 < 10 ^ width := by
        rw [Nat.pow_succ] at h
        omega
      rw [paddedDigits, decimalValue_concat, ih hquotient,
        digitValue_digitChar (Nat.mod_lt n (by decide))]
      omega

/-- A text of digits spells its number out to its own length. -/
theorem paddedDigits_decimalValue {cs : List Char} (h : cs.all isDigit = true) :
    decimalValue cs < 10 ^ cs.length ∧ paddedDigits cs.length (decimalValue cs) = cs := by
  induction cs using List.reverseRecOn with
  | nil => exact ⟨by decide, rfl⟩
  | append_singleton cs c ih =>
      rw [List.all_append, Bool.and_eq_true, List.all_cons, List.all_nil, Bool.and_true] at h
      obtain ⟨hlt, hdigits⟩ := ih h.1
      obtain ⟨hvalue, hchar⟩ := digitChar_digitValue h.2
      rw [decimalValue_concat, List.length_append, List.length_singleton]
      constructor
      · rw [Nat.pow_succ]
        omega
      · have hquotient : (decimalValue cs * 10 + digitValue c) / 10 = decimalValue cs := by omega
        have hrest : (decimalValue cs * 10 + digitValue c) % 10 = digitValue c := by omega
        rw [paddedDigits, hquotient, hrest, hdigits, hchar]

theorem takeDigits_eq_some_iff {count n : Nat} {cs rest : List Char} :
    takeDigits count cs = some (n, rest) ↔
      n < 10 ^ count ∧ cs = paddedDigits count n ++ rest := by
  rw [takeDigits]
  constructor
  · intro h
    split at h
    next hdigits =>
      rw [Bool.and_eq_true, decide_eq_true_eq] at hdigits
      obtain ⟨rfl, rfl⟩ := Prod.mk.inj (Option.some.inj h)
      obtain ⟨hlt, hpadded⟩ := paddedDigits_decimalValue hdigits.2
      rw [hdigits.1] at hlt hpadded
      rw [hpadded]
      exact ⟨hlt, (List.take_append_drop count cs).symm⟩
    next => cases h
  · rintro ⟨hlt, rfl⟩
    have hlength := length_paddedDigits count n
    rw [List.take_left' hlength, List.drop_left' hlength]
    simp [hlength, isDigit_paddedDigits, decimalValue_paddedDigits hlt]

theorem takeChar_eq_some_iff {c : Char} {cs rest : List Char} :
    takeChar c cs = some rest ↔ cs = c :: rest := by
  cases cs with
  | nil => simp [takeChar]
  | cons d cs =>
      rw [takeChar]
      split
      next h => simp [h]
      next h => simp [h]

/-! ## The grammar -/

/-- The digits behind a second, at most nine; no digits and no point where there are none. -/
structure Fraction where
  count : Nat
  digits : Nat
  count_le : count ≤ 9
  digits_lt : digits < 10 ^ count

namespace Fraction

def text (f : Fraction) : List Char :=
  if f.count = 0 then [] else '.' :: paddedDigits f.count f.digits

def nanos (f : Fraction) : Nat :=
  f.digits * 10 ^ (9 - f.count)

end Fraction

inductive Zone where
  | utc
  | offset (behind : Bool) (hour : Fin 24) (minute : Fin 60)

namespace Zone

def text : Zone → List Char
  | utc => ['Z']
  | offset behind hour minute =>
      (if behind then '-' else '+') :: (paddedDigits 2 hour ++ ':' :: paddedDigits 2 minute)

/-- How far the zone's clocks are ahead. -/
def minutes : Zone → Int
  | utc => 0
  | offset behind hour minute =>
      if behind then -(hour * 60 + minute : Int) else hour * 60 + minute

end Zone

/-- A text of the grammar with a date and a time of day that exist. -/
structure Rfc3339 where
  date : Date
  year_le : date.year ≤ 9999
  hour : Fin 24
  minute : Fin 60
  second : Fin 60
  fraction : Fraction
  zone : Zone

namespace Rfc3339

def text (t : Rfc3339) : List Char :=
  paddedDigits 4 t.date.year ++ '-' :: (paddedDigits 2 t.date.month ++ '-' ::
    (paddedDigits 2 t.date.day ++ 'T' :: (paddedDigits 2 t.hour ++ ':' ::
      (paddedDigits 2 t.minute ++ ':' :: (paddedDigits 2 t.second ++
        (t.fraction.text ++ t.zone.text))))))

/-- The nanoseconds from 1970-01-01T00:00:00Z to the instant: the days to its date, and
the time of that day in its zone. -/
def Denotes (t : Rfc3339) (nanos : Int) : Prop :=
  ∃ days, epochDate.DaysTo t.date days ∧
    nanos = (days * 86400 + t.hour * 3600 + t.minute * 60 + t.second - t.zone.minutes * 60) *
      1000000000 + t.fraction.nanos

end Rfc3339

/-! ## The parser -/

theorem exists_fraction {cs rest : List Char} {nanos : Nat}
    (h : takeFraction cs = some (nanos, rest)) :
    ∃ f : Fraction, cs = f.text ++ rest ∧ nanos = f.nanos := by
  unfold takeFraction at h
  split at h
  next cs =>
    dsimp only at h
    split at h
    next => cases h
    next hdigits =>
      simp only [Bool.or_eq_true, not_or, decide_eq_true_eq, Bool.not_eq_true,
        List.isEmpty_eq_false_iff] at hdigits
      obtain ⟨rfl, rfl⟩ := Prod.mk.inj (Option.some.inj h)
      have hall : (cs.takeWhile isDigit).all isDigit = true := List.all_takeWhile
      obtain ⟨hlt, hpadded⟩ := paddedDigits_decimalValue hall
      have hcount : (cs.takeWhile isDigit).length ≠ 0 := by
        simpa [List.length_eq_zero_iff] using hdigits.1
      refine ⟨⟨_, _, by omega, hlt⟩, ?_, rfl⟩
      rw [Fraction.text, if_neg hcount, hpadded, List.cons_append, List.takeWhile_append_dropWhile]
  next cs hpoint =>
    obtain ⟨rfl, rfl⟩ := Prod.mk.inj (Option.some.inj h)
    exact ⟨⟨0, 0, by decide, by decide⟩, rfl, (Nat.zero_mul _).symm⟩

/-- A fraction ends where neither a digit nor a point follows. -/
theorem takeFraction_text (f : Fraction) {rest : List Char}
    (hrest : ∀ c ∈ rest.head?, isDigit c = false ∧ c ≠ '.') :
    takeFraction (f.text ++ rest) = some (f.nanos, rest) := by
  obtain ⟨count, digits, hcount, hdigits⟩ := f
  rw [Fraction.text]
  dsimp only
  split
  next hnone =>
    subst hnone
    obtain rfl : digits = 0 := by simpa using hdigits
    unfold takeFraction
    split
    next cs hpoint =>
      cases hpoint
      exact absurd rfl (hrest '.' rfl).2
    next => rw [Fraction.nanos, Nat.zero_mul, List.nil_append]
  next hsome =>
    have hall : ∀ c ∈ paddedDigits count digits, isDigit c = true :=
      List.all_eq_true.mp (isDigit_paddedDigits count digits)
    have hstop : rest.takeWhile isDigit = [] ∧ rest.dropWhile isDigit = rest := by
      cases rest with
      | nil => exact ⟨rfl, rfl⟩
      | cons c rest =>
          have hc := (hrest c rfl).1
          exact ⟨List.takeWhile_cons_of_neg (by simp [hc]), List.dropWhile_cons_of_neg (by simp [hc])⟩
    have htake : (paddedDigits count digits ++ rest).takeWhile isDigit =
        paddedDigits count digits := by
      rw [List.takeWhile_append_of_pos hall, hstop.1, List.append_nil]
    have hdrop : (paddedDigits count digits ++ rest).dropWhile isDigit = rest := by
      rw [List.dropWhile_append_of_pos hall, hstop.2]
    have hnonempty : (paddedDigits count digits).isEmpty = false := by
      rw [List.isEmpty_eq_false_iff, ← List.length_pos_iff, length_paddedDigits]
      omega
    rw [List.cons_append, takeFraction, htake, hdrop, length_paddedDigits, hnonempty,
      decimalValue_paddedDigits hdigits, if_neg (by simpa using hcount)]
    rfl

theorem parseZone_eq_some_iff {cs : List Char} {minutes : Int} :
    parseZone cs = some minutes ↔ ∃ z : Zone, z.text = cs ∧ z.minutes = minutes := by
  constructor
  · intro h
    unfold parseZone at h
    split at h
    next => exact ⟨.utc, rfl, Option.some.inj h⟩
    next sign cs _ =>
      simp only [Option.bind_eq_bind, Option.bind_eq_some_iff] at h
      obtain ⟨⟨hour, cs₁⟩, hhour, cs₂, hcolon, ⟨minute, cs₃⟩, hminute, h⟩ := h
      obtain ⟨-, rfl⟩ := takeDigits_eq_some_iff.mp hhour
      obtain rfl := takeChar_eq_some_iff.mp hcolon
      obtain ⟨-, rfl⟩ := takeDigits_eq_some_iff.mp hminute
      dsimp only at h
      split at h
      next => cases h
      next hrange =>
        simp only [Bool.or_eq_true, not_or, decide_eq_true_eq, Bool.not_eq_true,
          Bool.not_eq_false', List.isEmpty_iff] at hrange
        obtain ⟨⟨rfl, hhour24⟩, hminute60⟩ := hrange
        split at h
        next hplus =>
          subst hplus
          refine ⟨.offset false ⟨hour, by omega⟩ ⟨minute, by omega⟩, ?_, Option.some.inj h⟩
          simp [Zone.text]
        next =>
          split at h
          next hminus =>
            subst hminus
            refine ⟨.offset true ⟨hour, by omega⟩ ⟨minute, by omega⟩, ?_, Option.some.inj h⟩
            simp [Zone.text]
          next => cases h
    next => cases h
  · rintro ⟨z, rfl, rfl⟩
    cases z with
    | utc => rfl
    | offset behind hour minute =>
        have hhour := hour.isLt
        have hminute := minute.isLt
        have hdigitsHour : takeDigits 2 (paddedDigits 2 hour ++ ':' :: paddedDigits 2 minute) =
            some (hour.val, ':' :: paddedDigits 2 minute) :=
          takeDigits_eq_some_iff.mpr ⟨by omega, rfl⟩
        have hdigitsMinute : takeDigits 2 (paddedDigits 2 minute) = some (minute.val, []) :=
          takeDigits_eq_some_iff.mpr ⟨by omega, (List.append_nil _).symm⟩
        have hbounds : ¬ ((!([] : List Char).isEmpty || decide (23 < hour.val) ||
            decide (59 < minute.val)) = true) := by
          simp
          omega
        rw [Zone.text]
        unfold parseZone
        split
        next hz => cases behind <;> cases hz
        next sign cs _ hcons =>
          obtain ⟨rfl, rfl⟩ := List.cons.inj hcons
          have hcolon : takeChar ':' (':' :: paddedDigits 2 minute) =
              some (paddedDigits 2 minute) := takeChar_eq_some_iff.mpr rfl
          simp only [hdigitsHour, hcolon, hdigitsMinute, Option.bind_eq_bind, Option.bind_some]
          rw [if_neg hbounds]
          cases behind <;> rfl
        next hnil => cases hnil

/-- A zone's text begins with neither a digit nor a point. -/
theorem Zone.head_text (z : Zone) : ∀ c ∈ z.text.head?, isDigit c = false ∧ c ≠ '.' := by
  intro c hc
  cases z with
  | utc =>
      obtain rfl := Option.some.inj hc
      decide
  | offset behind hour minute =>
      obtain rfl := Option.some.inj hc
      cases behind <;> decide

theorem Rfc3339.denotes_iff {t : Rfc3339} {nanos : Int} :
    t.Denotes nanos ↔ nanos =
      (dayNumber t.date * 86400 + t.hour * 3600 + t.minute * 60 + t.second -
        t.zone.minutes * 60) * 1000000000 + t.fraction.nanos := by
  simp [Rfc3339.Denotes, daysTo_epochDate_iff]

/-- The parser reads the texts of the grammar, and nothing else, as the instants they denote. -/
theorem parseRfc3339Instant_eq_some_iff {text : String} {nanos : Int} :
    parseRfc3339Instant text = some nanos ↔
      ∃ t : Rfc3339, t.text = text.toList ∧ t.Denotes nanos := by
  constructor
  · intro h
    unfold parseRfc3339Instant at h
    simp only [Option.bind_eq_bind, Option.bind_eq_some_iff] at h
    obtain ⟨⟨year, cs₁⟩, hyear, cs₂, hdash, ⟨month, cs₃⟩, hmonth, cs₄, hdash', ⟨day, cs₅⟩, hday,
      cs₆, hT, ⟨hour, cs₇⟩, hhour, cs₈, hcolon, ⟨minute, cs₉⟩, hminute, cs₁₀, hcolon',
      ⟨second, cs₁₁⟩, hsecond, ⟨fraction, cs₁₂⟩, hfraction, offset, hzone, h⟩ := h
    obtain ⟨hyearDigits, htext⟩ := takeDigits_eq_some_iff.mp hyear
    obtain rfl := takeChar_eq_some_iff.mp hdash
    obtain ⟨-, rfl⟩ := takeDigits_eq_some_iff.mp hmonth
    obtain rfl := takeChar_eq_some_iff.mp hdash'
    obtain ⟨-, rfl⟩ := takeDigits_eq_some_iff.mp hday
    obtain rfl := takeChar_eq_some_iff.mp hT
    obtain ⟨-, rfl⟩ := takeDigits_eq_some_iff.mp hhour
    obtain rfl := takeChar_eq_some_iff.mp hcolon
    obtain ⟨-, rfl⟩ := takeDigits_eq_some_iff.mp hminute
    obtain rfl := takeChar_eq_some_iff.mp hcolon'
    obtain ⟨-, rfl⟩ := takeDigits_eq_some_iff.mp hsecond
    obtain ⟨f, rfl, rfl⟩ := exists_fraction hfraction
    obtain ⟨z, rfl, rfl⟩ := parseZone_eq_some_iff.mp hzone
    dsimp only at h
    split at h
    next => cases h
    next hexists =>
      simp only [Bool.or_eq_true, not_or, decide_eq_true_eq, not_lt] at hexists
      obtain ⟨⟨⟨⟨⟨⟨⟨hyear₁, hmonth₁⟩, hmonth₁₂⟩, hday₁⟩, hlength⟩, hhour₂₃⟩, hminute₅₉⟩, hsecond₅₉⟩ :=
        hexists
      rw [daysInMonth_eq ⟨hmonth₁, hmonth₁₂⟩] at hlength
      refine ⟨{ date := ⟨year, month, day, hyear₁, ⟨hmonth₁, hmonth₁₂⟩, hday₁, hlength⟩
                year_le := by show year ≤ 9999; omega
                hour := ⟨hour, by omega⟩
                minute := ⟨minute, by omega⟩
                second := ⟨second, by omega⟩
                fraction := f
                zone := z }, htext.symm, ?_⟩
      rw [Rfc3339.denotes_iff]
      exact (Option.some.inj h).symm
  · rintro ⟨t, htext, hdenotes⟩
    rw [Rfc3339.denotes_iff] at hdenotes
    obtain ⟨date, hyear_le, hour, minute, second, fraction, zone⟩ := t
    obtain ⟨year, month, day, hyear, hmonth, hday⟩ := date
    have hlength : daysInMonth year month = monthLength year month := daysInMonth_eq hmonth
    have hmonthDays : monthLength year month ≤ 31 := by
      unfold monthLength
      split
      · split <;> decide
      · split <;> decide
    have hyear4 : year < 10 ^ 4 := Nat.lt_succ_of_le hyear_le
    have hmonth2 : month < 10 ^ 2 := by omega
    have hday2 : day < 10 ^ 2 := by omega
    have hhour2 : hour.val < 10 ^ 2 := by omega
    have hminute2 : minute.val < 10 ^ 2 := by omega
    have hsecond2 : second.val < 10 ^ 2 := by omega
    have hdigits : ∀ {count n : Nat} (rest : List Char), n < 10 ^ count →
        takeDigits count (paddedDigits count n ++ rest) = some (n, rest) :=
      fun rest h => takeDigits_eq_some_iff.mpr ⟨h, rfl⟩
    have hchar : ∀ (c : Char) rest, takeChar c (c :: rest) = some rest :=
      fun c rest => takeChar_eq_some_iff.mpr rfl
    have hzone : parseZone zone.text = some zone.minutes :=
      parseZone_eq_some_iff.mpr ⟨zone, rfl, rfl⟩
    have hexists : ¬ ((decide (year < 1) || decide (month < 1) || decide (12 < month) ||
        decide (day < 1) || decide (daysInMonth year month < day) || decide (23 < hour.val) ||
        decide (59 < minute.val) || decide (59 < second.val)) = true) := by
      simp only [Bool.or_eq_true, decide_eq_true_eq, hlength]
      omega
    unfold parseRfc3339Instant
    simp only [Option.bind_eq_bind, Option.bind_eq_some_iff]
    refine ⟨(year, _), takeDigits_eq_some_iff.mpr ⟨hyear4, htext.symm⟩, _, hchar _ _,
      (month, _), hdigits _ hmonth2, _, hchar _ _, (day, _), hdigits _ hday2, _, hchar _ _,
      (hour.val, _), hdigits _ hhour2, _, hchar _ _, (minute.val, _), hdigits _ hminute2, _,
      hchar _ _, (second.val, _), hdigits _ hsecond2, (fraction.nanos, _),
      takeFraction_text fraction zone.head_text, zone.minutes, hzone, ?_⟩
    dsimp only
    rw [if_neg hexists]
    exact congrArg some hdenotes.symm

end QueryPlanAdapters
