import QueryPlanAdapters.Cel.Rfc3339
import Mathlib.Data.Nat.Find

/-!
# Elasticsearch: instants and their texts

The adapter parses a timestamp literal, shifts it, and writes it back with
`DateTimeFormatter.ISO_INSTANT`. Within the years 1 to 9999 the text that is written is
one of the grammar that is read, and denotes the instant.
-/

namespace QueryPlanAdapters.Elasticsearch

open Gregorian

/-! ## Reading -/

/-- The offset in minutes of a text of the grammar. -/
def zoneOffset (text : String) : Option Int :=
  if text.toList.getLast? = some 'Z' then some 0
  else parseZone (text.toList.drop (text.length - 6))

/-- `OffsetDateTime.parse(text, ISO_OFFSET_DATE_TIME).toInstant()`, of a text of the
adapter's own pattern: a `ZoneOffset` has at most 18 hours. -/
def parseOffsetDateTime (text : String) : Option Int :=
  match zoneOffset text with
  | some minutes =>
      if minutes < -1080 || 1080 < minutes then none else parseRfc3339Instant text
  | none => none

/-! ## Writing -/

/-- The year of a day counted from 1970-01-01, for the years 1 to 9999. -/
def yearOf (day : Int) : Nat :=
  Nat.findGreatest (fun year => dayFromYear year ≤ day) 9999

/-- The months of the year before that of the day. -/
def monthsBefore (day : Int) : Nat :=
  Nat.findGreatest (fun months => dayOfDate (yearOf day) (months + 1) 1 ≤ day) 11

def monthOf (day : Int) : Nat :=
  monthsBefore day + 1

def dayOfMonth (day : Int) : Nat :=
  (day - dayOfDate (yearOf day) (monthOf day) 1 + 1).toNat

/-- The fraction of a second: none, or three, six or nine digits. -/
def fractionText (nanos : Nat) : List Char :=
  if nanos = 0 then []
  else if nanos % 1000000 = 0 then '.' :: paddedDigits 3 (nanos / 1000000)
  else if nanos % 1000 = 0 then '.' :: paddedDigits 6 (nanos / 1000)
  else '.' :: paddedDigits 9 nanos

/-- `DateTimeFormatter.ISO_INSTANT.format(instant)`, of an instant of the years 1 to 9999. -/
def formatInstant (nanos : Int) : String :=
  let seconds := nanos / 1000000000
  let day := seconds / 86400
  let second := (seconds % 86400).toNat
  String.ofList <|
    paddedDigits 4 (yearOf day) ++ '-' :: (paddedDigits 2 (monthOf day) ++ '-' ::
      (paddedDigits 2 (dayOfMonth day) ++ 'T' :: (paddedDigits 2 (second / 3600) ++ ':' ::
        (paddedDigits 2 (second / 60 % 60) ++ ':' :: (paddedDigits 2 (second % 60) ++
          (fractionText (nanos % 1000000000).toNat ++ ['Z']))))))

/-! ## What is written is read back -/

theorem dayFromYear_yearOf {day : Int} (hfirst : dayFromYear 1 ≤ day)
    (hlast : day < dayFromYear 10000) :
    1 ≤ yearOf day ∧ yearOf day ≤ 9999 ∧ dayFromYear (yearOf day) ≤ day ∧
      day < dayFromYear (yearOf day + 1 : Nat) := by
  have hpos : 1 ≤ yearOf day := Nat.le_findGreatest (by decide) hfirst
  have hle : yearOf day ≤ 9999 := Nat.findGreatest_le 9999
  have hyear : dayFromYear (yearOf day) ≤ day :=
    Nat.findGreatest_of_ne_zero (P := fun year : Nat => dayFromYear year ≤ day) rfl (by omega)
  refine ⟨hpos, hle, hyear, ?_⟩
  by_cases hlt : yearOf day + 1 ≤ 9999
  · exact not_le.mp (Nat.findGreatest_is_greatest (Nat.lt_succ_self _) hlt)
  · have hyear9999 : yearOf day = 9999 := by omega
    rw [hyear9999]
    exact hlast

theorem dayOfDate_one (year : Nat) : dayOfDate year 1 1 = dayFromYear year := by
  simp [dayOfDate]

theorem dayOfDate_succ (year : Nat) {months : Nat} (hmonths : months < 12) :
    dayOfDate year (months + 2) 1 = dayOfDate year (months + 1) 1 + monthLength year (months + 1) := by
  have hsum := sum_take_succ year hmonths
  simp only [dayOfDate, Nat.add_sub_cancel]
  rw [show months + 2 - 1 = months + 1 from rfl, hsum]
  push_cast
  omega

theorem day_mem_month {day : Int} (hfirst : dayFromYear 1 ≤ day)
    (hlast : day < dayFromYear 10000) :
    monthsBefore day ≤ 11 ∧ dayOfDate (yearOf day) (monthOf day) 1 ≤ day ∧
      day < dayOfDate (yearOf day) (monthOf day) 1 + monthLength (yearOf day) (monthOf day) := by
  obtain ⟨-, -, hyear, hnext⟩ := dayFromYear_yearOf hfirst hlast
  have hle : monthsBefore day ≤ 11 := Nat.findGreatest_le 11
  have hmonth : dayOfDate (yearOf day) (monthOf day) 1 ≤ day := by
    by_cases hjanuary : monthsBefore day = 0
    · rw [monthOf, hjanuary, dayOfDate_one]
      exact hyear
    · exact Nat.findGreatest_of_ne_zero
        (P := fun months : Nat => dayOfDate (yearOf day) (months + 1) 1 ≤ day) rfl hjanuary
  refine ⟨hle, hmonth, ?_⟩
  have hlt : monthsBefore day < 12 := by omega
  have hlength := dayOfDate_succ (yearOf day) hlt
  rw [monthOf, ← hlength]
  by_cases hmore : monthsBefore day + 1 ≤ 11
  · exact not_le.mp (Nat.findGreatest_is_greatest (Nat.lt_succ_self _) hmore)
  · have hdecember : monthsBefore day = 11 := by omega
    rw [hdecember]
    have hsum := sum_monthLengths (yearOf day)
    have hall : (monthLengths (yearOf day)).take 12 = monthLengths (yearOf day) := rfl
    rw [dayFromYear_succ] at hnext
    simp only [dayOfDate]
    rw [show 11 + 2 - 1 = 12 from rfl, hall, hsum]
    by_cases hleap : IsLeap (yearOf day)
    · rw [if_pos hleap] at hnext ⊢
      omega
    · rw [if_neg hleap] at hnext ⊢
      omega

theorem exists_fractionText {nanos : Nat} (h : nanos < 1000000000) :
    ∃ f : Fraction, f.text = fractionText nanos ∧ f.nanos = nanos := by
  rw [fractionText]
  split
  next hzero =>
    subst hzero
    exact ⟨⟨0, 0, by decide, by decide⟩, rfl, Nat.zero_mul _⟩
  next hnonzero =>
    split
    next hmillis =>
      refine ⟨⟨3, nanos / 1000000, by decide, by omega⟩, rfl, ?_⟩
      simp only [Fraction.nanos]
      omega
    next =>
      split
      next hmicros =>
        refine ⟨⟨6, nanos / 1000, by decide, by omega⟩, rfl, ?_⟩
        simp only [Fraction.nanos]
        omega
      next => exact ⟨⟨9, nanos, by decide, h⟩, rfl, by simp [Fraction.nanos]⟩

/-- The date, the time of day and a fraction of a second, written in UTC. -/
theorem exists_instantText {seconds : Int} (hfirst : -62135596800 ≤ seconds)
    (hlast : seconds ≤ 253402300799) (fraction : Fraction) :
    ∃ t : Rfc3339, t.Denotes (seconds * 1000000000 + fraction.nanos) ∧ t.zone = .utc ∧
      t.text = paddedDigits 4 (yearOf (seconds / 86400)) ++ '-' ::
        (paddedDigits 2 (monthOf (seconds / 86400)) ++ '-' ::
          (paddedDigits 2 (dayOfMonth (seconds / 86400)) ++ 'T' ::
            (paddedDigits 2 ((seconds % 86400).toNat / 3600) ++ ':' ::
              (paddedDigits 2 ((seconds % 86400).toNat / 60 % 60) ++ ':' ::
                (paddedDigits 2 ((seconds % 86400).toNat % 60) ++ (fraction.text ++ ['Z'])))))) := by
  have hfirstYear : dayFromYear 1 = -719162 := by decide
  have hlastYear : dayFromYear 10000 = 2932897 := by decide
  have hday₁ : dayFromYear 1 ≤ seconds / 86400 := by omega
  have hday₂ : seconds / 86400 < dayFromYear 10000 := by omega
  obtain ⟨hyear₁, hyear₉₉₉₉, -, -⟩ := dayFromYear_yearOf hday₁ hday₂
  obtain ⟨hmonths, hmonth, hlength⟩ := day_mem_month hday₁ hday₂
  have hdayNumber : dayOfDate (yearOf (seconds / 86400)) (monthOf (seconds / 86400))
      (dayOfMonth (seconds / 86400)) = seconds / 86400 := by
    have hcount : ((dayOfMonth (seconds / 86400) : Nat) : Int) =
        seconds / 86400 - dayOfDate (yearOf (seconds / 86400)) (monthOf (seconds / 86400)) 1 + 1 := by
      rw [dayOfMonth]
      omega
    simp only [dayOfDate] at hcount ⊢
    omega
  refine ⟨{ date := ⟨yearOf (seconds / 86400), monthOf (seconds / 86400),
              dayOfMonth (seconds / 86400), hyear₁, ?_, ?_⟩
            year_le := hyear₉₉₉₉
            hour := ⟨(seconds % 86400).toNat / 3600, by omega⟩
            minute := ⟨(seconds % 86400).toNat / 60 % 60, by omega⟩
            second := ⟨(seconds % 86400).toNat % 60, by omega⟩
            fraction
            zone := .utc }, ?_, rfl, rfl⟩
  · rw [monthOf]
    omega
  · rw [dayOfMonth]
    omega
  · rw [Rfc3339.denotes_iff]
    simp only [dayNumber, hdayNumber, Zone.minutes]
    omega

/-- The text of an instant denotes the instant, and is written in UTC. -/
theorem exists_formatInstant {nanos : Int} (h : inTimestampRange nanos = true) :
    ∃ t : Rfc3339, t.text = (formatInstant nanos).toList ∧ t.Denotes nanos ∧ t.zone = .utc := by
  have hrange : minTimestampNanos ≤ nanos ∧ nanos ≤ maxTimestampNanos := by
    rwa [inTimestampRange, Bool.and_eq_true, decide_eq_true_eq, decide_eq_true_eq] at h
  rw [minTimestampNanos, maxTimestampNanos] at hrange
  have hfraction : (nanos % 1000000000).toNat < 1000000000 := by omega
  obtain ⟨fraction, hfractionText, hfractionNanos⟩ := exists_fractionText hfraction
  obtain ⟨t, hdenotes, hzone, htext⟩ := @exists_instantText (nanos / 1000000000) (by omega)
    (by omega) fraction
  have hnanos : nanos / 1000000000 * 1000000000 + fraction.nanos = nanos := by omega
  refine ⟨t, ?_, hnanos ▸ hdenotes, hzone⟩
  rw [htext, hfractionText, formatInstant, String.toList_ofList]

/-- What is written is read back as the same instant. -/
theorem parseOffsetDateTime_formatInstant {nanos : Int} (h : inTimestampRange nanos = true) :
    parseOffsetDateTime (formatInstant nanos) = some nanos := by
  obtain ⟨t, htext, hdenotes, hzone⟩ := exists_formatInstant h
  have hparsed : parseRfc3339Instant (formatInstant nanos) = some nanos :=
    parseRfc3339Instant_eq_some_iff.mpr ⟨t, htext, hdenotes⟩
  have hutc : (formatInstant nanos).toList.getLast? = some 'Z' := by
    simp [formatInstant, List.getLast?_append, List.getLast?_cons]
  rw [parseOffsetDateTime, zoneOffset, if_pos hutc]
  exact hparsed

end QueryPlanAdapters.Elasticsearch
