import Mathlib.Logic.Function.Iterate
import Mathlib.Order.Basic
import Mathlib.Order.Nat

/-!
# The proleptic Gregorian calendar

Dates from the first of January of the year 1 on, each with the day that follows it.
A numbering of the dates that grows by one from each date to the next counts the days
between any two of them.
-/

namespace Gregorian

def IsLeap (year : Nat) : Prop :=
  4 ∣ year ∧ (100 ∣ year → 400 ∣ year)

instance (year : Nat) : Decidable (IsLeap year) :=
  inferInstanceAs (Decidable (_ ∧ _))

def monthLength (year month : Nat) : Nat :=
  if month = 2 then if IsLeap year then 29 else 28
  else if month = 4 ∨ month = 6 ∨ month = 9 ∨ month = 11 then 30
  else 31

theorem monthLength_pos (year month : Nat) : 0 < monthLength year month := by
  unfold monthLength
  split
  · split <;> decide
  · split <;> decide

theorem monthLength_december (year : Nat) : monthLength year 12 = 31 := rfl

@[ext]
structure Date where
  year : Nat
  month : Nat
  day : Nat
  year_pos : 1 ≤ year
  month_mem : 1 ≤ month ∧ month ≤ 12
  day_mem : 1 ≤ day ∧ day ≤ monthLength year month
  deriving DecidableEq

namespace Date

def first : Date := ⟨1, 1, 1, by decide, by decide, by decide⟩

/-- The day after. -/
def next (d : Date) : Date :=
  if hday : d.day < monthLength d.year d.month then
    { d with day := d.day + 1, day_mem := ⟨d.day.succ_pos, hday⟩ }
  else if hmonth : d.month < 12 then
    { year := d.year, month := d.month + 1, day := 1
      year_pos := d.year_pos
      month_mem := ⟨d.month.succ_pos, hmonth⟩
      day_mem := ⟨le_refl 1, monthLength_pos _ _⟩ }
  else
    { year := d.year + 1, month := 1, day := 1
      year_pos := d.year.succ_pos
      month_mem := by decide
      day_mem := ⟨le_refl 1, monthLength_pos _ _⟩ }

/-- Every date but the first is the day after another one, of an earlier year, month or day. -/
theorem exists_next (d : Date) (h : d ≠ first) :
    ∃ p : Date, p.next = d ∧
      p.year * 400 + p.month * 32 + p.day < d.year * 400 + d.month * 32 + d.day := by
  obtain ⟨year, month, day, hyear, hmonth, hday⟩ := d
  by_cases hfirstDay : day = 1
  · subst hfirstDay
    by_cases hfirstMonth : month = 1
    · subst hfirstMonth
      have hpast : 1 < year := by
        by_contra hle
        apply h
        ext
        · exact le_antisymm (not_lt.mp hle) hyear
        · rfl
        · rfl
      obtain ⟨year, rfl⟩ : ∃ y, year = y + 1 := ⟨year - 1, by omega⟩
      refine ⟨⟨year, 12, 31, by omega, by decide, by decide, (monthLength_december year).ge⟩, ?_, ?_⟩
      · simp [next, monthLength_december]
      · show year * 400 + 12 * 32 + 31 < (year + 1) * 400 + 1 * 32 + 1
        omega
    · obtain ⟨month, rfl⟩ : ∃ m, month = m + 1 := ⟨month - 1, by omega⟩
      have hlast : monthLength year month ≤ 31 := by
        unfold monthLength
        split
        · split <;> omega
        · split <;> omega
      refine ⟨⟨year, month, monthLength year month, hyear, by omega, monthLength_pos _ _, le_refl _⟩,
        ?_, ?_⟩
      · have hmore : month < 12 := by omega
        simp [next, hmore]
      · show year * 400 + month * 32 + monthLength year month < year * 400 + (month + 1) * 32 + 1
        omega
  · obtain ⟨day, rfl⟩ : ∃ n, day = n + 1 := ⟨day - 1, by omega⟩
    refine ⟨⟨year, month, day, hyear, hmonth, by omega, by omega⟩, ?_, ?_⟩
    · have hmore : day < monthLength year month := by omega
      simp [next, hmore]
    · show year * 400 + month * 32 + day < year * 400 + month * 32 + (day + 1)
      omega

/-- Every date is reached from the first one, day by day. -/
theorem exists_iterate (d : Date) : ∃ k, next^[k] first = d := by
  induction hsize : d.year * 400 + d.month * 32 + d.day using Nat.strong_induction_on
    generalizing d with
  | h size ih =>
      by_cases hfirst : d = first
      · exact ⟨0, hfirst.symm⟩
      · obtain ⟨p, rfl, hlt⟩ := exists_next d hfirst
        obtain ⟨k, hk⟩ := ih _ (hsize ▸ hlt) p rfl
        exact ⟨k + 1, by rw [Function.iterate_succ_apply', hk]⟩

/-- The days from one date to another: how often the day after is taken, counted down
where the other date is the earlier one. -/
def DaysTo (a b : Date) (n : Int) : Prop :=
  (∃ k : Nat, n = k ∧ next^[k] a = b) ∨ ∃ k : Nat, n = -(k : Int) ∧ next^[k] b = a

/-- A number for each date, one more for the day after. -/
structure IsNumbering (number : Date → Int) : Prop where
  next : ∀ d : Date, number d.next = number d + 1

section Numbering

variable {number : Date → Int} (h : IsNumbering number)

include h

theorem number_iterate (d : Date) (k : Nat) : number (next^[k] d) = number d + k := by
  induction k with
  | zero => simp
  | succ k ih =>
      rw [Function.iterate_succ_apply', h.next, ih]
      push_cast
      omega

/-- The days between two dates are the difference of their numbers. -/
theorem daysTo_iff {a b : Date} {n : Int} : DaysTo a b n ↔ n = number b - number a := by
  constructor
  · rintro (⟨k, rfl, rfl⟩ | ⟨k, rfl, rfl⟩)
    · rw [number_iterate h]
      omega
    · rw [number_iterate h]
      omega
  · rintro rfl
    obtain ⟨i, rfl⟩ := exists_iterate a
    obtain ⟨j, rfl⟩ := exists_iterate b
    rw [number_iterate h, number_iterate h]
    obtain hij | hji := le_total i j
    · refine .inl ⟨j - i, by omega, ?_⟩
      rw [← Function.iterate_add_apply, Nat.sub_add_cancel hij]
    · refine .inr ⟨i - j, by omega, ?_⟩
      rw [← Function.iterate_add_apply, Nat.sub_add_cancel hji]

end Numbering

end Date

end Gregorian
