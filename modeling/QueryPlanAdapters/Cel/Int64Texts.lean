import QueryPlanAdapters.Cel.DigitTexts
import Mathlib.Tactic.IntervalCases

/-!
# Texts of 64-bit integers

What Go reads as an int64: an optional sign and digits, whose magnitude is at most that of the
end of the range on the side of the sign.
-/

namespace QueryPlanAdapters

/-- `strconv.ParseInt(s, 10, 64)` -/
def parseInt64 (s : String) : Option Int :=
  (parseCelInt s).filter fun n => decide (int64Min ≤ n ∧ n ≤ int64Max)

/-! ## The sign -/

theorem takeSign_cons (c : Char) (cs : List Char) :
    takeSign (c :: cs) =
      if c = '-' then (true, cs) else if c = '+' then (false, cs) else (false, c :: cs) := by
  rw [takeSign.eq_def]
  split
  next h => rw [if_pos (List.cons.inj h).1, (List.cons.inj h).2]
  next h =>
    obtain ⟨rfl, rfl⟩ := List.cons.inj h
    rfl
  next hminus hplus =>
    rw [if_neg (fun h => hminus _ (congrArg (· :: cs) h)),
      if_neg (fun h => hplus _ (congrArg (· :: cs) h))]

theorem takeSign_fst (cs : List Char) : (takeSign cs).1 = decide (cs.head? = some '-') := by
  cases cs with
  | nil => rfl
  | cons c cs =>
      rw [takeSign_cons, List.head?_cons]
      by_cases hminus : c = '-'
      · simp [hminus]
      · by_cases hplus : c = '+'
        · simp [hplus]
        · simp [hminus, hplus]

/-! ## The digits -/

theorem isDigit_iff_mem (c : Char) : isDigit c = true ↔ c ∈ "0123456789".toList := by
  constructor
  · intro h
    obtain ⟨hlt, hchar⟩ := digitChar_digitValue h
    rw [← hchar]
    generalize digitValue c = d at hlt
    interval_cases d <;> decide
  · intro h
    have hall : "0123456789".toList.all isDigit = true := by decide
    exact List.all_eq_true.mp hall c h

theorem length_nonDigits_eq_zero_iff (digits : List Char) :
    (digits.filter (· ∉ "0123456789".toList)).length = 0 ↔ digits.all isDigit = true := by
  rw [List.length_eq_zero_iff, List.filter_eq_nil_iff, List.all_eq_true]
  apply forall₂_congr
  intro c _
  rw [isDigit_iff_mem, decide_eq_true_iff, not_not]

/-- The digits of the greatest magnitude. -/
def boundDigits (negative : Bool) : List Char :=
  if negative then "9223372036854775808".toList else "9223372036854775807".toList

theorem boundDigits_spec (negative : Bool) :
    (boundDigits negative).all isDigit = true ∧ (boundDigits negative).length = 19 ∧
      decimalValue (boundDigits negative) = if negative then 2 ^ 63 else 2 ^ 63 - 1 := by
  cases negative <;> decide

theorem parseInt64_eq (s : String) :
    parseInt64 s =
      if (takeSign s.toList).2 ≠ [] ∧ (takeSign s.toList).2.all isDigit = true ∧
          decimalValue (takeSign s.toList).2 ≤ decimalValue (boundDigits (takeSign s.toList).1) then
        some (if (takeSign s.toList).1 then -(decimalValue (takeSign s.toList).2 : Int)
          else decimalValue (takeSign s.toList).2)
      else none := by
  rw [parseInt64, parseCelInt]
  generalize takeSign s.toList = signed
  obtain ⟨negative, digits⟩ := signed
  obtain ⟨_, _, hvalue⟩ := boundDigits_spec negative
  rw [hvalue]
  by_cases hdigits : digits ≠ [] ∧ digits.all isDigit = true
  · have hspelled : (digits.isEmpty || !digits.all isDigit) = false := by
      rw [hdigits.2, List.isEmpty_eq_false_iff.mpr hdigits.1]
      rfl
    simp only [hspelled, Bool.false_eq_true, if_false, Option.filter_some, decide_eq_true_iff,
      and_iff_right hdigits.1, and_iff_right hdigits.2]
    have hfits : (int64Min ≤ (if negative then -(decimalValue digits : Int) else decimalValue digits) ∧
        (if negative then -(decimalValue digits : Int) else decimalValue digits) ≤ int64Max) ↔
        decimalValue digits ≤ if negative then 2 ^ 63 else 2 ^ 63 - 1 := by
      rw [int64Min, int64Max]
      cases negative
      · simp only [Bool.false_eq_true, if_false]
        omega
      · simp only [if_true]
        omega
    exact if_congr hfits rfl rfl
  · have hspelled : (digits.isEmpty || !digits.all isDigit) = true := by
      rw [Bool.or_eq_true, List.isEmpty_iff, Bool.not_eq_true']
      by_contra hnot
      rw [not_or, Bool.not_eq_false] at hnot
      exact hdigits hnot
    simp only [hspelled, if_true, Option.filter_none]
    rw [if_neg]
    rintro ⟨hne, hall, _⟩
    exact hdigits ⟨hne, hall⟩

end QueryPlanAdapters
