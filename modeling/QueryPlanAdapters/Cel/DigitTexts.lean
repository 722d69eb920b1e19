import QueryPlanAdapters.Cel.CodeUnits
import QueryPlanAdapters.Cel.Rfc3339
import Mathlib.Tactic.Ring

/-!
# The order of texts of digits

Two texts of equally many digits stand in the order of the numbers that they spell, and texts
made of fields of fixed widths stand in the order of their fields.
-/

namespace QueryPlanAdapters

variable {as bs : List Char} {n : Nat}

theorem decimalValue_cons (c : Char) (cs : List Char) :
    decimalValue (c :: cs) = digitValue c * 10 ^ cs.length + decimalValue cs := by
  induction cs using List.reverseRecOn with
  | nil => simp [decimalValue]
  | append_singleton cs d ih =>
      rw [← List.cons_append, decimalValue_concat, ih, decimalValue_concat, List.length_append,
        List.length_singleton]
      ring

theorem decimalValue_lt {cs : List Char} (h : cs.all isDigit = true) :
    decimalValue cs < 10 ^ cs.length :=
  (paddedDigits_decimalValue h).1

/-- Leading zeros count for nothing. -/
theorem decimalValue_dropZeros (cs : List Char) :
    decimalValue (cs.dropWhile (· = '0')) = decimalValue cs := by
  induction cs with
  | nil => rfl
  | cons c cs ih =>
      rw [List.dropWhile_cons]
      split
      next h =>
        have hzero : digitValue c = 0 := by
          rw [of_decide_eq_true h]
          decide
        rw [ih, decimalValue_cons, hzero, Nat.zero_mul, Nat.zero_add]
      next => rfl

/-- Zeros behind the digits. -/
theorem decimalValue_zeros (cs : List Char) (count : Nat) :
    decimalValue (cs ++ List.replicate count '0') = decimalValue cs * 10 ^ count := by
  induction count with
  | zero => rw [List.replicate_zero, List.append_nil, Nat.pow_zero, Nat.mul_one]
  | succ count ih =>
      have hzero : digitValue '0' = 0 := rfl
      rw [List.replicate_succ', ← List.append_assoc, decimalValue_concat, ih, hzero, Nat.add_zero,
        Nat.mul_assoc, ← Nat.pow_succ]

theorem digitValue_lt_iff {a b : Char} (ha : isDigit a = true) (hb : isDigit b = true) :
    digitValue a < digitValue b ↔ a < b := by
  simp only [isDigit, Bool.and_eq_true, decide_eq_true_eq, Char.le_def, UInt32.le_iff_toNat_le]
    at ha hb
  have hzero : ('0' : Char).val.toNat = 48 := rfl
  rw [hzero] at ha hb
  rw [Char.lt_def, UInt32.lt_iff_toNat_lt, digitValue, digitValue, Char.toNat, Char.toNat]
  omega

/-- Digits in front decide, whatever follows them. -/
theorem orderSign_decimalValue (ha : as.all isDigit = true)
    (hb : bs.all isDigit = true) (hlength : as.length = bs.length) :
    orderSign as bs = orderSign (decimalValue as) (decimalValue bs) := by
  induction as generalizing bs with
  | nil =>
      obtain rfl := List.length_eq_zero_iff.mp hlength.symm
      rw [orderSign_self, orderSign_self]
  | cons a as ih =>
      cases bs with
      | nil => cases hlength
      | cons b bs =>
          rw [List.all_cons, Bool.and_eq_true] at ha hb
          have hlengths : as.length = bs.length := Nat.succ.inj hlength
          have ihab := ih ha.2 hb.2 hlengths
          have hrestA := decimalValue_lt ha.2
          have hrestB := decimalValue_lt hb.2
          rw [decimalValue_cons, decimalValue_cons, hlengths]
          rw [hlengths] at hrestA
          by_cases hab : a = b
          · subst hab
            rw [orderSign_cons_self, ihab]
            apply orderSign_congr
            · omega
            · omega
          · rw [orderSign_cons_of_ne hab]
            have hlt := digitValue_lt_iff ha.1 hb.1
            have hgt := digitValue_lt_iff hb.1 ha.1
            obtain h | h := lt_or_gt_of_ne hab
            · have hdigit : digitValue a + 1 ≤ digitValue b := hlt.mpr h
              have hscaled := Nat.mul_le_mul_right (10 ^ bs.length) hdigit
              rw [Nat.add_mul, Nat.one_mul] at hscaled
              rw [orderSign, if_pos h, orderSign, if_pos (by omega)]
            · have hdigit : digitValue b + 1 ≤ digitValue a := hgt.mpr h
              have hscaled := Nat.mul_le_mul_right (10 ^ bs.length) hdigit
              rw [Nat.add_mul, Nat.one_mul] at hscaled
              rw [orderSign, if_neg (lt_asymm h), if_neg hab, orderSign, if_neg (by omega),
                if_neg (by omega)]

/-- Texts of digits of one length, compared by code point. -/
theorem compareCodePoints_digits (ha : as.all isDigit = true)
    (hb : bs.all isDigit = true) (hlength : as.length = bs.length) :
    compareCodePoints as bs = orderSign (decimalValue as) (decimalValue bs) := by
  rw [compareCodePoints_eq_orderSign, orderSign_decimalValue ha hb hlength]

theorem pow_le_decimalValue {c : Char} (cs : List Char) (hdigit : isDigit c = true) (hc : c ≠ '0') :
    10 ^ cs.length ≤ decimalValue (c :: cs) := by
  have hvalue : 1 ≤ digitValue c := by
    obtain ⟨_, hchar⟩ := digitChar_digitValue hdigit
    rw [Nat.one_le_iff_ne_zero]
    intro hzero
    rw [hzero] at hchar
    exact hc hchar.symm
  have hscaled := Nat.mul_le_mul_right (10 ^ cs.length) hvalue
  rw [Nat.one_mul] at hscaled
  rw [decimalValue_cons]
  omega

/-- A bound without a leading zero is a bound by length first, and by code point at its own
length, once the leading zeros of the digits are dropped. -/
theorem decimalValue_le_iff {digits bound : List Char} (hdigits : digits.all isDigit = true)
    (hbound : bound.all isDigit = true) (hfirst : 10 ^ (bound.length - 1) ≤ decimalValue bound) :
    decimalValue digits ≤ decimalValue bound ↔
      (digits.dropWhile (· = '0')).length < bound.length ∨
        (digits.dropWhile (· = '0')).length = bound.length ∧
          compareCodePoints (digits.dropWhile (· = '0')) bound ≤ 0 := by
  have hsignificant : (digits.dropWhile (· = '0')).all isDigit = true := by
    rw [List.all_eq_true] at hdigits ⊢
    intro c hc
    exact hdigits c ((List.dropWhile_sublist _).subset hc)
  have hlt := decimalValue_lt hsignificant
  have hboundLt := decimalValue_lt hbound
  rw [← decimalValue_dropZeros digits]
  obtain hless | hsame | hmore := lt_trichotomy (digits.dropWhile (· = '0')).length bound.length
  · have hpow : 10 ^ (digits.dropWhile (· = '0')).length ≤ 10 ^ (bound.length - 1) :=
      Nat.pow_le_pow_right (by decide) (by omega)
    exact iff_of_true (by omega) (.inl hless)
  · rw [compareCodePoints_digits hsignificant hbound hsame, or_iff_right (by omega),
      and_iff_right hsame, ← not_lt (b := orderSign _ _), zero_lt_orderSign_iff, not_lt]
  · refine iff_of_false ?_ (by omega)
    generalize hrest : digits.dropWhile (· = '0') = rest at hmore hsignificant
    cases rest with
    | nil => cases hmore
    | cons c cs =>
        have hhead : c ≠ '0' := by
          have hnot := List.head?_dropWhile_not (· = '0') digits
          rw [hrest] at hnot
          simpa using hnot
        rw [List.all_cons, Bool.and_eq_true] at hsignificant
        have hpow := pow_le_decimalValue cs hsignificant.1 hhead
        have hwider : 10 ^ bound.length ≤ 10 ^ cs.length := by
          rw [List.length_cons] at hmore
          exact Nat.pow_le_pow_right (by decide) (by omega)
        omega

theorem decimalValue_lt_of_length_lt {ds ks : List Char} (hds : ds.all isDigit = true)
    (hks : ks.all isDigit = true) (hfirst : ks.head? ≠ some '0') (hlength : ds.length < ks.length) :
    decimalValue ds < decimalValue ks := by
  cases ks with
  | nil => cases hlength
  | cons c cs =>
      rw [List.all_cons, Bool.and_eq_true] at hks
      have hlead : c ≠ '0' := fun h => hfirst (congrArg some h)
      calc decimalValue ds < 10 ^ ds.length := decimalValue_lt hds
        _ ≤ 10 ^ cs.length := Nat.pow_le_pow_right (by decide) (Nat.le_of_lt_succ hlength)
        _ ≤ decimalValue (c :: cs) := pow_le_decimalValue cs hks.1 hlead

/-- Digits without leading zeros stand in the order of their lengths, and at one length in that
of their texts. -/
theorem orderSign_magnitudes {ds ks : List Char} (hds : ds.all isDigit = true)
    (hks : ks.all isDigit = true) (hdfirst : ds.head? ≠ some '0') (hkfirst : ks.head? ≠ some '0') :
    orderSign (decimalValue ds) (decimalValue ks) =
      if ds.length < ks.length then -1 else if ks.length < ds.length then 1
      else compareCodePoints ds ks := by
  split
  next hless => exact if_pos (decimalValue_lt_of_length_lt hds hks hkfirst hless)
  next hnotLess =>
    split
    next hmore =>
      have hvalue := decimalValue_lt_of_length_lt hks hds hdfirst hmore
      rw [orderSign, if_neg (lt_asymm hvalue), if_neg hvalue.ne']
    next hnotMore => rw [compareCodePoints_digits hds hks (by omega)]

theorem head_dropZeros (cs : List Char) : (cs.dropWhile (· = '0')).head? ≠ some '0' := by
  have hnot := List.head?_dropWhile_not (· = '0') cs
  intro hhead
  rw [hhead] at hnot
  simp at hnot

/-! ## The digits of a number -/

theorem isDigit_toDigits (n : Nat) : (Nat.toDigits 10 n).all isDigit = true := by
  induction n using Nat.strongRecOn with
  | ind n ih =>
      obtain hless | hmore := Nat.lt_or_ge n 10
      · rw [Nat.toDigits_of_lt_base hless, List.all_cons, isDigit_digitChar hless, List.all_nil,
          Bool.and_self]
      · rw [Nat.toDigits_of_base_le (by decide) hmore, List.all_append, ih _ (by omega),
          List.all_cons, isDigit_digitChar (by omega), List.all_nil, Bool.and_self, Bool.and_self]

theorem decimalValue_toDigits (n : Nat) : decimalValue (Nat.toDigits 10 n) = n := by
  induction n using Nat.strongRecOn with
  | ind n ih =>
      obtain hless | hmore := Nat.lt_or_ge n 10
      · rw [Nat.toDigits_of_lt_base hless, decimalValue_cons, digitValue_digitChar hless]
        simp [decimalValue]
      · rw [Nat.toDigits_of_base_le (by decide) hmore, decimalValue_concat, ih _ (by omega),
          digitValue_digitChar (by omega)]
        omega

theorem head_toDigits (hpos : 0 < n) : (Nat.toDigits 10 n).head? ≠ some '0' := by
  induction n using Nat.strongRecOn with
  | ind n ih =>
      obtain hless | hmore := Nat.lt_or_ge n 10
      · rw [Nat.toDigits_of_lt_base hless, List.head?_cons]
        intro hzero
        exact hpos.ne' (Nat.digitChar_eq_zero.mp (Option.some_inj.mp hzero))
      · have hnonempty : Nat.toDigits 10 (n / 10) ≠ [] :=
          List.ne_nil_of_length_pos Nat.length_toDigits_pos
        rw [Nat.toDigits_of_base_le (by decide) hmore, List.head?_append_of_ne_nil _ hnonempty]
        exact ih _ (by omega) (by omega)

theorem getLast_toDigits (h : n % 10 ≠ 0) : (Nat.toDigits 10 n).getLast? ≠ some '0' := by
  have hlast : (Nat.toDigits 10 n).getLast? = some (Nat.digitChar (n % 10)) := by
    obtain hlt | hge := lt_or_ge n 10
    · rw [Nat.toDigits_of_lt_base hlt, Nat.mod_eq_of_lt hlt]
      rfl
    · rw [Nat.toDigits_of_base_le (by decide) hge, List.getLast?_concat]
  rw [hlast, ne_eq, Option.some_inj, Nat.digitChar_eq_zero]
  exact h

theorem two_le_length_toDigits (h : 10 ≤ n) : 2 ≤ (Nat.toDigits 10 n).length := by
  rw [Nat.toDigits_of_base_le (by decide) h, List.length_append, List.length_singleton]
  exact Nat.succ_le_succ Nat.length_toDigits_pos

/-- A field of a fixed width decides before what follows it. -/
theorem compareCodePoints_append (hlength : as.length = bs.length) (cs ds : List Char) :
    compareCodePoints (as ++ cs) (bs ++ ds) =
      if as = bs then compareCodePoints cs ds else compareCodePoints as bs := by
  induction as generalizing bs with
  | nil =>
      obtain rfl := List.length_eq_zero_iff.mp hlength.symm
      rw [if_pos rfl, List.nil_append, List.nil_append]
  | cons a as ih =>
      cases bs with
      | nil => cases hlength
      | cons b bs =>
          rw [List.cons_append, List.cons_append, compareCodePoints, compareCodePoints,
            ih (Nat.succ.inj hlength)]
          by_cases hab : a = b
          · simp [hab]
          · simp [hab]

end QueryPlanAdapters
