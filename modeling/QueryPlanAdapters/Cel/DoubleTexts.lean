import QueryPlanAdapters.Cel.DigitTexts
import QueryPlanAdapters.Numeric.ShortestDecimal

/-!
# Texts of doubles

Go's `%g` lays the significant digits of a double out around a point or in front of an
exponent. The text is taken apart again into a sign, digits, a fraction and an exponent, and
denotes the digits at their place.
-/

namespace QueryPlanAdapters

open Double (Decimal)

/-! ## Go's layout -/

namespace Strconv

/-- The digits of an exponent, two of them at least. No double has an exponent of more than
three digits, which is what the last branch is written for. -/
def exponentDigits (exponent : Nat) : List Char :=
  if exponent < 10 then '0' :: Nat.toDigits 10 exponent else Nat.toDigits 10 exponent

/-- `%e`: one digit in front of the point. -/
def fmtE (digits : List Char) (point : Int) : List Char :=
  let exponent := point - 1
  digits.take 1 ++ (if 1 < digits.length then '.' :: digits.drop 1 else []) ++
    'e' :: (if exponent < 0 then '-' else '+') :: exponentDigits exponent.natAbs

/-- `%f`: the digits that stand in front of the point, then as many places as they need. -/
def fmtF (digits : List Char) (point : Int) : List Char :=
  let places := ((digits.length : Int) - point).toNat
  let whole :=
    if 0 < point then
      digits.take point.toNat ++ List.replicate (point.toNat - digits.length) '0'
    else ['0']
  let place (i : Nat) : Char := if 0 ≤ point + i then digits.getD (point + i).toNat '0' else '0'
  whole ++ if 0 < places then '.' :: (List.range places).map place else []

/-- `FormatFloat(d, 'g', -1, 64)` once the shortest digits and their exponent are known. -/
def formatG (negative : Bool) (digits : List Char) (exponent : Int) : List Char :=
  (if negative then ['-'] else []) ++
    if exponent < -4 ∨ 6 ≤ exponent then fmtE digits (exponent + 1)
    else fmtF digits (exponent + 1)

end Strconv

/-! ## Texts taken apart -/

/-- A decimal spelling of a number. A fraction without digits has no point. -/
structure NumberText where
  negative : Bool
  whole : List Char
  fraction : List Char
  /-- Whether it is negative, and its digits. -/
  exponent : Option (Bool × List Char)
  deriving DecidableEq, Repr

namespace NumberText

def fractionText : List Char → List Char
  | [] => []
  | digits => '.' :: digits

def exponentText : Option (Bool × List Char) → List Char
  | none => []
  | some (negative, digits) => 'e' :: (if negative then '-' else '+') :: digits

def text (t : NumberText) : List Char :=
  (if t.negative then ['-'] else []) ++
    (t.whole ++ (fractionText t.fraction ++ exponentText t.exponent))

def exponentValue : Option (Bool × List Char) → Int
  | none => 0
  | some (negative, digits) => if negative then -decimalValue digits else decimalValue digits

def magnitude (t : NumberText) : ℚ :=
  decimalValue (t.whole ++ t.fraction) * 10 ^ (exponentValue t.exponent - t.fraction.length)

structure WellFormed (t : NumberText) : Prop where
  whole : t.whole ≠ [] ∧ t.whole.all isDigit = true
  fraction : t.fraction.all isDigit = true
  exponent : ∀ e ∈ t.exponent, e.2 ≠ [] ∧ e.2.all isDigit = true

theorem takeSign_digits {cs rest : List Char} (hne : cs ≠ []) (h : cs.all isDigit = true) :
    takeSign (cs ++ rest) = (false, cs ++ rest) := by
  obtain ⟨c, cs, rfl⟩ := List.exists_cons_of_ne_nil hne
  rw [List.all_cons, Bool.and_eq_true] at h
  have hminus : c ≠ '-' := by rintro rfl; cases h.1
  have hplus : c ≠ '+' := by rintro rfl; cases h.1
  rw [List.cons_append, takeSign]
  · rintro _ ⟨⟩
    exact hminus rfl
  · rintro _ ⟨⟩
    exact hplus rfl

theorem takeWhile_digits {ds : List Char} (h : ds.all isDigit = true) {rest : List Char}
    (hrest : ∀ c ∈ rest.head?, isDigit c = false) : (ds ++ rest).takeWhile isDigit = ds := by
  rw [List.takeWhile_append_of_pos (List.all_eq_true.mp h)]
  cases rest with
  | nil => exact List.append_nil ds
  | cons c cs =>
      rw [List.takeWhile_cons_of_neg (by rw [hrest c rfl]; exact Bool.false_ne_true),
        List.append_nil]

theorem dropWhile_digits {ds : List Char} (h : ds.all isDigit = true) {rest : List Char}
    (hrest : ∀ c ∈ rest.head?, isDigit c = false) : (ds ++ rest).dropWhile isDigit = rest := by
  rw [List.dropWhile_append_of_pos (List.all_eq_true.mp h)]
  cases rest with
  | nil => rfl
  | cons c cs => rw [List.dropWhile_cons_of_neg (by rw [hrest c rfl]; exact Bool.false_ne_true)]

theorem head_exponentText (e : Option (Bool × List Char)) :
    ∀ c ∈ (exponentText e).head?, isDigit c = false ∧ c ≠ '.' := by
  intro c hc
  cases e with
  | none => cases hc
  | some e =>
      cases hc
      exact ⟨rfl, by decide⟩

theorem head_fractionText (fraction : List Char) (e : Option (Bool × List Char)) :
    ∀ c ∈ (fractionText fraction ++ exponentText e).head?, isDigit c = false := by
  intro c hc
  cases fraction with
  | nil => exact (head_exponentText e c hc).1
  | cons d ds =>
      cases hc
      rfl

section Parsing

variable {t : NumberText} (h : t.WellFormed)
include h

theorem parseExponent_text :
    parseExponent (exponentText t.exponent) = some (exponentValue t.exponent) := by
  have hexponent := h.exponent
  cases hcase : t.exponent with
  | none => rfl
  | some e =>
      obtain ⟨hne, hdigits⟩ := hexponent e hcase
      obtain ⟨negative, digits⟩ := e
      have hsign : takeSign ((if negative then '-' else '+') :: digits) = (negative, digits) := by
        cases negative <;> rfl
      simp only at hne hdigits
      rw [exponentText, parseExponent, if_pos (.inl rfl), parseCelInt, String.toList_ofList, hsign]
      simp [hne, hdigits, exponentValue]

theorem takeSign_text : takeSign t.text =
    (t.negative, t.whole ++ (fractionText t.fraction ++ exponentText t.exponent)) := by
  rw [text]
  cases t.negative with
  | false =>
      rw [if_neg Bool.false_ne_true, List.nil_append]
      exact takeSign_digits h.whole.1 h.whole.2
  | true => rfl

/-- A text denotes what its parts spell. -/
theorem parseDecimal_text :
    parseDecimal (String.ofList t.text) = some (t.negative, t.magnitude) := by
  obtain ⟨hne, hwhole⟩ := h.whole
  have hrest := head_fractionText t.fraction t.exponent
  have hexponent : ∀ c ∈ (exponentText t.exponent).head?, isDigit c = false := fun c hc =>
    (head_exponentText t.exponent c hc).1
  have hempty : t.whole.isEmpty = false := by
    rw [List.isEmpty_eq_false_iff]
    exact hne
  rw [parseDecimal, String.toList_ofList, takeSign_text h]
  simp only [takeWhile_digits hwhole hrest, dropWhile_digits hwhole hrest, hempty,
    Bool.false_and, Bool.false_eq_true, if_false]
  cases hfraction : t.fraction with
  | nil =>
      have hpoint : (exponentText t.exponent).head? ≠ some '.' := by
        intro hhead
        exact (head_exponentText t.exponent '.' hhead).2 rfl
      simp only [fractionText, List.nil_append, hpoint, if_false, parseExponent_text h]
      rw [magnitude, hfraction]
  | cons d ds =>
      have hdigits := h.fraction
      rw [hfraction] at hdigits
      simp only [fractionText, List.cons_append, List.head?_cons, if_true, List.tail_cons]
      rw [← List.cons_append, takeWhile_digits hdigits hexponent,
        dropWhile_digits hdigits hexponent, parseExponent_text h, magnitude, hfraction]

end Parsing

theorem mem_text {t : NumberText} (h : t.WellFormed) {c : Char} (hc : c ∈ t.text) :
    isDigit c = true ∨ c ∈ ['-', '.', 'e', '+'] := by
  have hsign : ∀ negative : Bool, c ∈ (if negative then ['-'] else []) → c = '-' := by
    intro negative hmem
    cases negative with
    | false => cases hmem
    | true => exact List.mem_singleton.mp hmem
  rw [text, List.mem_append, List.mem_append, List.mem_append] at hc
  obtain hc | hc | hc | hc := hc
  · exact .inr (by rw [hsign _ hc]; decide)
  · exact .inl (List.all_eq_true.mp h.whole.2 c hc)
  · have hfraction := h.fraction
    cases hcase : t.fraction with
    | nil =>
        rw [hcase] at hc
        cases hc
    | cons d ds =>
        rw [hcase] at hc hfraction
        obtain rfl | hmem := List.mem_cons.mp hc
        · exact .inr (by decide)
        · exact .inl (List.all_eq_true.mp hfraction c hmem)
  · have hexponent := h.exponent
    cases hcase : t.exponent with
    | none =>
        rw [hcase] at hc
        cases hc
    | some e =>
        rw [hcase] at hc
        obtain rfl | hrest := List.mem_cons.mp hc
        · exact .inr (by decide)
        · obtain rfl | hmem := List.mem_cons.mp hrest
          · cases e.1 <;> exact .inr (by decide)
          · exact .inl (List.all_eq_true.mp (hexponent e hcase).2 c hmem)

/-- A decimal point or an exponent's letter is not among the digits. -/
theorem e_mem_text_iff {t : NumberText} (h : t.WellFormed) :
    'e' ∈ t.text ↔ t.exponent.isSome = true := by
  have hdigit : ∀ {cs : List Char}, cs.all isDigit = true → 'e' ∉ cs := by
    intro cs hcs hmem
    cases List.all_eq_true.mp hcs 'e' hmem
  have hwhole := hdigit h.whole.2
  have hfraction := hdigit h.fraction
  have hpoint : 'e' ∉ fractionText t.fraction := by
    cases hcase : t.fraction with
    | nil => exact List.not_mem_nil
    | cons d ds =>
        rw [hcase] at hfraction
        simpa [fractionText] using hfraction
  have hsign : 'e' ∉ (if t.negative then ['-'] else []) := by
    cases t.negative <;> decide
  rw [text, List.mem_append, List.mem_append, List.mem_append, or_iff_right hsign,
    or_iff_right hwhole, or_iff_right hpoint]
  cases t.exponent with
  | none => simp [exponentText]
  | some e => simp [exponentText]

end NumberText

/-! ## Digits at their place -/

/-- A text of digits with no zero at either end, unless it is a single digit. -/
structure DigitString where
  digits : List Char
  isDigits : digits.all isDigit = true
  nonempty : digits ≠ []
  trimmed : digits.length = 1 ∨ digits.head? ≠ some '0' ∧ digits.getLast? ≠ some '0'

/-- The value of digits, the first of which stands at the exponent's place. -/
def placedValue (digits : List Char) (exponent : Int) : ℚ :=
  decimalValue digits * 10 ^ (exponent - (digits.length - 1))

/-- The parts of `%g`'s text. -/
def spelling (negative : Bool) (digits : List Char) (exponent : Int) : NumberText :=
  if exponent < -4 ∨ 6 ≤ exponent then
    ⟨negative, digits.take 1, digits.drop 1,
      some (decide (exponent < 0), Strconv.exponentDigits exponent.natAbs)⟩
  else if exponent < 0 then
    ⟨negative, ['0'], List.replicate (-(exponent + 1)).toNat '0' ++ digits, none⟩
  else
    ⟨negative, digits.take (exponent + 1).toNat ++
        List.replicate ((exponent + 1).toNat - digits.length) '0',
      digits.drop (exponent + 1).toNat, none⟩

theorem decimalValue_zeros_append (count : Nat) (cs : List Char) :
    decimalValue (List.replicate count '0' ++ cs) = decimalValue cs := by
  induction count with
  | zero => rfl
  | succ count ih =>
      have hzero : digitValue '0' = 0 := rfl
      rw [List.replicate_succ, List.cons_append, decimalValue_cons, ih, hzero, Nat.zero_mul,
        Nat.zero_add]

@[simp] theorem negative_spelling (negative : Bool) (digits : List Char) (exponent : Int) :
    (spelling negative digits exponent).negative = negative := by
  rw [spelling]
  split
  · rfl
  · split <;> rfl

/-- A sign and the digits of an int are read as the int. -/
theorem parseCelInt_of_takeSign {text : String} {n : Int}
    (h : takeSign text.toList = (decide (n < 0), Nat.toDigits 10 n.natAbs)) :
    parseCelInt text = some n := by
  rw [parseCelInt, h]
  simp only [List.isEmpty_eq_false_iff.mpr Nat.toDigits_ne_nil, isDigit_toDigits,
    decimalValue_toDigits, Bool.not_true, Bool.or_false, Bool.false_eq_true, if_false,
    decide_eq_true_eq, Option.some.injEq]
  omega

section Spelling

variable (negative : Bool) {digits : List Char} (hne : digits ≠ []) (exponent : Int)

theorem exponentDigits_spec (n : Nat) : Strconv.exponentDigits n ≠ [] ∧
    (Strconv.exponentDigits n).all isDigit = true ∧
      decimalValue (Strconv.exponentDigits n) = n := by
  have hdigits := isDigit_toDigits n
  have hvalue := decimalValue_toDigits n
  rw [Strconv.exponentDigits]
  split
  · refine ⟨List.cons_ne_nil _ _, ?_, ?_⟩
    · rw [List.all_cons, hdigits]
      rfl
    · rw [decimalValue_cons, hvalue]
      simp [digitValue]
  · refine ⟨?_, hdigits, hvalue⟩
    intro hempty
    rw [hempty] at hvalue
    have hzero : n = 0 := hvalue.symm
    omega

theorem fractionText_drop (count : Nat) :
    NumberText.fractionText (digits.drop count) =
      if count < digits.length then '.' :: digits.drop count else [] := by
  split
  next hlt =>
    obtain ⟨c, cs, hcs⟩ := List.exists_cons_of_ne_nil
      (l := digits.drop count) (by rw [ne_eq, List.drop_eq_nil_iff]; omega)
    rw [hcs, NumberText.fractionText]
    exact List.cons_ne_nil c cs
  next hge =>
    rw [List.drop_eq_nil_iff.mpr (by omega), NumberText.fractionText]

include hne

theorem wellFormed_spelling (hdigits : digits.all isDigit = true) :
    (spelling negative digits exponent).WellFormed := by
  have hall := List.all_eq_true.mp hdigits
  have hzeros : ∀ count, (List.replicate count '0').all isDigit = true := by
    intro count
    rw [List.all_replicate]
    split <;> rfl
  have htake : ∀ count, (digits.take count).all isDigit = true := fun count =>
    List.all_eq_true.mpr fun c hc => hall c (List.mem_of_mem_take hc)
  have hdrop : ∀ count, (digits.drop count).all isDigit = true := fun count =>
    List.all_eq_true.mpr fun c hc => hall c (List.mem_of_mem_drop hc)
  obtain ⟨hexpNe, hexpDigits, -⟩ := exponentDigits_spec exponent.natAbs
  have htakeNe : ∀ count, 0 < count → digits.take count ≠ [] := by
    intro count hcount hempty
    rw [List.take_eq_nil_iff] at hempty
    obtain hzero | hnil := hempty
    · omega
    · exact hne hnil
  rw [spelling]
  split
  · exact ⟨⟨htakeNe 1 Nat.one_pos, htake 1⟩, hdrop 1, by rintro _ ⟨⟩; exact ⟨hexpNe, hexpDigits⟩⟩
  · split
    · refine ⟨⟨List.cons_ne_nil _ _, rfl⟩, ?_, by rintro _ ⟨⟩⟩
      rw [List.all_append, hzeros, hdigits]
      rfl
    · refine ⟨⟨?_, ?_⟩, hdrop _, by rintro _ ⟨⟩⟩
      · exact List.append_ne_nil_of_left_ne_nil (htakeNe _ (by omega)) _
      · rw [List.all_append, htake, hzeros]
        rfl

/-- Wherever the point stands, the text is worth its digits at their place. -/
theorem magnitude_spelling :
    (spelling negative digits exponent).magnitude = placedValue digits exponent := by
  have hpos := List.length_pos_iff.mpr hne
  obtain ⟨-, -, hexponent⟩ := exponentDigits_spec exponent.natAbs
  rw [spelling, placedValue]
  split
  next hform =>
    have hvalue : NumberText.exponentValue (some (decide (exponent < 0),
        Strconv.exponentDigits exponent.natAbs)) = exponent := by
      rw [NumberText.exponentValue, hexponent]
      split
      next hneg =>
        have := of_decide_eq_true hneg
        omega
      next hpos =>
        have := of_decide_eq_false (Bool.eq_false_iff.mpr hpos)
        omega
    rw [NumberText.magnitude]
    simp only [hvalue, List.take_append_drop, List.length_drop]
    rw [Nat.cast_sub hpos, Nat.cast_one]
  next hform =>
    split
    next hneg =>
      have hplaces : (0 : Int) - (((-(exponent + 1)).toNat + digits.length : Nat) : Int) =
          exponent - (digits.length - 1) := by
        push_cast
        omega
      have hzero : digitValue '0' = 0 := rfl
      rw [NumberText.magnitude]
      simp only [NumberText.exponentValue, List.length_append, List.length_replicate, hplaces,
        List.singleton_append, decimalValue_cons, hzero, Nat.zero_mul, Nat.zero_add,
        decimalValue_zeros_append]
    next hnonneg =>
      rw [NumberText.magnitude]
      simp only [NumberText.exponentValue, List.length_drop]
      obtain hlt | hge := lt_or_ge (exponent + 1).toNat digits.length
      · have hzeros : (exponent + 1).toNat - digits.length = 0 := by omega
        have hplaces : (0 : Int) - ((digits.length - (exponent + 1).toNat : Nat) : Int) =
            exponent - (digits.length - 1) := by omega
        rw [hzeros, List.replicate_zero, List.append_nil, List.take_append_drop, hplaces]
      · have hplaces : exponent - (digits.length - 1) =
            (((exponent + 1).toNat - digits.length : Nat) : Int) := by omega
        have hnone : digits.length - (exponent + 1).toNat = 0 := by omega
        rw [List.take_of_length_le hge, List.drop_of_length_le hge, List.append_nil,
          decimalValue_zeros, hnone, hplaces, zpow_natCast]
        push_cast
        ring

theorem text_spelling : (spelling negative digits exponent).text =
    (if negative then ['-'] else []) ++
      if exponent < -4 ∨ 6 ≤ exponent then
        digits.take 1 ++ ((if 1 < digits.length then '.' :: digits.drop 1 else []) ++
          'e' :: (if exponent < 0 then '-' else '+') :: Strconv.exponentDigits exponent.natAbs)
      else if exponent < 0 then
        '0' :: '.' :: (List.replicate (-(exponent + 1)).toNat '0' ++ digits)
      else
        digits.take (exponent + 1).toNat ++
          (List.replicate ((exponent + 1).toNat - digits.length) '0' ++
            if (exponent + 1).toNat < digits.length then '.' :: digits.drop (exponent + 1).toNat
            else []) := by
  by_cases hform : exponent < -4 ∨ 6 ≤ exponent
  · rw [spelling, if_pos hform, if_pos hform, NumberText.text, fractionText_drop,
      NumberText.exponentText]
    simp only [decide_eq_true_eq]
  · by_cases hneg : exponent < 0
    · obtain ⟨c, cs, hcs⟩ := List.exists_cons_of_ne_nil
        (l := List.replicate (-(exponent + 1)).toNat '0' ++ digits)
        (List.append_ne_nil_of_right_ne_nil _ hne)
      rw [spelling, if_neg hform, if_pos hneg, if_neg hform, if_pos hneg, NumberText.text]
      simp only [hcs, NumberText.fractionText, NumberText.exponentText, List.append_nil,
        List.singleton_append]
    · rw [spelling, if_neg hform, if_neg hneg, if_neg hform, if_neg hneg, NumberText.text,
        fractionText_drop, NumberText.exponentText, List.append_nil]
      simp only [List.append_assoc]

/-- The layout of the evaluators writes these parts. -/
theorem layoutGoDouble_eq : (if negative then ['-'] else []) ++ layoutGoDouble digits exponent =
    (spelling negative digits exponent).text := by
  have hpos := List.length_pos_iff.mpr hne
  have hrepr : ∀ n : Nat, (toString n).toList = Nat.toDigits 10 n := fun n => by
    rw [Nat.toString_eq_repr, Nat.repr, String.toList_ofList]
  rw [text_spelling negative hne]
  congr 1
  simp only [layoutGoDouble, zeros, hrepr]
  by_cases hform : exponent < -4 ∨ 6 ≤ exponent
  · have hpad : List.replicate (2 - ((Nat.toDigits 10 exponent.natAbs).length : Int)).toNat '0' ++
        Nat.toDigits 10 exponent.natAbs = Strconv.exponentDigits exponent.natAbs := by
      rw [Strconv.exponentDigits]
      split
      next hsmall => rw [Nat.toDigits_of_lt_base hsmall]; rfl
      next hlarge =>
        have hlength := two_le_length_toDigits (not_lt.mp hlarge)
        have hnone : (2 - ((Nat.toDigits 10 exponent.natAbs).length : Int)).toNat = 0 := by omega
        rw [hnone, List.replicate_zero, List.nil_append]
    rw [if_pos hform, if_pos hform]
    simp only [List.append_assoc, hpad, List.cons_append, List.nil_append]
  · rw [if_neg hform, if_neg hform]
    by_cases hneg : exponent < 0
    · rw [if_pos (by omega), if_pos hneg]
      simp only [List.cons_append, List.nil_append]
    · rw [if_neg (by omega), if_neg hneg]
      by_cases hge : (digits.length : Int) ≤ exponent + 1
      · have hcount : ((exponent + 1) - (digits.length : Int)).toNat =
            (exponent + 1).toNat - digits.length := by omega
        rw [if_pos hge, hcount, if_neg (by omega), List.take_of_length_le (by omega),
          List.append_nil]
      · have hnone : (exponent + 1).toNat - digits.length = 0 := by omega
        rw [if_neg hge, hnone, if_pos (by omega), List.replicate_zero, List.nil_append,
          List.append_assoc, List.singleton_append]

omit hne in
theorem map_getD_eq_drop (start : Nat) :
    (List.range (digits.length - start)).map (fun i => digits.getD (start + i) '0') =
      digits.drop start := by
  apply List.ext_getElem
  · rw [List.length_map, List.length_range, List.length_drop]
  · intro i hi _
    rw [List.length_map, List.length_range] at hi
    rw [List.getElem_map, List.getElem_range, List.getElem_drop, List.getD_eq_getElem?_getD,
      List.getElem?_eq_getElem (by omega), Option.getD_some]

/-- So does Go's. -/
theorem formatG_eq :
    Strconv.formatG negative digits exponent = (spelling negative digits exponent).text := by
  have hpos := List.length_pos_iff.mpr hne
  rw [Strconv.formatG, text_spelling negative hne]
  congr 1
  by_cases hform : exponent < -4 ∨ 6 ≤ exponent
  · rw [if_pos hform, if_pos hform, Strconv.fmtE]
    simp only [add_sub_cancel_right, List.append_assoc]
  · rw [if_neg hform, if_neg hform, Strconv.fmtF]
    by_cases hneg : exponent < 0
    · -- The places up to the first digit are zeros.
      have hplaces : ((digits.length : Int) - (exponent + 1)).toNat =
          (-(exponent + 1)).toNat + digits.length := by omega
      have hzeros : ∀ i ∈ List.range (-(exponent + 1)).toNat,
          (if 0 ≤ exponent + 1 + i then digits.getD (exponent + 1 + i).toNat '0' else '0') =
            '0' := by
        intro i hi
        rw [List.mem_range] at hi
        rw [if_neg (by omega)]
      have hrest : ∀ i ∈ List.range digits.length,
          ((fun i : Nat => if 0 ≤ exponent + 1 + i then digits.getD (exponent + 1 + i).toNat '0'
            else '0') ∘ fun i => (-(exponent + 1)).toNat + i) i = digits.getD (0 + i) '0' := by
        intro i hi
        rw [Function.comp_apply, if_pos (by omega)]
        congr 1
        omega
      have hdrop : (List.range (digits.length - 0)).map (fun i => digits.getD (0 + i) '0') =
          digits.drop 0 := map_getD_eq_drop 0
      simp only [hplaces]
      rw [if_neg (by omega), if_pos (by omega), if_pos hneg, List.range_add, List.map_append,
        List.map_map, List.map_congr_left hzeros, List.map_const', List.length_range]
      rw [Nat.sub_zero, List.drop_zero] at hdrop
      rw [List.map_congr_left hrest, hdrop]
      rfl
    · have hplaces : ((digits.length : Int) - (exponent + 1)).toNat =
          digits.length - (exponent + 1).toNat := by omega
      have hdigit : ∀ i : Nat,
          (if 0 ≤ exponent + 1 + i then digits.getD (exponent + 1 + i).toNat '0' else '0') =
            digits.getD ((exponent + 1).toNat + i) '0' := by
        intro i
        rw [if_pos (by omega)]
        congr 1
        omega
      simp only [hplaces, hdigit, map_getD_eq_drop]
      rw [if_pos (by omega), if_neg hneg, List.append_assoc]
      congr 2
      by_cases hlt : (exponent + 1).toNat < digits.length
      · rw [if_pos (by omega), if_pos hlt]
      · rw [if_neg (by omega), if_neg hlt]

end Spelling

/-! ## Different digits, different texts -/

namespace DigitString

variable (m : DigitString)

def decimal (exponent : Int) : Decimal :=
  ⟨decimalValue m.digits, exponent - (m.digits.length - 1)⟩

theorem value_decimal (exponent : Int) :
    (m.decimal exponent).value = placedValue m.digits exponent := by
  rw [Decimal.value, placedValue]
  rfl

theorem digitValue_ne_zero {c : Char} (hdigit : isDigit c = true) (hc : c ≠ '0') :
    digitValue c ≠ 0 := by
  intro hzero
  obtain ⟨-, hchar⟩ := digitChar_digitValue hdigit
  rw [hzero] at hchar
  exact hc hchar.symm

/-- A number of one digit, or the digit in front and the one at the end are not zeros. -/
theorem single_or_ends : (∃ c, isDigit c = true ∧ m.digits = [c]) ∨
    (∃ c cs, isDigit c = true ∧ c ≠ '0' ∧ m.digits = c :: cs) ∧
      ∃ c cs, isDigit c = true ∧ c ≠ '0' ∧ m.digits = cs ++ [c] := by
  have hdigits := List.all_eq_true.mp m.isDigits
  obtain hone | ⟨hhead, hlast⟩ := m.trimmed
  · left
    obtain ⟨c, hc⟩ := List.length_eq_one_iff.mp hone
    exact ⟨c, hdigits c (by rw [hc]; exact List.mem_singleton_self c), hc⟩
  · right
    constructor
    · obtain ⟨c, cs, hcs⟩ := List.exists_cons_of_ne_nil m.nonempty
      refine ⟨c, cs, hdigits c (by rw [hcs]; exact List.mem_cons_self), ?_, hcs⟩
      rintro rfl
      rw [hcs] at hhead
      exact hhead rfl
    · have hcs := (List.dropLast_append_getLast m.nonempty).symm
      refine ⟨_, _, hdigits _ (List.getLast_mem m.nonempty), ?_, hcs⟩
      intro hzero
      rw [List.getLast?_eq_some_getLast m.nonempty, hzero] at hlast
      exact hlast rfl

/-- Digits that are not a zero have their own length, and no zero at the end. -/
theorem significand_bounds (hvalue : decimalValue m.digits ≠ 0) :
    10 ^ (m.digits.length - 1) ≤ decimalValue m.digits ∧ decimalValue m.digits % 10 ≠ 0 := by
  obtain ⟨c, hdigit, hc⟩ | ⟨⟨c, cs, hhead, hnonzero, hcs⟩, d, ds, hlast, hnonzero', hds⟩ :=
    m.single_or_ends
  · obtain ⟨hten, -⟩ := digitChar_digitValue hdigit
    rw [hc, decimalValue_cons] at hvalue
    rw [hc, decimalValue_cons]
    simp only [decimalValue, List.foldl_nil, List.length_nil, pow_zero, mul_one, add_zero,
      List.length_cons, Nat.sub_self] at hvalue ⊢
    omega
  · constructor
    · rw [hcs]
      exact pow_le_decimalValue cs hhead hnonzero
    · obtain ⟨hten, -⟩ := digitChar_digitValue hlast
      have := digitValue_ne_zero hlast hnonzero'
      rw [hds, decimalValue_concat]
      omega

theorem eq_zero_of_value (hvalue : decimalValue m.digits = 0) : m.digits = ['0'] := by
  obtain ⟨c, hdigit, hc⟩ | ⟨⟨c, cs, hhead, hnonzero, hcs⟩, -⟩ := m.single_or_ends
  · rw [hc, decimalValue_cons] at hvalue
    obtain ⟨-, hchar⟩ := digitChar_digitValue hdigit
    have hzero : digitValue c = 0 := by
      simpa [decimalValue] using hvalue
    rw [hzero] at hchar
    rw [hc, ← hchar]
    rfl
  · have hpow := pow_le_decimalValue cs hhead hnonzero
    have hpos : 0 < 10 ^ cs.length := by positivity
    rw [hcs] at hvalue
    omega

/-- Digits of one value at their places are the same digits. -/
theorem eq_of_placedValue {m m' : DigitString} {exponent exponent' : Int}
    (hvalue : decimalValue m.digits ≠ 0)
    (h : placedValue m.digits exponent = placedValue m'.digits exponent') :
    m.digits = m'.digits ∧ exponent = exponent' := by
  have hvalue' : decimalValue m'.digits ≠ 0 := by
    intro hzero
    rw [placedValue, placedValue, hzero, Nat.cast_zero, zero_mul] at h
    obtain hleft | hright := mul_eq_zero.mp h
    · exact hvalue (by exact_mod_cast hleft)
    · exact absurd hright (by positivity)
  obtain ⟨hlow, hlast⟩ := m.significand_bounds hvalue
  obtain ⟨hlow', hlast'⟩ := m'.significand_bounds hvalue'
  rw [← value_decimal, ← value_decimal] at h
  have hdecimal := Decimal.eq_of_value_eq (m := m.decimal exponent) hlast hlast' h
  have hsame : decimalValue m.digits = decimalValue m'.digits := congrArg Decimal.significand hdecimal
  have hexponent : exponent - (m.digits.length - 1) = exponent' - (m'.digits.length - 1) :=
    congrArg Decimal.exponent hdecimal
  obtain ⟨hhigh, hpadded⟩ := paddedDigits_decimalValue m.isDigits
  obtain ⟨hhigh', hpadded'⟩ := paddedDigits_decimalValue m'.isDigits
  have hpos := List.length_pos_iff.mpr m.nonempty
  have hpos' := List.length_pos_iff.mpr m'.nonempty
  have hlength : m.digits.length = m'.digits.length := by
    rw [hsame] at hlow hhigh
    have hlt := (Nat.pow_lt_pow_iff_right (by decide : 1 < 10)).mp (hlow.trans_lt hhigh')
    have hgt := (Nat.pow_lt_pow_iff_right (by decide : 1 < 10)).mp (hlow'.trans_lt hhigh)
    omega
  refine ⟨?_, by omega⟩
  rw [← hpadded, hlength, hsame, hpadded']

end DigitString

/-- An exponent's letter stands in the exponent form alone. -/
theorem e_mem_spelling_iff (negative : Bool) {digits : List Char} (hne : digits ≠ [])
    (hdigits : digits.all isDigit = true) (exponent : Int) :
    'e' ∈ (spelling negative digits exponent).text ↔ exponent < -4 ∨ 6 ≤ exponent := by
  rw [NumberText.e_mem_text_iff (wellFormed_spelling negative hne exponent hdigits), spelling]
  by_cases hform : exponent < -4 ∨ 6 ≤ exponent
  · rw [if_pos hform]
    exact iff_of_true rfl hform
  · rw [if_neg hform]
    refine iff_of_false ?_ hform
    split <;> exact Bool.false_ne_true

/-- The text of a zero without an exponent. -/
theorem text_zero {negative : Bool} {exponent : Int} (hform : ¬ (exponent < -4 ∨ 6 ≤ exponent)) :
    (spelling negative ['0'] exponent).text = (if negative then ['-'] else []) ++
      if exponent < 0 then '0' :: '.' :: List.replicate (-exponent).toNat '0'
      else List.replicate (exponent + 1).toNat '0' := by
  rw [text_spelling negative (List.cons_ne_nil _ _), if_neg hform]
  congr 1
  by_cases hneg : exponent < 0
  · have hcount : (-exponent).toNat = (-(exponent + 1)).toNat + 1 := by omega
    rw [if_pos hneg, if_pos hneg, hcount, List.replicate_succ']
  · have hcount : (exponent + 1).toNat = (exponent + 1).toNat - 1 + 1 := by omega
    rw [if_neg hneg, if_neg hneg, List.take_of_length_le (by rw [List.length_singleton]; omega),
      if_neg (by rw [List.length_singleton]; omega), List.append_nil, List.length_singleton]
    nth_rewrite 2 [hcount]
    rw [List.replicate_succ, List.singleton_append]

/-- The one digit zero is laid out differently at every exponent. -/
theorem zero_exponent_injective {negative : Bool} {exponent exponent' : Int}
    (h : (spelling negative ['0'] exponent).text = (spelling negative ['0'] exponent').text) :
    exponent = exponent' := by
  have hne : ['0'] ≠ [] := List.cons_ne_nil _ _
  have hforms : (exponent < -4 ∨ 6 ≤ exponent) ↔ (exponent' < -4 ∨ 6 ≤ exponent') := by
    rw [← e_mem_spelling_iff negative hne rfl, h, e_mem_spelling_iff negative hne rfl]
  by_cases hform : exponent < -4 ∨ 6 ≤ exponent
  · have hspec := exponentDigits_spec exponent.natAbs
    have hspec' := exponentDigits_spec exponent'.natAbs
    rw [text_spelling negative hne, text_spelling negative hne, List.append_cancel_left_eq,
      if_pos hform, if_pos (hforms.mp hform)] at h
    simp only [List.take_succ_cons, List.length_singleton, lt_irrefl, if_false, List.nil_append,
      List.cons_append, List.take_zero, List.cons.injEq, true_and] at h
    obtain ⟨hsign, hdigits⟩ := h
    have habs : exponent.natAbs = exponent'.natAbs := by
      rw [← hspec.2.2, ← hspec'.2.2, hdigits]
    have hsame : exponent < 0 ↔ exponent' < 0 := by
      by_cases hneg : exponent < 0 <;> by_cases hneg' : exponent' < 0
      · exact iff_of_true hneg hneg'
      · rw [if_pos hneg, if_neg hneg'] at hsign
        cases hsign
      · rw [if_neg hneg, if_pos hneg'] at hsign
        cases hsign
      · exact iff_of_false hneg hneg'
    omega
  · have hform' := mt hforms.mpr hform
    rw [text_zero hform, text_zero hform', List.append_cancel_left_eq] at h
    by_cases hneg : exponent < 0 <;> by_cases hneg' : exponent' < 0
    · rw [if_pos hneg, if_pos hneg'] at h
      have hlength := congrArg List.length h
      simp only [List.length_cons, List.length_replicate] at hlength
      omega
    · rw [if_pos hneg, if_neg hneg'] at h
      have hpoint : '.' ∈ List.replicate (exponent' + 1).toNat '0' := by
        rw [← h]
        exact List.mem_cons_of_mem _ List.mem_cons_self
      cases List.eq_of_mem_replicate hpoint
    · rw [if_neg hneg, if_pos hneg'] at h
      have hpoint : '.' ∈ List.replicate (exponent + 1).toNat '0' := by
        rw [h]
        exact List.mem_cons_of_mem _ List.mem_cons_self
      cases List.eq_of_mem_replicate hpoint
    · rw [if_neg hneg, if_neg hneg'] at h
      have hlength := congrArg List.length h
      simp only [List.length_replicate] at hlength
      omega

/-- A text of `%g` tells its sign, its digits and their exponent. -/
theorem spelling_injective {negative negative' : Bool} {m m' : DigitString}
    {exponent exponent' : Int}
    (h : (spelling negative m.digits exponent).text =
      (spelling negative' m'.digits exponent').text) :
    negative = negative' ∧ m.digits = m'.digits ∧ exponent = exponent' := by
  have hparsed := NumberText.parseDecimal_text
    (wellFormed_spelling negative m.nonempty exponent m.isDigits)
  rw [h, NumberText.parseDecimal_text
    (wellFormed_spelling negative' m'.nonempty exponent' m'.isDigits), Option.some_inj,
    Prod.mk.injEq, magnitude_spelling negative m.nonempty,
    magnitude_spelling negative' m'.nonempty] at hparsed
  rw [negative_spelling, negative_spelling] at hparsed
  obtain ⟨rfl, hvalue⟩ := hparsed
  refine ⟨rfl, ?_⟩
  by_cases hzero : decimalValue m.digits = 0
  · have hzero' : decimalValue m'.digits = 0 := by
      by_contra hnonzero
      obtain ⟨heq, -⟩ := DigitString.eq_of_placedValue hnonzero hvalue
      rw [heq] at hnonzero
      exact hnonzero hzero
    rw [m.eq_zero_of_value hzero, m'.eq_zero_of_value hzero'] at h
    rw [m.eq_zero_of_value hzero, m'.eq_zero_of_value hzero']
    exact ⟨rfl, zero_exponent_injective h⟩
  · exact DigitString.eq_of_placedValue hzero hvalue.symm

end QueryPlanAdapters
