import QueryPlanAdapters.Cel.ShortestTexts
import Mathlib.Data.List.DropRight

/-!
# ActiveRecord: the text of a double

`string(x) == "literal"` reads the literal as a number, spells the number as CEL does, and
compares the column with it where the spelling is the literal again.
-/

namespace QueryPlanAdapters.ActiveRecord

open Double (IsDouble IsMagnitude)

/-! ## The source -/

/-- Digits in front of the point, and behind it if there is one. -/
def isPlainDecimal (text : String) : Bool :=
  let (_, cs) := takeSign text.toList
  let rest := cs.dropWhile isDigit
  cs.head?.any isDigit && (rest.head? != some '.' || rest.tail.head?.any isDigit)

section Source

-- How `Float()` reads a text that is no plain decimal: with blanks around it, with underscores,
-- in hexadecimal digits, or with a bare point.
variable (readOtherwise : String → Option Double)

/-- `Float(text, exception: false)`. -/
def float (text : String) : Option Double :=
  if isPlainDecimal text && (readDecimal text).isSome then readDecimal text
  else readOtherwise text

def orZero (digits : List Char) : List Char :=
  if digits.isEmpty then ['0'] else digits

/-- What the pattern finds in `to_s` of a positive number: the digits in front of the point, those
behind it, and the exponent, which is only written below 0.0001 and from sixteen digits on. -/
def toSGroups (digits : List Char) (point : Int) : List Char × List Char × Int :=
  if 0 < point ∧ point ≤ 16 then
    (digits.take point.toNat ++ List.replicate (point.toNat - digits.length) '0',
      orZero (digits.drop point.toNat), 0)
  else if -4 < point ∧ point ≤ 0 then
    (['0'], List.replicate (-point).toNat '0' ++ digits, 0)
  else (digits.take 1, orZero (digits.drop 1), point - 1)

/-- The spelling of a finite number. -/
def celDoubleSpelling (number : Double) : String :=
  if number.isZero then if number = .negZero then "-0" else "0"
  else
    let (shortest, first) := toExponential |number.toRat|
    let (whole, fraction, exponent) := toSGroups shortest.toList (first + 1)
    let digits := whole ++ fraction
    let stripped := digits.dropWhile (· = '0')
    let point := whole.length + exponent - (digits.length - stripped.length)
    String.ofList ((if number.lt 0 then ['-'] else []) ++
      layoutGoDouble (stripped.rdropWhile (· = '0')) (point - 1))

/-- What the column is tested for, unless the text is refused. -/
def compareDoubleText (other : String) : Option SolvedText :=
  if ["NaN", "+Inf", "-Inf"].contains other then none
  else
    match (float readOtherwise other).filter fun number =>
      number.isFinite && celDoubleSpelling number = other with
    | none => some .nothing
    | some number => if number.isZero then none else some (.exactly number)

end Source

/-! ## The digits of `to_s` -/

theorem dropWhile_zeros {digits : List Char} (hhead : digits.head? ≠ some '0') (count : Nat) :
    (List.replicate count '0' ++ digits).dropWhile (· = '0') = digits := by
  rw [List.dropWhile_append_of_pos fun c hc => decide_eq_true (List.eq_of_mem_replicate hc)]
  cases digits with
  | nil => rfl
  | cons c cs =>
      rw [List.dropWhile_cons_of_neg]
      rintro hzero
      exact hhead (congrArg some (of_decide_eq_true hzero))

theorem rdropWhile_zeros {digits : List Char} (hlast : digits.getLast? ≠ some '0') (count : Nat) :
    (digits ++ List.replicate count '0').rdropWhile (· = '0') = digits := by
  rw [List.rdropWhile, List.reverse_append, List.reverse_replicate,
    dropWhile_zeros (by rwa [List.head?_reverse]), List.reverse_reverse]

/-- Wherever `to_s` puts the point, the digits and their place are found again. -/
theorem toSGroups_spec {digits : List Char} (hne : digits ≠ []) (point : Int) :
    ∃ before behind : Nat, (toSGroups digits point).1 ++ (toSGroups digits point).2.1 =
        List.replicate before '0' ++ (digits ++ List.replicate behind '0') ∧
      ((toSGroups digits point).1.length : Int) + (toSGroups digits point).2.2 - before = point := by
  have hpos := List.length_pos_iff.mpr hne
  have horZero : ∀ count, ∃ behind, digits.take count ++
      (List.replicate (count - digits.length) '0' ++ orZero (digits.drop count)) =
        digits ++ List.replicate behind '0' := by
    intro count
    rw [orZero]
    obtain hlt | hge := lt_or_ge count digits.length
    · refine ⟨0, ?_⟩
      rw [if_neg (by rw [List.isEmpty_iff, List.drop_eq_nil_iff]; omega),
        Nat.sub_eq_zero_of_le hlt.le, List.replicate_zero, List.nil_append,
        List.take_append_drop, List.append_nil]
    · refine ⟨count - digits.length + 1, ?_⟩
      rw [if_pos (by rw [List.isEmpty_iff, List.drop_eq_nil_iff]; omega),
        List.take_of_length_le hge, List.replicate_succ']
  rw [toSGroups]
  split
  next hfixed =>
    obtain ⟨behind, hdigits⟩ := horZero point.toNat
    refine ⟨0, behind, ?_, ?_⟩
    · rw [List.append_assoc, hdigits]
      rfl
    · simp only [List.length_append, List.length_take, List.length_replicate]
      omega
  next =>
    split
    next hsmall =>
      refine ⟨(-point).toNat + 1, 0, ?_, ?_⟩
      · rw [List.replicate_succ, List.replicate_zero, List.append_nil]
        rfl
      · simp only [List.length_singleton]
        omega
    next =>
      obtain ⟨behind, hdigits⟩ := horZero 1
      rw [Nat.sub_eq_zero_of_le hpos, List.replicate_zero, List.nil_append] at hdigits
      refine ⟨0, behind, hdigits, ?_⟩
      simp only [List.length_take]
      omega

theorem celDoubleSpelling_eq {q : ℚ} (hq : IsMagnitude |q|) :
    celDoubleSpelling (.finite q) = formatGoDouble (.finite q) := by
  obtain ⟨m, hm, hdigits, -⟩ := toExponential_spec hq
  have hne : q ≠ 0 := abs_pos.mp hq.pos
  have hzero : (Double.finite q).isZero = false := decide_eq_false hne
  have hhead := head_toDigits (Nat.pos_of_ne_zero (Double.significand_ne_zero hq.pos hm.reads))
  have hlast := getLast_toDigits (hm.not_trailing hq.pos)
  rw [← hdigits] at hhead hlast
  have hnonempty : (toExponential |q|).1.toList ≠ [] := by
    rw [hdigits]
    exact Nat.toDigits_ne_nil
  obtain ⟨before, behind, hgroups, hpoint⟩ :=
    toSGroups_spec hnonempty ((toExponential |q|).2 + 1)
  have hstart : ((toExponential |q|).1.toList ++ List.replicate behind '0').head? ≠ some '0' := by
    rwa [List.head?_append_of_ne_nil _ hnonempty]
  have hplace : ((toSGroups (toExponential |q|).1.toList ((toExponential |q|).2 + 1)).1.length : Int) +
      (toSGroups (toExponential |q|).1.toList ((toExponential |q|).2 + 1)).2.2 -
        ((List.replicate before '0' ++ ((toExponential |q|).1.toList ++
          List.replicate behind '0')).length -
          ((toExponential |q|).1.toList ++ List.replicate behind '0').length) - 1 =
        (toExponential |q|).2 := by
    rw [List.length_append, List.length_replicate]
    omega
  have hlt : (Double.finite q).lt 0 = decide (q < 0) := rfl
  rw [celDoubleSpelling, formatGoDouble, if_neg (by rw [hzero]; exact Bool.false_ne_true), if_neg hne]
  simp only [Double.toRat, hgroups, dropWhile_zeros hstart, rdropWhile_zeros hlast, hplace, hlt,
    decide_eq_true_eq]

/-! ## The comparison -/

section Comparison

variable {readOtherwise : String → Option Double}

theorem float_formatGoDouble {d : Double} (hd : IsDouble d) (hfinite : d.isFinite = true)
    (hzero : d.isZero = false) : float readOtherwise (formatGoDouble d) = some d := by
  have hread := readDecimal_formatGoDouble hd hfinite
  obtain ⟨q, rfl, hq⟩ := hd.exists_magnitude hfinite hzero
  obtain ⟨m, -, htext⟩ := formatGoDouble_finite hq
  have hformed := wellFormed_decimalSpelling (decide (q < 0)) m
  generalize decimalSpelling (decide (q < 0)) m = t at htext hformed
  rw [htext] at hread ⊢
  have hplain : isPlainDecimal (String.ofList t.text) = true := by
    obtain ⟨hne, hwhole⟩ := hformed.whole
    have hrest := NumberText.head_fractionText t.fraction t.exponent
    have hfirst : ((t.whole ++ (NumberText.fractionText t.fraction ++
        NumberText.exponentText t.exponent)).head?.any isDigit) = true := by
      obtain ⟨c, cs, hcs⟩ := List.exists_cons_of_ne_nil hne
      rw [hcs, List.all_cons, Bool.and_eq_true] at hwhole
      rw [hcs]
      exact hwhole.1
    rw [isPlainDecimal, String.toList_ofList, NumberText.takeSign_text hformed]
    simp only [NumberText.dropWhile_digits hwhole hrest, hfirst, Bool.true_and]
    cases hcase : t.fraction with
    | nil =>
        rw [NumberText.fractionText, List.nil_append, Bool.or_eq_true, bne_iff_ne]
        exact .inl fun hhead => (NumberText.head_exponentText t.exponent '.' hhead).2 rfl
    | cons c cs =>
        have hdigits := hformed.fraction
        rw [hcase, List.all_cons, Bool.and_eq_true] at hdigits
        rw [NumberText.fractionText, Bool.or_eq_true]
        · exact .inr hdigits.1
        · exact List.cons_ne_nil c cs
  rw [float, hplain, hread, Option.isSome_some, Bool.and_self, if_pos rfl]

/-- What the comparison is solved to is right for every text but those of the special values,
which are refused. -/
theorem compareDoubleText_spec {text : String} (htext : isUndecidable text = false) :
    ∃ solved, compareDoubleText readOtherwise text = some solved ∧ solved.Inverts text := by
  have hwrites : ReadsAndWrites (float readOtherwise) celDoubleSpelling := by
    refine ⟨fun d hd => float_formatGoDouble hd, fun d hd hfinite hzero => ?_⟩
    obtain ⟨q, rfl, hq⟩ := hd.exists_magnitude hfinite hzero
    exact celDoubleSpelling_eq hq
  have hspecial : ["NaN", "+Inf", "-Inf"].contains text = false := by
    rw [Bool.eq_false_iff] at htext ⊢
    intro hmem
    apply htext
    simp only [isUndecidable, List.contains_iff_mem, List.mem_cons] at hmem ⊢
    exact .inr (.inr hmem)
  rw [compareDoubleText, if_neg (by rw [hspecial]; exact Bool.false_ne_true)]
  cases hfound : (float readOtherwise text).filter fun number =>
      number.isFinite && celDoubleSpelling number = text with
  | none =>
      refine ⟨_, rfl, inverts_nothing htext hwrites fun v hv hfinite hspelled => ?_⟩
      rw [Option.filter_eq_none_iff] at hfound
      exact hfound v hv (by rw [hfinite, Bool.true_and, decide_eq_true hspelled])
  | some number =>
      obtain ⟨hread, hchecked⟩ := Option.filter_eq_some_iff.mp hfound
      rw [Bool.and_eq_true, decide_eq_true_eq] at hchecked
      obtain ⟨hfinite, hspelled⟩ := hchecked
      cases hzero : number.isZero with
      | true =>
          rw [celDoubleSpelling, if_pos hzero] at hspelled
          exfalso
          rw [← hspelled] at htext
          split at htext <;> cases htext
      | false =>
          refine ⟨.exactly number, ?_, inverts_exactly htext hwrites hfinite hzero hread hspelled⟩
          simp only [hzero, Bool.false_eq_true, if_false]

theorem compareDoubleText_refuses {text : String} (htext : isUndecidable text = true) :
    compareDoubleText readOtherwise text = none := by
  have hzeros : float readOtherwise "0" = some (.finite 0) ∧
      float readOtherwise "-0" = some .negZero := by
    have hplain : isPlainDecimal "0" = true ∧ isPlainDecimal "-0" = true := by decide
    have hread : readDecimal "0" = some (.finite 0) ∧ readDecimal "-0" = some .negZero := by
      decide +kernel
    simp [float, hplain, hread]
  rw [isUndecidable, List.contains_iff_mem] at htext
  simp only [List.mem_cons, List.not_mem_nil, or_false] at htext
  obtain rfl | rfl | rfl | rfl | rfl := htext
  · rw [compareDoubleText, hzeros.1]
    decide
  · rw [compareDoubleText, hzeros.2]
    decide
  · rfl
  · rfl
  · rfl

/-- Every text is refused or inverted. -/
theorem compareDoubleText_settles (readOtherwise : String → Option Double) (text : String) :
    Settles text (compareDoubleText readOtherwise text) := by
  cases htext : isUndecidable text with
  | false =>
      obtain ⟨solved, hsolved, hinverts⟩ :=
        @compareDoubleText_spec readOtherwise text htext
      rw [hsolved]
      exact ⟨htext, hinverts⟩
  | true =>
      rw [compareDoubleText_refuses htext]
      exact htext

end Comparison

end QueryPlanAdapters.ActiveRecord
