import QueryPlanAdapters.Cel.DoubleTexts

/-!
# What a double is printed as, and read back from

The digits that a double is printed with are those of its shortest decimal, and the text is
read back as the double.
-/

namespace QueryPlanAdapters

open Double (Decimal IsMagnitude IsDouble IsShortest Picks decimalUnit decimalBelow decimalAbove)

/-! ## The digits of the shortest decimal -/

section Digits

variable {d : ℚ} (hd : IsMagnitude d)

theorem ofRat_eq_nearestEven {q : ℚ} (hq : q ≠ 0) : Double.ofRat q = Double.nearestEven q := by
  rw [Double.ofRat, if_neg hq]
  rfl

theorem lastPlace_eq (d : ℚ) (count : Nat) : lastPlace d count = decimalUnit d count := rfl

theorem reads_iff {v : ℚ} (hv : 0 < v) :
    Double.ofRat v = Double.finite d ↔ Double.nearestEven v = Double.finite d := by
  rw [ofRat_eq_nearestEven hv.ne']

theorem nearestDecimal_floor_or_ceil (count : Nat) :
    nearestDecimal d count = ⌊d / decimalUnit d count⌋ ∨
      nearestDecimal d count = ⌈d / decimalUnit d count⌉ :=
  ite_eq_or_eq _ _ _

include hd

theorem decimalAbove_pos (count : Nat) : 0 < decimalAbove d count :=
  hd.pos.trans_le Double.le_decimalAbove

theorem nearestDecimal_eq {count : Nat} (hcount : 1 ≤ count) :
    (nearestDecimal d count : ℚ) * lastPlace d count =
      if Double.nearestEven (decimalBelow d count) = Double.finite d ∧
        (Double.nearestEven (decimalAbove d count) = Double.finite d →
          d - decimalBelow d count < decimalAbove d count - d ∨
            d - decimalBelow d count = decimalAbove d count - d ∧
              ⌊d / decimalUnit d count⌋ % 2 = 0)
      then decimalBelow d count else decimalAbove d count := by
  have hbelow := reads_iff (d := d) (Double.decimalBelow_pos hd.pos hcount)
  have habove := reads_iff (d := d) (decimalAbove_pos hd count)
  simp only [nearestDecimal, lastPlace_eq, decimalBelow, decimalAbove] at hbelow habove ⊢
  simp only [hbelow, habove]
  split
  next h => exact (if_pos h).symm
  next h => exact (if_neg h).symm

/-- Where it is read back, the printer's candidate is the nearest neighbour. -/
theorem picks_nearestDecimal {count : Nat} (hcount : 1 ≤ count)
    (hreads : Double.nearestEven (decimalBelow d count) = Double.finite d ∨
      Double.nearestEven (decimalAbove d count) = Double.finite d) :
    Picks d count (nearestDecimal d count * lastPlace d count) := by
  rw [nearestDecimal_eq hd hcount]
  split
  next h => exact .below h.1 h.2
  next h =>
    rw [not_and] at h
    have habove : Double.nearestEven (decimalAbove d count) = Double.finite d := by
      by_contra hnot
      obtain hbelow | habove := hreads
      · exact h hbelow fun hcontra => absurd hcontra hnot
      · exact hnot habove
    refine .above habove fun hbelow => ?_
    have hfarther := h hbelow
    rw [Classical.not_imp, not_or, not_lt, not_and] at hfarther
    obtain ⟨-, hle, htie⟩ := hfarther
    obtain hlt | heq := hle.lt_or_eq
    · exact .inl hlt
    · have := htie heq.symm
      exact .inr ⟨heq.symm, by omega⟩

theorem reads_nearestDecimal_iff {count : Nat} (hcount : 1 ≤ count) :
    Double.ofRat (nearestDecimal d count * lastPlace d count) = Double.finite d ↔
      Double.nearestEven (decimalBelow d count) = Double.finite d ∨
        Double.nearestEven (decimalAbove d count) = Double.finite d := by
  have hbelow := Double.decimalBelow_pos hd.pos hcount
  have habove := decimalAbove_pos hd count
  constructor
  · intro h
    rw [nearestDecimal_eq hd hcount] at h
    split at h
    · exact .inl ((reads_iff hbelow).mp h)
    · exact .inr ((reads_iff habove).mp h)
  · intro h
    have hpicks := picks_nearestDecimal hd hcount h
    generalize (nearestDecimal d count : ℚ) * lastPlace d count = v at hpicks
    cases hpicks with
    | below reads _ => exact (reads_iff hbelow).mpr reads
    | above reads _ => exact (reads_iff habove).mpr reads

/-- How many digits are printed. -/
theorem exists_count : ∃ count : Nat, 1 ≤ count ∧
    ((List.range' 1 16).find? fun count : Nat =>
      decide (Double.ofRat (nearestDecimal d count * lastPlace d count) = Double.finite d)).getD 17 =
        count ∧
      Picks d count (nearestDecimal d count * lastPlace d count) ∧
      ∀ k : Decimal, Double.nearestEven k.value = Double.finite d → count ≤ k.digits := by
  have hreads : ∀ k : Decimal, Double.nearestEven k.value = Double.finite d → 1 ≤ k.digits ∧
      Double.ofRat (nearestDecimal d k.digits * lastPlace d k.digits) = Double.finite d := by
    intro k hk
    have hpos : 1 ≤ k.digits := Nat.le_add_left 1 _
    exact ⟨hpos, (reads_nearestDecimal_iff hd hpos).mpr (Double.neighbour_reads hd hpos hk le_rfl)⟩
  cases hfind : (List.range' 1 16).find? fun count : Nat =>
      decide (Double.ofRat (nearestDecimal d count * lastPlace d count) = Double.finite d) with
  | none =>
      refine ⟨17, by decide, rfl, picks_nearestDecimal hd (by decide)
        (Double.neighbour_reads_seventeen hd), fun k hk => ?_⟩
      by_contra hfew
      obtain ⟨hpos, hback⟩ := hreads k hk
      have hnone := List.find?_eq_none.mp hfind k.digits (by rw [List.mem_range'_1]; omega)
      exact hnone (decide_eq_true hback)
  | some count =>
      obtain ⟨hback, hmem, hfirst⟩ := List.find?_range'_eq_some.mp hfind
      rw [List.mem_range'_1] at hmem
      refine ⟨count, hmem.1, rfl, picks_nearestDecimal hd hmem.1
        ((reads_nearestDecimal_iff hd hmem.1).mp (of_decide_eq_true hback)), fun k hk => ?_⟩
      by_contra hfew
      obtain ⟨hpos, hback'⟩ := hreads k hk
      have hnot := hfirst k.digits hpos (by omega)
      rw [Bool.not_eq_true', decide_eq_false_iff_not] at hnot
      exact hnot hback'

/-- The printer prints the shortest decimal. -/
theorem toExponential_spec : ∃ m : Decimal, IsShortest d m ∧
    (toExponential d).1.toList = Nat.toDigits 10 m.significand ∧
      (toExponential d).2 = m.exponent + m.digits - 1 := by
  obtain ⟨count, hcount, hfound, hpicks, hfewest⟩ := exists_count hd
  have hlow := Double.pow_le_floor (p := count) hd.pos hcount
  have hhigh := Double.ceil_le_pow (d := d) (p := count)
  have hfloorCeil := Int.floor_le_ceil (d / decimalUnit d count)
  have hbounds : (10 : Int) ^ (count - 1) ≤ nearestDecimal d count ∧
      nearestDecimal d count ≤ 10 ^ count := by
    obtain hfloor | hceil := nearestDecimal_floor_or_ceil (d := d) count
    · rw [hfloor]
      exact ⟨hlow, hfloorCeil.trans hhigh⟩
    · rw [hceil]
      exact ⟨hlow.trans hfloorCeil, hhigh⟩
  rw [toExponential, hfound]
  obtain ⟨n, hn⟩ := Int.eq_ofNat_of_zero_le ((pow_nonneg (by decide) (count - 1)).trans hbounds.1)
  rw [hn] at hbounds hpicks ⊢
  obtain ⟨hnlow, hnhigh⟩ : 10 ^ (count - 1) ≤ n ∧ n ≤ 10 ^ count := by exact_mod_cast hbounds
  rw [Int.toNat_natCast]
  by_cases hcarry : n = 10 ^ count
  · let m : Decimal := ⟨1, Int.log 10 d + 1⟩
    have hvalue : m.value = ((n : Int) : ℚ) * lastPlace d count := by
      have hpow := Double.pow_mul_decimalUnit (d := d) (p := count) count
      have hexponent : Int.log 10 d + 1 - count + (count : Int) = Int.log 10 d + 1 := by omega
      rw [hexponent] at hpow
      rw [hcarry, lastPlace_eq, Decimal.value]
      push_cast at hpow ⊢
      rw [hpow]
      simp only [m, Nat.cast_one, one_mul]
    refine ⟨m, Double.isShortest_of_picks hd hcount hfewest ?_ (by rw [hvalue]; exact hpicks), ?_,
      ?_⟩
    · exact hcount
    · have hone : "1".toList = Nat.toDigits 10 1 := by decide
      rw [if_pos hcarry]
      exact hone
    · rw [if_pos hcarry]
      simp [m, Decimal.digits]
  · let m : Decimal := ⟨n, Int.log 10 d + 1 - count⟩
    have hnpos : n ≠ 0 := by
      have : 0 < 10 ^ (count - 1) := by positivity
      omega
    have hvalue : m.value = ((n : Int) : ℚ) * lastPlace d count := by
      rw [lastPlace_eq, Decimal.value, decimalUnit]
      simp only [m, Int.cast_natCast]
    have hdigits : m.digits ≤ count :=
      (Decimal.digits_le_iff hnpos).mpr (lt_of_le_of_ne hnhigh hcarry)
    have hshortest := Double.isShortest_of_picks hd hcount hfewest hdigits
      (by rw [hvalue]; exact hpicks)
    have hsame : m.digits = count := le_antisymm hdigits (hfewest m hshortest.reads)
    refine ⟨m, hshortest, ?_, ?_⟩
    · rw [if_neg hcarry, Nat.toString_eq_repr, Nat.repr, String.toList_ofList]
    · rw [if_neg hcarry, hsame]
      simp only [m]
      omega

end Digits

/-! ## A double's text is read back -/

theorem length_toDigits {m : Decimal} (hm : m.significand ≠ 0) :
    (Nat.toDigits 10 m.significand).length = m.digits := by
  have hdigits := isDigit_toDigits m.significand
  have hvalue := decimalValue_toDigits m.significand
  have hlt := decimalValue_lt hdigits
  obtain ⟨c, cs, hcs⟩ := List.exists_cons_of_ne_nil (Nat.toDigits_ne_nil (b := 10) (n := m.significand))
  have hhead := head_toDigits (Nat.pos_of_ne_zero hm)
  rw [hcs, List.head?_cons, ne_eq, Option.some_inj] at hhead
  rw [hcs, List.all_cons, Bool.and_eq_true] at hdigits
  have hpow := pow_le_decimalValue cs hdigits.1 hhead
  rw [← hcs, hvalue] at hpow
  rw [hvalue] at hlt
  have hhigh := (Decimal.digits_le_iff hm).mpr hlt
  have hlow : cs.length ≤ Nat.log 10 m.significand :=
    (Nat.le_log_iff_pow_le (by decide) hm).mpr hpow
  rw [hcs, List.length_cons] at hhigh ⊢
  rw [Decimal.digits] at hhigh ⊢
  omega

/-- The parts of the text of a double's shortest decimal. -/
def decimalSpelling (negative : Bool) (m : Decimal) : NumberText :=
  spelling negative (Nat.toDigits 10 m.significand) (m.exponent + m.digits - 1)

theorem wellFormed_decimalSpelling (negative : Bool) (m : Decimal) :
    (decimalSpelling negative m).WellFormed :=
  wellFormed_spelling negative Nat.toDigits_ne_nil _ (isDigit_toDigits _)

theorem magnitude_decimalSpelling (negative : Bool) {m : Decimal} (hm : m.significand ≠ 0) :
    (decimalSpelling negative m).magnitude = m.value := by
  rw [decimalSpelling, magnitude_spelling negative Nat.toDigits_ne_nil, placedValue,
    decimalValue_toDigits, length_toDigits hm, Decimal.value]
  congr 2
  omega

/-- CEL's text of a finite double other than a zero. -/
theorem formatGoDouble_finite {q : ℚ} (hq : IsMagnitude |q|) : ∃ m : Decimal, IsShortest |q| m ∧
    formatGoDouble (.finite q) = String.ofList (decimalSpelling (decide (q < 0)) m).text := by
  obtain ⟨m, hm, hdigits, hexponent⟩ := toExponential_spec hq
  have hne : q ≠ 0 := abs_pos.mp hq.pos
  refine ⟨m, hm, ?_⟩
  rw [formatGoDouble, if_neg hne]
  simp only [hdigits, hexponent]
  rw [decimalSpelling, ← layoutGoDouble_eq _ Nat.toDigits_ne_nil]
  simp only [decide_eq_true_eq]

/-- A number in a decimal spelling, as it is read by the languages of the adapters. -/
def readDecimal (text : String) : Option Double :=
  (parseDecimal text).map fun (negative, magnitude) => doubleOfDecimal negative magnitude

theorem doubleOfDecimal_eq {negative : Bool} {v d : ℚ} (hd : 0 < d)
    (h : Double.nearestEven v = .finite d) (hv : 0 < v) :
    doubleOfDecimal negative v = .finite (if negative then -d else d) := by
  rw [doubleOfDecimal, ofRat_eq_nearestEven hv.ne', h]
  cases negative with
  | false => rfl
  | true =>
      simp only [if_true, Double.neg]
      rw [if_neg hd.ne']

/-- What CEL writes for a finite double is read back as that double. -/
theorem readDecimal_formatGoDouble {d : Double} (hd : IsDouble d) (hfinite : d.isFinite = true) :
    readDecimal (formatGoDouble d) = some d := by
  cases d with
  | finite q =>
      obtain rfl | hq := hd
      · decide +kernel
      · obtain ⟨m, hm, htext⟩ := formatGoDouble_finite hq
        have hne := Double.significand_ne_zero hq.pos hm.reads
        have hvalue : 0 < m.value := by
          have hcast : (0 : ℚ) < m.significand := by exact_mod_cast Nat.pos_of_ne_zero hne
          rw [Decimal.value]
          positivity
        rw [htext, readDecimal,
          NumberText.parseDecimal_text (wellFormed_decimalSpelling _ m),
          magnitude_decimalSpelling _ hne, decimalSpelling, negative_spelling, Option.map_some]
        simp only [doubleOfDecimal_eq hq.pos hm.reads hvalue]
        by_cases hneg : q < 0
        · simp only [hneg, decide_true, if_true, abs_of_neg hneg, neg_neg]
        · simp only [hneg, decide_false, Bool.false_eq_true, if_false, abs_of_nonneg (not_lt.mp hneg)]
  | negZero => decide +kernel
  | posInf | negInf | nan => cases hfinite

theorem takeSign_toString (n : Int) :
    takeSign (toString n).toList = (decide (n < 0), Nat.toDigits 10 n.natAbs) := by
  cases n with
  | ofNat k =>
      show takeSign (Nat.repr k).toList = _
      have hneg : ¬ Int.ofNat k < 0 := (Int.natCast_nonneg k).not_gt
      rw [Nat.repr, String.toList_ofList, decide_eq_false hneg]
      simpa using @NumberText.takeSign_digits _ [] Nat.toDigits_ne_nil (isDigit_toDigits k)
  | negSucc k =>
      show takeSign ("-" ++ Nat.repr (k + 1)).toList = _
      rw [String.toList_append, Nat.repr, String.toList_ofList, String.toList_ofList,
        decide_eq_true (Int.negSucc_lt_zero k)]
      rfl

/-- What `string()` makes of a number, the conversion to its type reads as the number itself. -/
theorem conversions_invert_string {d : Double} (hd : IsDouble d) (n : Int) (int : Bool) :
    convertToInt (convertToString (.value (.bigint n)) int) = convertToInt (.value (.bigint n)) ∧
      convertToDouble (convertToString (.value (.number d)) false) =
        convertToDouble (.value (.number d)) := by
  refine ⟨by simp only [convertToString, convertToInt,
    parseCelInt_of_takeSign (takeSign_toString n)], ?_⟩
  cases hfinite : d.isFinite with
  | true =>
      have hread := readDecimal_formatGoDouble hd hfinite
      rw [readDecimal, Option.map_eq_some_iff] at hread
      obtain ⟨⟨negative, magnitude⟩, hparsed, hconverted⟩ := hread
      simp only [convertToString, convertToDouble, Bool.false_and, Bool.false_eq_true, if_false,
        hparsed]
      exact hconverted ▸ rfl
  | false =>
      cases d with
      | finite q | negZero => cases hfinite
      | posInf | negInf | nan => rfl

theorem conversions_invert_string_one :
    convertToInt (convertToString (.value (.bigint 1)) true) = convertToInt (.value (.bigint 1)) ∧
      convertToDouble (convertToString (.value (.number (.finite 1))) false) =
        convertToDouble (.value (.number (.finite 1))) :=
  conversions_invert_string (d := .finite 1) (.inr ⟨by decide +kernel, by decide +kernel⟩) 1 true

/-! ## A column that is tested in place of its text -/

/-- What the comparison of a column's text with a constant is solved to: a comparison of the
column, or a constant unless the column is NULL. -/
inductive SolvedText where
  | exactly (value : Double)
  | nothing
  deriving DecidableEq, Repr

namespace SolvedText

/-- The truth of `==`, or of `!=` where it is negated, for a column. -/
def truth (negated : Bool) : SolvedText → Option Double → Truth
  | _, none => .unknown
  | exactly value, some x => .ofBool (x.eq value != negated)
  | nothing, some _ => .ofBool negated

end SolvedText

/-- The texts that CEL has for the zeros, the infinities and a NaN. -/
def isUndecidable (text : String) : Bool :=
  ["0", "-0", "NaN", "+Inf", "-Inf"].contains text

/-- The column is selected where its text is the constant, by the negation where it is another,
and by neither where it is missing. -/
def SolvedText.Inverts (text : String) (solved : SolvedText) : Prop :=
  ∀ negated, solved.truth negated none = .unknown ∧
    ∀ x, IsDouble x → solved.truth negated (some x) = .ofBool ((formatGoDouble x == text) != negated)

/-- A text is refused if it is that of a zero, an infinity or a NaN, and inverted if it is not. -/
def Settles (text : String) : Option SolvedText → Prop
  | none => isUndecidable text = true
  | some solved => isUndecidable text = false ∧ solved.Inverts text

theorem eq_of_finite_ne_zero {x v : Double} (hfinite : v.isFinite = true) (hzero : v.isZero = false) :
    x.eq v = decide (x = v) := by
  cases v with
  | finite r =>
      have hr : r ≠ 0 := of_decide_eq_false hzero
      cases x with
      | finite q => simp
      | negZero => simp [Double.eq, Double.toRat, Ne.symm hr]
      | posInf | negInf | nan => rfl
  | negZero => cases hzero
  | posInf | negInf | nan => cases hfinite

/-- What reads a text, and what writes one, for the doubles that are solved for. -/
structure ReadsAndWrites (read : String → Option Double) (spell : Double → String) : Prop where
  read : ∀ d, IsDouble d → d.isFinite = true → d.isZero = false → read (formatGoDouble d) = some d
  spell : ∀ d, IsDouble d → d.isFinite = true → d.isZero = false → spell d = formatGoDouble d

section Solved

variable {text : String} (htext : isUndecidable text = false)

include htext

/-- The text of a zero, an infinity or a NaN is not one that is solved. -/
theorem formatGoDouble_ne_of_special {x : Double} (hx : x.isFinite = false ∨ x.isZero = true) :
    formatGoDouble x ≠ text := by
  rintro rfl
  have hspecial : isUndecidable (formatGoDouble x) = true := by
    cases x with
    | finite q =>
        have hzero : q = 0 := by
          obtain hfinite | hzero := hx
          · cases hfinite
          · exact of_decide_eq_true hzero
        subst hzero
        decide
    | _ => decide
  rw [hspecial] at htext
  cases htext

variable {read : String → Option Double} {spell : Double → String}
  (h : ReadsAndWrites read spell)

include h

/-- A text that is written as it was read is that of the double it is read as, and of no other. -/
theorem inverts_exactly {v : Double} (hfinite : v.isFinite = true) (hzero : v.isZero = false)
    (hread : read text = some v) (hspelled : spell v = text) :
    (SolvedText.exactly v).Inverts text := by
  intro negated
  refine ⟨rfl, fun x hx => ?_⟩
  have hsame : x.eq v = (formatGoDouble x == text) := by
    rw [eq_of_finite_ne_zero hfinite hzero, Bool.eq_iff_iff, decide_eq_true_eq, beq_iff_eq]
    constructor
    · rintro rfl
      rw [← h.spell x hx hfinite hzero, hspelled]
    · intro hformat
      by_cases hspecial : x.isFinite = false ∨ x.isZero = true
      · exact absurd hformat (formatGoDouble_ne_of_special htext hspecial)
      · rw [not_or, Bool.not_eq_false, Bool.not_eq_true] at hspecial
        have hback := h.read x hx hspecial.1 hspecial.2
        rw [hformat, hread] at hback
        exact (Option.some.inj hback).symm
  rw [SolvedText.truth, hsame]

/-- A text that is not written as it is read is no double's. -/
theorem inverts_nothing (hother : ∀ v, read text = some v → v.isFinite = true → spell v ≠ text) :
    SolvedText.nothing.Inverts text := by
  intro negated
  refine ⟨rfl, fun x hx => ?_⟩
  have hne : formatGoDouble x ≠ text := by
    intro hformat
    by_cases hspecial : x.isFinite = false ∨ x.isZero = true
    · exact formatGoDouble_ne_of_special htext hspecial hformat
    · rw [not_or, Bool.not_eq_false, Bool.not_eq_true] at hspecial
      have hback := h.read x hx hspecial.1 hspecial.2
      rw [hformat] at hback
      apply hother x hback hspecial.1
      rw [h.spell x hx hspecial.1 hspecial.2, hformat]
  rw [SolvedText.truth, beq_eq_false_iff_ne.mpr hne, Bool.false_bne]

end Solved

end QueryPlanAdapters
