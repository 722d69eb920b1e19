import QueryPlanAdapters.Cel.GoTime
import QueryPlanAdapters.Cel.Rfc3339
import QueryPlanAdapters.Numeric.Integers

/-!
# Durations in seconds

The planner spells a duration as decimal seconds, with at most nine digits behind the point.
Go's parser reads such a text exactly, and accepts it when its nanoseconds fit an int64.
-/

namespace QueryPlanAdapters

/-- A text `-12.5s`: a sign or none, the digits of the seconds, and a fraction or none. -/
structure SecondsText where
  negative : Bool
  seconds : List Char
  fraction : Fraction
  seconds_ne : seconds ≠ []
  seconds_digits : seconds.all isDigit = true

namespace SecondsText

def unsigned (d : SecondsText) : List Char :=
  d.seconds ++ (d.fraction.text ++ ['s'])

def text (d : SecondsText) : List Char :=
  if d.negative then '-' :: d.unsigned else d.unsigned

def magnitude (d : SecondsText) : Nat :=
  decimalValue d.seconds * 1000000000 + d.fraction.nanos

/-- The nanoseconds that are spelled, however many. -/
def nanos (d : SecondsText) : Int :=
  if d.negative then -d.magnitude else d.magnitude

end SecondsText

/-- `^(-)?(\d+)(?:\.(\d{1,9}))?s$`: the sign, the digits of the seconds, and the nanoseconds of
the fraction. -/
def matchSeconds (spelling : String) : Option (Bool × List Char × Nat) :=
  let negative := ['-'].isPrefixOf spelling.toList
  let cs := if negative then spelling.toList.tail else spelling.toList
  let seconds := cs.takeWhile isDigit
  match seconds.isEmpty, takeFraction (cs.dropWhile isDigit) with
  | false, some (nanos, ['s']) => some (negative, seconds, nanos)
  | _, _ => none

/-- A spelling that matches is one of decimal seconds. -/
theorem exists_secondsText {spelling : String} {negative : Bool} {seconds : List Char} {nanos : Nat}
    (h : matchSeconds spelling = some (negative, seconds, nanos)) :
    ∃ d : SecondsText, spelling = String.ofList d.text ∧ d.negative = negative ∧
      d.seconds = seconds ∧ d.fraction.nanos = nanos := by
  obtain ⟨cs, hcs, hspelling⟩ : ∃ cs, (if ['-'].isPrefixOf spelling.toList then
      spelling.toList.tail else spelling.toList) = cs ∧
      spelling.toList = if ['-'].isPrefixOf spelling.toList then '-' :: cs else cs := by
    refine ⟨_, rfl, ?_⟩
    split
    next hminus =>
      obtain ⟨rest, hrest⟩ := List.isPrefixOf_iff_prefix.mp hminus
      rw [← hrest]
      rfl
    next => rfl
  rw [matchSeconds] at h
  simp only [hcs] at h
  split at h
  next fraction hseconds hfraction =>
    obtain ⟨f, hrest, rfl⟩ := exists_fraction hfraction
    obtain ⟨rfl, rfl, rfl⟩ := by simpa only [Option.some.injEq, Prod.mk.injEq] using h
    refine ⟨⟨_, cs.takeWhile isDigit, f, List.isEmpty_eq_false_iff.mp hseconds,
      List.all_takeWhile⟩, ?_, rfl, rfl, rfl⟩
    rw [SecondsText.text, SecondsText.unsigned, ← hrest, List.takeWhile_append_dropWhile,
      ← hspelling, String.ofList_toList]
  next => cases h

/-! ## Go's reading of the fraction -/

/-- Up to nine digits are read exactly, with their power of ten. -/
theorem leadingFraction_digits {cs : List Char} {x k : Nat} (hdigits : cs.all isDigit = true)
    (hx : x < 10 ^ k) (hk : k + cs.length ≤ 9) :
    leadingFraction x (.finite (10 ^ k : ℕ)) false cs =
      (cs.foldl (fun n c => n * 10 + digitValue c) x, .finite (10 ^ (k + cs.length) : ℕ)) := by
  induction cs generalizing x k with
  | nil => rfl
  | cons c cs ih =>
      rw [List.all_cons, Bool.and_eq_true] at hdigits
      rw [List.length_cons] at hk
      have hvalue := GoTime.digitValue_le hdigits.1
      have hnine : 10 ^ (k + 1) ≤ 10 ^ 9 := Nat.pow_le_pow_right (by decide) (by omega)
      have hnext : x * 10 + digitValue c < 10 ^ (k + 1) := by
        rw [Nat.pow_succ]
        omega
      have hscale : (Double.finite (10 ^ k : ℕ)).mul (.finite 10) = .finite (10 ^ (k + 1) : ℕ) := by
        have hbits : 10 ^ k * 10 < 2 ^ 53 := by
          rw [← Nat.pow_succ]
          omega
        exact_mod_cast Double.mul_natCast hbits
      have hfits : ¬ (false || decide ((2 ^ 63 - 1) / 10 < x)) = true := by
        rw [Bool.false_or, decide_eq_true_eq]
        omega
      rw [leadingFraction, if_neg hfits]
      dsimp only
      rw [if_neg (by omega), hscale, ih hdigits.2 hnext (by omega), List.foldl_cons,
        List.length_cons, Nat.add_assoc, Nat.add_comm 1]

/-- The digits behind a point are worth their nanoseconds. -/
theorem fractionNanos_digits {digits count : Nat} (hcount : count ≤ 9) (hdigits : digits < 10 ^ count) :
    fractionNanos digits (.finite (10 ^ count : ℕ)) 1000000000 = (digits * 10 ^ (9 - count) : ℕ) := by
  have hunit : 10 ^ (9 - count) * 10 ^ count = 1000000000 := by
    rw [← Nat.pow_add, Nat.sub_add_cancel hcount]
  have hpow : 10 ^ count ≤ 10 ^ 9 := Nat.pow_le_pow_right (by decide) hcount
  have hplace : 10 ^ (9 - count) ≤ 10 ^ 9 := Nat.pow_le_pow_right (by decide) (by omega)
  have hproduct : digits * 10 ^ (9 - count) ≤ 1000000000 := by
    rw [← hunit, Nat.mul_comm digits]
    exact Nat.mul_le_mul_left _ hdigits.le
  have hquotient : (Double.ofInt (1000000000 : ℕ)).div (.finite (10 ^ count : ℕ)) =
      .finite (10 ^ (9 - count) : ℕ) := by
    rw [Double.ofInt_natCast (by decide), ← hunit]
    exact Double.div_natCast (Nat.pow_pos (by decide)).ne' (by omega)
  rw [fractionNanos, hquotient, Double.ofInt_natCast (by omega), Double.mul_natCast (by omega),
    Double.trunc_natCast]

namespace SecondsText

variable {d : SecondsText}

theorem takeWhile_unsigned : d.unsigned.takeWhile isDigit = d.seconds := by
  have hall := List.all_eq_true.mp d.seconds_digits
  have hstop : (d.fraction.text ++ ['s']).takeWhile isDigit = [] := by
    rw [Fraction.text]
    split <;> rfl
  rw [unsigned, List.takeWhile_append_of_pos hall, hstop, List.append_nil]

theorem dropWhile_unsigned : d.unsigned.dropWhile isDigit = d.fraction.text ++ ['s'] := by
  have hall := List.all_eq_true.mp d.seconds_digits
  have hstop : (d.fraction.text ++ ['s']).dropWhile isDigit = d.fraction.text ++ ['s'] := by
    rw [Fraction.text]
    split <;> rfl
  rw [unsigned, List.dropWhile_append_of_pos hall, hstop]

theorem afterPoint_fraction (f : Fraction) :
    afterPoint (f.text ++ ['s']) = (paddedDigits f.count f.digits, ['s']) := by
  have hall := List.all_eq_true.mp (isDigit_paddedDigits f.count f.digits)
  rw [Fraction.text]
  by_cases hnone : f.count = 0
  · rw [if_pos hnone, hnone]
    rfl
  · rw [if_neg hnone, List.cons_append, afterPoint, List.head?_cons, if_pos rfl, List.tail_cons,
      List.takeWhile_append_of_pos hall, List.dropWhile_append_of_pos hall]
    exact Prod.ext (List.append_nil _) rfl

/-- The text is one term. -/
theorem nextTerm_unsigned :
    nextTerm d.unsigned = (⟨d.seconds, paddedDigits d.fraction.count d.fraction.digits, "s"⟩, []) := by
  rw [nextTerm, dropWhile_unsigned, takeWhile_unsigned, afterPoint_fraction]
  rfl

theorem termsFrom_unsigned : termsFrom d.unsigned.length d.unsigned =
    [⟨d.seconds, paddedDigits d.fraction.count d.fraction.digits, "s"⟩] := by
  have hterm := nextTerm_unsigned (d := d)
  cases hcs : d.unsigned with
  | nil =>
      have hseconds := d.seconds_ne
      simp [unsigned] at hcs
  | cons c cs =>
      rw [hcs] at hterm
      rw [List.length_cons, termsFrom, hterm, termsFrom]

theorem extraNanos_term : (DurationTerm.mk d.seconds (paddedDigits d.fraction.count
    d.fraction.digits) "s").extraNanos 1000000000 = d.fraction.nanos := by
  obtain ⟨count, digits, hcount, hdigits⟩ := d.fraction
  have hread : leadingFraction 0 (.finite 1) false (paddedDigits count digits) =
      (digits, .finite (10 ^ count : ℕ)) := by
    have hlength := length_paddedDigits count digits
    have hexact := leadingFraction_digits (isDigit_paddedDigits count digits) (Nat.zero_lt_one)
      (k := 0) (by omega)
    have hvalue : (paddedDigits count digits).foldl (fun n c => n * 10 + digitValue c) 0 = digits :=
      decimalValue_paddedDigits hdigits
    rw [hvalue, hlength, Nat.zero_add] at hexact
    exact_mod_cast hexact
  rw [DurationTerm.extraNanos]
  dsimp only
  rw [hread]
  dsimp only [Fraction.nanos]
  split
  next => rw [fractionNanos_digits hcount hdigits, Int.toNat_natCast]
  next hzero =>
    obtain rfl : digits = 0 := by omega
    rw [Nat.zero_mul]

theorem nanos_term : (DurationTerm.mk d.seconds (paddedDigits d.fraction.count
    d.fraction.digits) "s").nanos = if 2 ^ 63 < d.magnitude then none else some d.magnitude := by
  have hworth : (DurationTerm.mk d.seconds (paddedDigits d.fraction.count d.fraction.digits)
      "s").worth 1000000000 = if 2 ^ 63 < d.magnitude then none else some d.magnitude := by
    have hmagnitude : decimalValue d.seconds * 1000000000 + d.fraction.nanos = d.magnitude := rfl
    rw [DurationTerm.worth, extraNanos_term]
    dsimp only
    rw [hmagnitude]
    by_cases hlarge : 2 ^ 63 / 1000000000 < decimalValue d.seconds
    · rw [if_pos hlarge, if_pos (by omega)]
    · rw [if_neg hlarge]
  have hunit : durationUnits.lookup "s" = some 1000000000 := by decide
  rw [DurationTerm.nanos]
  dsimp only
  rw [hunit, Option.bind_some, hworth]
  by_cases hlarge : 2 ^ 63 < d.magnitude
  · rw [if_pos hlarge, ite_self]
  · have hnumber : (DurationTerm.mk d.seconds (paddedDigits d.fraction.count d.fraction.digits)
        "s").isNumber = true := by
      rw [magnitude] at hlarge
      have hempty : d.seconds.isEmpty = false := List.isEmpty_eq_false_iff.mpr d.seconds_ne
      rw [DurationTerm.isNumber, hempty, Bool.false_and, Bool.not_false, Bool.and_true,
        decide_eq_true_eq]
      dsimp only
      omega
    rw [if_pos hnumber]

theorem takeSign_text : takeSign d.text = (d.negative, d.unsigned) := by
  rw [text]
  cases hnegative : d.negative with
  | true => rfl
  | false =>
      obtain ⟨c, cs, hcs⟩ := List.exists_cons_of_ne_nil d.seconds_ne
      have hdigit := d.seconds_digits
      rw [hcs, List.all_cons, Bool.and_eq_true] at hdigit
      have hminus : c ≠ '-' := by rintro rfl; exact absurd hdigit.1 (by decide)
      have hplus : c ≠ '+' := by rintro rfl; exact absurd hdigit.1 (by decide)
      rw [if_neg Bool.false_ne_true, unsigned, hcs, List.cons_append, takeSign]
      · exact fun _ h => hminus (List.cons.inj h).1
      · exact fun _ h => hplus (List.cons.inj h).1

theorem int64_of_le {n : Nat} (h : n ≤ 2 ^ 63 - 1) : GoTime.int64 n = n := by
  rw [GoTime.int64, Int.bmod_def]
  omega

theorem int64_neg_of_le {n : Nat} (h : n ≤ 2 ^ 63) : GoTime.int64 (-GoTime.int64 n) = -n := by
  rw [GoTime.int64, GoTime.int64, Int.bmod_def, Int.bmod_def]
  omega

/-- The sum of the one term. -/
theorem sumTerms_unsigned : GoTime.sumTerms 0 (termsFrom d.unsigned.length d.unsigned) =
    if 2 ^ 63 < d.magnitude then none else some d.magnitude := by
  rw [termsFrom_unsigned, GoTime.sumTerms, nanos_term]
  by_cases hlarge : 2 ^ 63 < d.magnitude
  · rw [if_pos hlarge]
    rfl
  · have hexact : GoTime.uint64 (0 + d.magnitude) = d.magnitude := by
      rw [Nat.zero_add]
      exact GoTime.uint64_of_lt (by omega)
    rw [if_neg hlarge, Option.bind_eq_bind, Option.bind_some, hexact, if_neg hlarge,
      GoTime.sumTerms]

/-- Go's parser reads the nanoseconds that are spelled, and refuses those beyond int64. -/
theorem goParseDuration_text :
    GoTime.parseDuration (String.ofList d.text) =
      if int64Min ≤ d.nanos ∧ d.nanos ≤ int64Max then some d.nanos else none := by
  have hlast : d.unsigned.getLast? = some 's' := by
    simp [unsigned]
  have hzero : d.unsigned ≠ ['0'] := by
    intro h
    rw [h] at hlast
    cases hlast
  have hempty : d.unsigned ≠ [] := by
    intro h
    rw [h] at hlast
    cases hlast
  rw [GoTime.parseDuration, String.toList_ofList, takeSign_text]
  dsimp only
  rw [if_neg hzero, if_neg hempty, GoTime.parseParts_eq le_rfl, sumTerms_unsigned, nanos]
  unfold int64Min int64Max
  by_cases hlarge : 2 ^ 63 < d.magnitude
  · rw [if_pos hlarge, if_neg]
    · rfl
    · split <;> omega
  · rw [if_neg hlarge, Option.bind_eq_bind, Option.bind_some]
    cases d.negative with
    | true => rw [if_pos rfl, if_pos rfl, if_pos (by omega), int64_neg_of_le (by omega)]
    | false =>
        rw [if_neg Bool.false_ne_true, if_neg Bool.false_ne_true]
        by_cases hmax : 2 ^ 63 - 1 < d.magnitude
        · rw [if_pos hmax, if_neg (by omega)]
        · rw [if_neg hmax, if_pos (by omega), int64_of_le (by omega)]

end SecondsText

end QueryPlanAdapters
