import QueryPlanAdapters.Drizzle.RewrittenNodes
import QueryPlanAdapters.Numeric.NearestEven

/-!
# Drizzle: timestamp arithmetic moved to the bound

A shifted timestamp, or the time since one, is compared by moving the duration to the other
side. The two comparisons agree except where one leaves CEL's range and the other does not,
and within a millisecond of the clock.
-/

namespace QueryPlanAdapters.Drizzle

open Go

/-! ## Texts of dates -/

theorem Rfc3339.head_text {t : Rfc3339} {c : Char} {cs : List Char} (h : t.text = c :: cs) :
    isDigit c = true := by
  have hlength := length_paddedDigits 4 t.date.year
  have hdigits := isDigit_paddedDigits 4 t.date.year
  rw [Rfc3339.text] at h
  cases hyear : paddedDigits 4 t.date.year with
  | nil =>
      rw [hyear] at hlength
      cases hlength
  | cons d ds =>
      rw [hyear, List.cons_append] at h
      obtain rfl := (List.cons.inj h).1
      rw [hyear, List.all_cons, Bool.and_eq_true] at hdigits
      exact hdigits.1

/-- No instant is spelled with a sign, or in the year 0. -/
theorem parseRfc3339Timestamp_eq_none {text : String} {start rest : List Char}
    (htext : text.toList = start ++ rest)
    (hstart : start = "0000".toList ∨ ∃ c cs, start = c :: cs ∧ isDigit c = false) :
    parseRfc3339Timestamp text = none := by
  rw [parseRfc3339Timestamp, Option.filter_eq_none_iff]
  intro nanos hparsed
  obtain ⟨t, ht, -⟩ := parseRfc3339Instant_eq_some_iff.mp hparsed
  rw [htext] at ht
  obtain rfl | ⟨c, cs, rfl, hc⟩ := hstart
  · have hlength := length_paddedDigits 4 t.date.year
    rw [Rfc3339.text] at ht
    obtain ⟨hyear, -⟩ := List.append_inj ht hlength
    have hyears : t.date.year < 10 ^ 4 := Nat.lt_succ_of_le t.year_le
    have hvalue := decimalValue_paddedDigits hyears
    have hpositive := t.date.year_pos
    rw [hyear] at hvalue
    have hzero : decimalValue "0000".toList = 0 := by decide
    omega
  · rw [Rfc3339.head_text ht] at hc
    cases hc

/-- The text of a date is read back when CEL has the instant, and not otherwise. -/
theorem parse_isoText (milliseconds : Int) :
    (Prisma.InRange milliseconds →
      parseRfc3339Timestamp (isoText milliseconds) = some (milliseconds * 1000000)) ∧
    (¬ Prisma.InRange milliseconds → parseRfc3339Timestamp (isoText milliseconds) = none) := by
  have hrange : Prisma.InRange milliseconds ↔
      -62135596800000 ≤ milliseconds ∧ milliseconds ≤ 253402300799999 := Iff.rfl
  rw [isoText]
  split
  next hmin =>
    constructor
    · intro hin
      have hcycles : cyclesPast (milliseconds / 86400000) = 0 := by
        rw [cyclesPast, if_pos]
        have hmax := (hrange.mp hin).2
        omega
      have htext : String.ofList (toISOString milliseconds) = Prisma.toISOString milliseconds := by
        rw [toISOString, hcycles, if_pos rfl, Int.zero_mul, Int.zero_mul, Int.sub_zero,
          String.ofList_toList]
      rw [htext]
      exact Prisma.parseRfc3339Timestamp_toISOString hin
    · intro hout
      have hmax : ¬ milliseconds ≤ 253402300799999 := fun h => hout (hrange.mpr ⟨hmin, h⟩)
      have hcycles : cyclesPast (milliseconds / 86400000) ≠ 0 := by
        rw [cyclesPast, if_neg (by omega)]
        omega
      rw [toISOString, if_neg hcycles]
      apply parseRfc3339Timestamp_eq_none (String.toList_ofList.trans (List.singleton_append).symm)
      exact .inr ⟨'+', [], rfl, by decide⟩
  next hmin =>
    refine ⟨fun hin => absurd (hrange.mp hin).1 hmin, fun _ => ?_⟩
    apply parseRfc3339Timestamp_eq_none String.toList_ofList
    split
    · exact .inl rfl
    · exact .inr ⟨'-', _, rfl, by decide⟩

/-! ## Milliseconds -/

section Milliseconds

open Double

/-- The digits of a fraction of at most three digits are whole milliseconds. -/
theorem fraction_millis {f : Fraction} {cs : List Char} (hcs : cs = f.text ++ ['s'])
    (h : ¬ 5 < (cs.dropWhile (· ≠ '.')).length) : ∃ k, f.nanos = k * 1000000 ∧ k < 1000 := by
  obtain ⟨count, digits, hcount, hdigits⟩ := f
  subst hcs
  have hshort : count ≤ 3 := by
    by_contra hlong
    apply h
    have hne : count ≠ 0 := by omega
    rw [Fraction.text, if_neg hne, List.cons_append, List.dropWhile_cons_of_neg (by simp),
      List.length_cons, List.length_append, length_paddedDigits]
    simp only [List.length_singleton]
    omega
  refine ⟨digits * 10 ^ (3 - count), ?_, ?_⟩
  · have hpow : 10 ^ (9 - count) = 10 ^ (3 - count) * 1000000 := by
      rw [show 9 - count = 3 - count + 6 by omega, Nat.pow_add]
    rw [Fraction.nanos, hpow, Nat.mul_assoc]
  · have hpow : 10 ^ count * 10 ^ (3 - count) = 1000 := by
      rw [← Nat.pow_add, Nat.add_sub_cancel' hshort]
    calc digits * 10 ^ (3 - count) < 10 ^ count * 10 ^ (3 - count) :=
          Nat.mul_lt_mul_of_pos_right hdigits (Nat.pow_pos (by decide))
      _ = 1000 := hpow

/-- A spelled duration that CEL reads is exact in milliseconds. -/
theorem spelledMilliseconds_exact {spelling : String} {milliseconds : Double} {nanos : Int}
    (h : spelledMilliseconds spelling = some milliseconds)
    (hparsed : GoTime.parseDuration spelling = some nanos) :
    ∃ m : Int, nanos = m * 1000000 ∧ milliseconds.HasValue m ∧
      int64Min ≤ nanos ∧ nanos ≤ int64Max := by
  unfold spelledMilliseconds at h
  split at h
  next negative seconds fraction hmatch =>
    obtain ⟨d, rfl, rfl, rfl, rfl⟩ := exists_secondsText hmatch
    split at h
    next => cases h
    next hdigits =>
      rw [SecondsText.goParseDuration_text] at hparsed
      split at hparsed
      next hfits =>
        obtain rfl := Option.some_inj.mp hparsed
        have hrest : (String.ofList d.text).toList.dropWhile (· ≠ '.') =
            (d.fraction.text ++ ['s']).dropWhile (· ≠ '.') := by
          have hseconds : ∀ c ∈ d.seconds, (decide (c ≠ '.')) = true := by
            intro c hc
            have hdigit := List.all_eq_true.mp d.seconds_digits c hc
            refine decide_eq_true ?_
            rintro rfl
            exact absurd hdigit (by decide)
          have hunsigned : d.unsigned.dropWhile (· ≠ '.') =
              (d.fraction.text ++ ['s']).dropWhile (· ≠ '.') := by
            rw [SecondsText.unsigned, List.dropWhile_append_of_pos hseconds]
          rw [String.toList_ofList, SecondsText.text]
          split
          · rw [List.dropWhile_cons_of_pos (by decide)]
            exact hunsigned
          · exact hunsigned
        rw [hrest] at hdigits
        obtain ⟨k, hk, hlt⟩ := fraction_millis rfl hdigits
        have hmagnitude : d.magnitude = (decimalValue d.seconds * 1000 + k) * 1000000 := by
          rw [SecondsText.magnitude, hk]
          omega
        have hbits : decimalValue d.seconds * 1000 + k < 2 ^ 53 := by
          have hnanos : d.nanos.natAbs = d.magnitude := by
            rw [SecondsText.nanos]
            split
            · rw [Int.natAbs_neg, Int.natAbs_natCast]
            · exact Int.natAbs_natCast _
          have hbound : d.magnitude ≤ 2 ^ 63 := by
            obtain ⟨hmin, hmax⟩ := hfits
            rw [int64Min] at hmin
            rw [int64Max] at hmax
            omega
          omega
        have hunsigned : (((Double.ofInt (decimalValue d.seconds)).mul 1000).add
            (Double.ofInt (d.fraction.nanos / 1000000 : ℕ))).HasValue
              (decimalValue d.seconds * 1000 + k : ℕ) := by
          have hproduct : decimalValue d.seconds * 1000 < 2 ^ 53 :=
            lt_of_le_of_lt (Nat.le_add_right _ k) hbits
          have hseconds : (Double.ofInt (decimalValue d.seconds)).mul 1000 =
              .finite (decimalValue d.seconds * 1000 : ℕ) := by
            rw [Double.ofInt_natCast (by omega)]
            exact Double.mul_natCast hproduct
          have hfraction : Double.ofInt (d.fraction.nanos / 1000000 : ℕ) = .finite (k : ℕ) := by
            rw [hk, Nat.mul_div_cancel _ (by decide), Double.ofInt_natCast (by omega)]
          rw [hseconds, hfraction]
          have hsum := hasValue_add (a := .finite (decimalValue d.seconds * 1000 : ℕ))
            (b := .finite (k : ℕ)) (m := (decimalValue d.seconds * 1000 : ℕ)) (n := (k : ℕ))
            ⟨rfl, by simp [Double.toRat]⟩ ⟨rfl, by simp [Double.toRat]⟩ (by omega)
          exact_mod_cast hsum
        have hmilliseconds := Option.some_inj.mp h
        rw [SecondsText.nanos] at hfits ⊢
        cases hnegative : d.negative with
        | true =>
            rw [hnegative, if_pos rfl] at hmilliseconds hfits
            refine ⟨-(decimalValue d.seconds * 1000 + k : ℕ), ?_, ?_, by rw [if_pos rfl]; exact hfits⟩
            · rw [if_pos rfl, hmagnitude]
              push_cast
              ring
            · rw [← hmilliseconds]
              exact_mod_cast hunsigned.neg
        | false =>
            rw [hnegative, if_neg Bool.false_ne_true] at hmilliseconds hfits
            refine ⟨(decimalValue d.seconds * 1000 + k : ℕ), ?_, ?_,
              by rw [if_neg Bool.false_ne_true]; exact hfits⟩
            · rw [if_neg Bool.false_ne_true, hmagnitude]
              push_cast
              ring
            · rw [← hmilliseconds]
              exact_mod_cast hunsigned
      next => cases hparsed
  next => cases h

end Milliseconds

/-! ## What CEL makes of the operands -/

/-- `Date.parse` reads a text without digits past its milliseconds as CEL does. -/
def ReadsDates (dateParse : String → Option Int) : Prop :=
  ∀ {text : String} {nanos milliseconds : Int}, hasFinerDigits text = false →
    parseRfc3339Timestamp text = some nanos → dateParse text = some milliseconds →
      nanos = milliseconds * 1000000

section Operands

variable {functions : Functions} {env : Valuation} {now : Int} {dateParse : String → Option Int}

section Meanings

variable (hfunctions : CelFunctions functions now)
include hfunctions

variable (env) in
theorem meaning_duration {node : Node} {window : Double}
    (h : durationMilliseconds node = some window) :
    meaning functions node env = .error ∨ ∃ m : Int,
      meaning functions node env = .value (.duration (m * 1000000)) ∧ window.HasValue m ∧
        int64Min ≤ m * 1000000 ∧ m * 1000000 ≤ int64Max := by
  unfold durationMilliseconds at h
  split at h
  next spelling =>
    have hmeaning : meaning functions (.expression .duration [.value (.string spelling)]) env =
        (GoTime.parseDuration spelling).elim .error fun d => .value (.duration d) := by
      rw [meaning_unary rfl]
      exact hfunctions.duration spelling
    rw [hmeaning]
    cases hparsed : GoTime.parseDuration spelling with
    | none => exact .inl rfl
    | some nanos =>
        obtain ⟨m, rfl, hvalue, hfits⟩ := spelledMilliseconds_exact h hparsed
        exact .inr ⟨m, rfl, hvalue, hfits⟩
  next => cases h

variable (env) in
theorem meaning_timestampCall (text : String) :
    meaning functions (timestampCall text) env =
      (parseRfc3339Timestamp text).elim .error fun t => .value (.timestamp t) := by
  rw [timestampCall, meaning_unary rfl]
  exact hfunctions.timestamp text

variable (env) in
theorem meaning_timestampLiteral {bound : Double}
    {literal : Node} (h : timestampLiteral bound = some literal) :
    (Prisma.InRange bound.trunc →
      meaning functions literal env = .value (.timestamp (bound.trunc * 1000000))) ∧
    (¬ Prisma.InRange bound.trunc → meaning functions literal env = .error) := by
  rw [timestampLiteral] at h
  split at h
  next =>
    obtain rfl := Option.some_inj.mp h
    obtain ⟨hin, hout⟩ := parse_isoText bound.trunc
    rw [meaning_timestampCall env hfunctions]
    constructor
    · intro hrange
      rw [hin hrange]
      rfl
    · intro hrange
      rw [hout hrange]
      rfl
  next => cases h

variable (env) in
theorem meaning_literal (hdates : ReadsDates dateParse)
    {node : Node} {bound : Double} (h : timestampLiteralMilliseconds dateParse node = some bound) :
    meaning functions node env = .error ∨ ∃ b : Int,
      meaning functions node env = .value (.timestamp (b * 1000000)) ∧ bound.HasValue b ∧
        Prisma.InRange b := by
  unfold timestampLiteralMilliseconds at h
  split at h
  next text =>
    split at h
    next => cases h
    next hfiner =>
      obtain ⟨b, hb, rfl⟩ := Option.map_eq_some_iff.mp h
      have hmeaning := meaning_timestampCall env hfunctions text
      rw [timestampCall] at hmeaning
      rw [hmeaning]
      cases hparsed : parseRfc3339Timestamp text with
      | none => exact .inl rfl
      | some nanos =>
          obtain rfl := hdates (Bool.eq_false_iff.mpr hfiner) hparsed hb
          have hrange := Prisma.inTimestampRange_millis.mp (Option.filter_eq_some_iff.mp hparsed).2
          refine .inr ⟨b, rfl, ?_, hrange⟩
          have hbits : b.natAbs < 2 ^ 53 := by
            obtain ⟨hmin, hmax⟩ := hrange
            rw [Prisma.minInstant] at hmin
            rw [Prisma.maxInstant] at hmax
            omega
          rw [Double.ofInt_of_natAbs_lt hbits]
          exact ⟨rfl, rfl⟩
  next => cases h

variable (env) in
/-- `timestamp(...)` is a timestamp or an error. -/
theorem meaning_isTimestampCall {node : Node}
    (h : isTimestampCall node = true) :
    meaning functions node env = .error ∨ ∃ n, meaning functions node env = .value (.timestamp n) := by
  unfold isTimestampCall at h
  split at h
  next operands =>
    rw [meaning_strict rfl]
    cases valuesOf functions operands env with
    | none => exact .inl rfl
    | some values =>
        have happly : functions.apply .timestamp values = functions.call .timestamp values := by
          cases values with
          | nil => rfl
          | cons v values =>
              cases values with
              | nil => rfl
              | cons w values => cases values <;> cases v <;> cases w <;> rfl
        rw [Option.elim_some, happly]
        cases hcall : functions.call .timestamp values with
        | error => exact .inl rfl
        | value v =>
            obtain ⟨t, rfl⟩ := hfunctions.converted hcall
            exact .inr ⟨t, rfl⟩
  next => cases h

end Meanings

/-- What a shifted timestamp makes of its timestamp. -/
structure Shifts (functions : Functions) (env : Valuation) (side conversion : Node)
    (shift : Double) : Prop where
  call : isTimestampCall conversion = true
  missing : meaning functions conversion env = .error → meaning functions side env = .error
  shifted {n : Int} : meaning functions conversion env = .value (.timestamp n) →
    meaning functions side env = .error ∨ ∃ m : Int,
      meaning functions side env = .value (.timestamp (n + m * 1000000)) ∧ shift.HasValue m ∧
        -9223372036855 ≤ m ∧ m ≤ 9223372036855

theorem conversionAndDuration_eq_some {conversion duration timestamp : Node} {shift : Double}
    (h : conversionAndDuration dateParse conversion duration = some (timestamp, shift)) :
    timestamp = conversion ∧ isTimestampCall conversion = true ∧
      durationMilliseconds duration = some shift := by
  rw [conversionAndDuration] at h
  split at h
  next hconversion =>
    obtain ⟨window, hwindow, heq⟩ := Option.map_eq_some_iff.mp h
    obtain ⟨rfl, rfl⟩ := Prod.mk.inj heq
    rw [isConversion, Bool.and_eq_true] at hconversion
    exact ⟨rfl, hconversion.1, hwindow⟩
  next => cases h

theorem ite_error {p : Prop} [Decidable p] (v : Value) :
    (if p then .value v else .error) = Outcome.error ∨
      (if p then .value v else .error) = Outcome.value v := by
  split
  · exact .inr rfl
  · exact .inl rfl

variable (env) in
theorem shiftedTimestamp_shifts (hfunctions : CelFunctions functions now) {side conversion : Node}
    {shift : Double} (h : shiftedTimestamp dateParse side = some (conversion, shift)) :
    Shifts functions env side conversion shift := by
  have hbounds : ∀ {m : Int}, int64Min ≤ m * 1000000 ∧ m * 1000000 ≤ int64Max →
      -9223372036855 ≤ m ∧ m ≤ 9223372036855 := by
    rintro m ⟨hmin, hmax⟩
    rw [int64Min] at hmin
    rw [int64Max] at hmax
    omega
  unfold shiftedTimestamp at h
  split at h
  next left right =>
    obtain h | ⟨-, h⟩ := Option.or_eq_some_iff.mp h
    · obtain ⟨rfl, hcall, hduration⟩ := conversionAndDuration_eq_some h
      refine ⟨hcall, ?_, ?_⟩
      · intro herror
        rw [meaning_binary rfl, herror]
        rfl
      · intro n hn
        rw [meaning_binary rfl, hn]
        obtain hright | ⟨m, hright, hvalue, hfits⟩ := meaning_duration env hfunctions hduration
        · rw [hright]
          exact .inl rfl
        · rw [hright]
          have hsum := hfunctions.sum n (m * 1000000)
          obtain herror | hin := ite_error (p := inTimestampRange (n + m * 1000000) = true)
            (.timestamp (n + m * 1000000))
          · exact .inl (hsum.trans herror)
          · exact .inr ⟨m, hsum.trans hin, hvalue, hbounds hfits⟩
    · obtain ⟨rfl, hcall, hduration⟩ := conversionAndDuration_eq_some h
      refine ⟨hcall, ?_, ?_⟩
      · intro herror
        rw [meaning_binary rfl, herror]
        cases (meaning functions left env).toValue <;> rfl
      · intro n hn
        rw [meaning_binary rfl, hn]
        obtain hleft | ⟨m, hleft, hvalue, hfits⟩ := meaning_duration env hfunctions hduration
        · rw [hleft]
          exact .inl rfl
        · rw [hleft]
          have hsum := hfunctions.sumAfter n (m * 1000000)
          obtain herror | hin := ite_error (p := inTimestampRange (n + m * 1000000) = true)
            (.timestamp (n + m * 1000000))
          · exact .inl (hsum.trans herror)
          · exact .inr ⟨m, hsum.trans hin, hvalue, hbounds hfits⟩
  next left right =>
    obtain ⟨⟨timestamp, window⟩, hmoved, heq⟩ := Option.map_eq_some_iff.mp h
    obtain ⟨rfl, rfl⟩ := Prod.mk.inj heq
    obtain ⟨rfl, hcall, hduration⟩ := conversionAndDuration_eq_some hmoved
    refine ⟨hcall, ?_, ?_⟩
    · intro herror
      rw [meaning_binary rfl, herror]
      rfl
    · intro n hn
      rw [meaning_binary rfl, hn]
      obtain hright | ⟨m, hright, hvalue, hfits⟩ := meaning_duration env hfunctions hduration
      · rw [hright]
        exact .inl rfl
      · rw [hright]
        have hdifference := hfunctions.difference n (m * 1000000)
        have hnegated : n + -m * 1000000 = n - m * 1000000 := by omega
        obtain ⟨hmin, hmax⟩ := hbounds hfits
        obtain herror | hin := ite_error (p := inTimestampRange (n - m * 1000000) = true)
          (.timestamp (n - m * 1000000))
        · exact .inl (hdifference.trans herror)
        · refine .inr ⟨-m, ?_, ?_, by omega, by omega⟩
          · rw [hnegated]
            exact hdifference.trans hin
          · rw [Int.cast_neg]
            exact hvalue.neg
  next => cases h

end Operands

/-! ## The comparison of the bare timestamp -/

/-- Where the comparison of the bare timestamp gives CEL's result: the bound is in CEL's range
exactly where both operands have values, and the timestamp lies on one side of the window's
start by CEL's clock and by the bound. -/
structure InstantComparison.Exact (functions : Functions) (env : Valuation) (now : Int)
    (c : InstantComparison) (n : Int) : Prop where
  range : (meaning functions c.arithmetic env).isError = false ∧
    (meaning functions c.literal env).isError = false ↔ Prisma.InRange c.bound.trunc
  clock {d : Int} : meaning functions c.literal env = .value (.duration d) →
    c.operator.test (.finite n) (.finite (now - d : Int)) =
      c.operator.test (.finite n) (.finite (c.bound.trunc * 1000000 : Int))

section Comparisons

variable {functions : Functions} {env : Valuation} {now : Int} {dateParse : String → Option Int}

variable {c : InstantComparison} {n clock : Int} {other side : Node}

theorem eq_value_of_asBoolean {o : Outcome} {b : Bool} (h : o.asBoolean = .ofBool b) :
    o = .value (.bool b) := by
  cases b with
  | true => exact Outcome.asBoolean_eq_yes_iff.mp h
  | false => exact Outcome.asBoolean_eq_no_iff.mp h

theorem comparisonOutcome_timestamps (operator : ComparisonOperator) (a b : Int) :
    comparisonOutcome operator (.value (.timestamp a)) (.value (.timestamp b)) =
      .value (.bool (operator.test (.finite a) (.finite b))) :=
  eq_value_of_asBoolean (Prisma.comparisonOutcome_timestamps operator a b)

theorem comparisonOutcome_durations (operator : ComparisonOperator) (a b : Int) :
    comparisonOutcome operator (.value (.duration a)) (.value (.duration b)) =
      .value (.bool (operator.test (.finite a) (.finite b))) :=
  eq_value_of_asBoolean (Prisma.comparisonOutcome_durations operator a b)

theorem comparisonOutcome_error (operator : ComparisonOperator) (o : Outcome) :
    comparisonOutcome operator o .error = .error := by
  cases o <;> rfl

/-- The comparison of the bare timestamp, and what it replaces. -/
def InstantComparison.Agrees (functions : Functions) (env : Valuation) (now : Int)
    (c : InstantComparison) (outcome : Outcome) : Prop :=
  ∀ literal, timestampLiteral c.bound = some literal →
    (comparisonOutcome c.operator (meaning functions c.conversion env)
        (meaning functions literal env) = outcome ↔
      ∀ n, meaning functions c.conversion env = .value (.timestamp n) →
        c.Exact functions env now n)

/-- A timestamp that is missing is missing on either side. -/
theorem agrees_of_missing (h : meaning functions c.conversion env = .error) :
    c.Agrees functions env now .error := by
  intro literal _
  rw [h]
  refine iff_of_true ?_ ?_
  · cases meaning functions literal env <;> rfl
  · rintro n ⟨⟩

/-- What replaces an error is one where the bound is out of range. -/
theorem agrees_error (hfunctions : CelFunctions functions now)
    (hn : meaning functions c.conversion env = .value (.timestamp n))
    (herror : meaning functions c.arithmetic env = .error ∨ meaning functions c.literal env = .error)
    (hclock : ∀ d, meaning functions c.literal env = .value (.duration d) →
      meaning functions c.arithmetic env ≠ .error) :
    c.Agrees functions env now .error := by
  have hvalues : ¬ ((meaning functions c.arithmetic env).isError = false ∧
      (meaning functions c.literal env).isError = false) := by
    rintro ⟨harithmetic, hliteral⟩
    obtain h | h := herror
    · rw [h] at harithmetic
      cases harithmetic
    · rw [h] at hliteral
      cases hliteral
  have hnever : ∀ d, meaning functions c.literal env ≠ .value (.duration d) := by
    intro d hd
    obtain h | h := herror
    · exact hclock d hd h
    · rw [h] at hd
      cases hd
  intro literal hliteral
  obtain ⟨hin, hout⟩ := meaning_timestampLiteral env hfunctions hliteral
  rw [hn]
  by_cases hrange : Prisma.InRange c.bound.trunc
  · rw [hin hrange, comparisonOutcome_timestamps]
    refine iff_of_false Outcome.noConfusion ?_
    intro hexact
    exact hvalues ((hexact n rfl).range.mpr hrange)
  · rw [hout hrange, comparisonOutcome_error]
    refine iff_of_true rfl ?_
    intro n' _
    exact ⟨iff_of_false hvalues hrange, fun hd => absurd hd (hnever _)⟩

/-- What replaces a decided comparison decides it where the bound is in range and separates the
timestamp in the same way. -/
theorem agrees_value (hfunctions : CelFunctions functions now)
    (hn : meaning functions c.conversion env = .value (.timestamp n))
    (harithmetic : (meaning functions c.arithmetic env).isError = false)
    (hliteral : (meaning functions c.literal env).isError = false) {b : Bool}
    (hclock : Prisma.InRange c.bound.trunc →
      (c.operator.test (.finite n) (.finite (c.bound.trunc * 1000000 : Int)) = b ↔
        ∀ d, meaning functions c.literal env = .value (.duration d) →
          c.operator.test (.finite n) (.finite (now - d : Int)) =
            c.operator.test (.finite n) (.finite (c.bound.trunc * 1000000 : Int)))) :
    c.Agrees functions env now (.value (.bool b)) := by
  intro literal hbound
  obtain ⟨hin, hout⟩ := meaning_timestampLiteral env hfunctions hbound
  rw [hn]
  by_cases hrange : Prisma.InRange c.bound.trunc
  · rw [hin hrange, comparisonOutcome_timestamps]
    constructor
    · rintro hsame n' ⟨⟩
      have htest := (hclock hrange).mp (Value.bool.inj (Outcome.value.inj hsame))
      exact ⟨iff_of_true ⟨harithmetic, hliteral⟩ hrange, fun hd => htest _ hd⟩
    · intro hexact
      have htest := (hclock hrange).mpr fun d hd => (hexact n rfl).clock hd
      rw [htest]
  · rw [hout hrange, comparisonOutcome_error]
    refine iff_of_false Outcome.noConfusion ?_
    intro hexact
    exact hrange ((hexact n rfl).range.mp ⟨harithmetic, hliteral⟩)

/-- A shifted timestamp against a literal. -/
theorem shiftedSide_agrees (hfunctions : CelFunctions functions now) (hdates : ReadsDates dateParse)
    {operator : ComparisonOperator}
    (h : shiftedSide dateParse operator side other = some c) :
    c.Agrees functions env now
      (comparisonOutcome operator (meaning functions side env) (meaning functions other env)) := by
  obtain ⟨⟨conversion, shift⟩, hshifted, h⟩ := Option.bind_eq_some_iff.mp h
  obtain ⟨bound, hbound, rfl⟩ := Option.map_eq_some_iff.mp h
  have hshifts := shiftedTimestamp_shifts env hfunctions hshifted
  obtain hmissing | ⟨n, hn⟩ := meaning_isTimestampCall env hfunctions hshifts.call
  · rw [hshifts.missing hmissing]
    exact agrees_of_missing hmissing
  obtain hother | ⟨b, hother, hb, hrange⟩ := meaning_literal env hfunctions hdates hbound
  · rw [hother, comparisonOutcome_error]
    refine agrees_error hfunctions hn (.inr hother) ?_
    intro d hd
    rw [hother] at hd
    cases hd
  obtain hside | ⟨m, hside, hm, hmin, hmax⟩ := hshifts.shifted hn
  · rw [hside]
    refine agrees_error hfunctions hn (.inl hside) ?_
    intro d hd
    rw [hother] at hd
    cases hd
  · rw [hside, hother, comparisonOutcome_timestamps]
    refine agrees_value hfunctions hn (by rw [hside]; rfl) (by rw [hother]; rfl) ?_
    intro _
    have htrunc : (bound.sub shift).trunc = b - m := by
      obtain ⟨hfirst, hlast⟩ := hrange
      rw [Prisma.minInstant] at hfirst
      rw [Prisma.maxInstant] at hlast
      exact Double.trunc_of_hasValue (Double.hasValue_sub hb hm (by omega))
    refine iff_of_true ?_ ?_
    · rw [htrunc]
      exact test_finite_iff operator (by omega) (by omega)
    · intro d hd
      rw [hother] at hd
      cases hd

/-- The time since a timestamp against a duration. -/
theorem sinceSide_agrees (hfunctions : CelFunctions functions now) {operator : ComparisonOperator}
    (h : sinceSide clock operator side other = some c) :
    c.Agrees functions env now
      (comparisonOutcome operator (meaning functions side env) (meaning functions other env)) := by
  unfold sinceSide at h
  split at h
  next conversion =>
    split at h
    next hcall =>
      obtain ⟨window, hwindow, rfl⟩ := Option.map_eq_some_iff.mp h
      obtain hmissing | ⟨n, hn⟩ := meaning_isTimestampCall env hfunctions hcall
      · have hside : meaning functions (.expression .timeSince [conversion]) env = .error := by
          rw [meaning_unary rfl, hmissing]
          rfl
        rw [hside]
        exact agrees_of_missing hmissing
      have hside : meaning functions (.expression .timeSince [conversion]) env =
          .value (.duration (saturatedSince now n)) := by
        rw [meaning_unary rfl, hn]
        exact hfunctions.timeSince n
      obtain hother | ⟨m, hother, -, hfits⟩ := meaning_duration env hfunctions hwindow
      · rw [hother, comparisonOutcome_error]
        refine agrees_error hfunctions hn (.inr hother) ?_
        intro d hd
        rw [hother] at hd
        cases hd
      · rw [hside, hother, comparisonOutcome_durations, test_saturatedSince operator hfits]
        refine agrees_value hfunctions hn (by rw [hside]; rfl) (by rw [hother]; rfl) ?_
        intro _
        constructor
        · rintro hsame d hd
          obtain rfl := Value.duration.inj (Outcome.value.inj (hother.symm.trans hd))
          exact hsame.symm
        · intro hall
          exact (hall _ hother).symm
    next => cases h
  next => cases h

variable (env) in
theorem instantSide_agrees (hfunctions : CelFunctions functions now)
    (hdates : ReadsDates dateParse) {operator : ComparisonOperator}
    (h : instantSide dateParse clock operator side other = some c) :
    c.Agrees functions env now
      (comparisonOutcome operator (meaning functions side env) (meaning functions other env)) := by
  obtain h | ⟨-, h⟩ := Option.or_eq_some_iff.mp h
  · exact shiftedSide_agrees hfunctions hdates h
  · exact sinceSide_agrees hfunctions h

/-- The comparison of the bare timestamp keeps CEL's result exactly where it is exact. -/
theorem meaning_instantComparison_iff (hfunctions : CelFunctions functions now)
    (hdates : ReadsDates dateParse) {node literal : Node}
    (h : instantComparison dateParse clock node = some c)
    (hliteral : timestampLiteral c.bound = some literal) :
    meaning functions (c.node literal) env = meaning functions node env ↔
      ∀ n, meaning functions c.conversion env = .value (.timestamp n) →
        c.Exact functions env now n := by
  unfold instantComparison at h
  split at h
  next operator left right =>
    obtain ⟨op, hop, h⟩ := Option.bind_eq_some_iff.mp h
    rw [InstantComparison.node, meaning_comparison (Prisma.comparisonOps_comparisonNode _),
      meaning_comparison hop]
    obtain h | ⟨-, h⟩ := Option.or_eq_some_iff.mp h
    · exact instantSide_agrees env hfunctions hdates h literal hliteral
    · have hagrees := instantSide_agrees env hfunctions hdates h literal hliteral
      rw [comparisonOutcome_mirrored] at hagrees
      exact hagrees
  next => cases h

end Comparisons

end QueryPlanAdapters.Drizzle
