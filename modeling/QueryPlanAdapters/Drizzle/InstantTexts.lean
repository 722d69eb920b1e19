import QueryPlanAdapters.Cel.DigitTexts
import QueryPlanAdapters.Prisma.Timestamps

/-!
# Drizzle: texts of instants

An instant is written with as many digits of its second as are asked for. With nine of them the
text has a fixed width, and the order of such texts by code point is that of the instants.
-/

namespace QueryPlanAdapters.Drizzle

open Elasticsearch (yearOf monthsBefore monthOf dayOfMonth)

/-! ## Dates -/

/-- The cycles of 400 years that a day lies behind the year 9999. -/
def cyclesPast (day : Int) : Int :=
  if day < 2932897 then 0 else (day - 2932897) / 146097 + 1

/-- `new Date(milliseconds).toISOString()`, from the year 1: a year of more than four digits is
written with a sign and six. -/
def toISOString (milliseconds : Int) : List Char :=
  let cycles := cyclesPast (milliseconds / 86400000)
  let early := milliseconds - cycles * 146097 * 86400000
  let text := (Prisma.toISOString early).toList
  if cycles = 0 then text
  else '+' :: (paddedDigits 6 (yearOf (early / 86400000) + 400 * cycles.toNat) ++ text.drop 4)

/-- `.replace(".000Z", "Z")` of an ISO text, which has no point before its end. -/
def dropZeroMilliseconds (iso : List Char) : List Char :=
  if iso.drop (iso.length - 5) = ".000Z".toList then iso.take (iso.length - 5) ++ ['Z'] else iso

/-- `formatRfc3339Nanoseconds` -/
def formatRfc3339Nanoseconds (nanoseconds : Int) (digits : Nat) : String :=
  let remainder := nanoseconds % 1000000
  let iso := toISOString ((nanoseconds - remainder) / 1000000)
  if digits ≤ 3 then String.ofList (dropZeroMilliseconds iso)
  else
    let fraction := (iso.drop 20).take 3 ++ paddedDigits 6 remainder.toNat
    String.ofList (iso.take 19 ++ '.' :: (fraction.take digits ++ ['Z']))

/-! ## Whole seconds -/

/-- `YYYY-MM-DDTHH:MM:SS`, in the years 1 to 9999. -/
def wholeSecondsText (seconds : Int) : List Char :=
  let second := (seconds % 86400).toNat
  paddedDigits 4 (yearOf (seconds / 86400)) ++ '-' ::
    (paddedDigits 2 (monthOf (seconds / 86400)) ++ '-' ::
      (paddedDigits 2 (dayOfMonth (seconds / 86400)) ++ 'T' ::
        (paddedDigits 2 (second / 3600) ++ ':' ::
          (paddedDigits 2 (second / 60 % 60) ++ ':' :: paddedDigits 2 (second % 60)))))

/-- `YYYY-MM-DDTHH:MM:SS.nnnnnnnnnZ` -/
def instantText (seconds : Int) (nanos : Nat) : List Char :=
  wholeSecondsText seconds ++ '.' :: (paddedDigits 9 nanos ++ ['Z'])

variable {nanoseconds : Int}

theorem length_wholeSecondsText (seconds : Int) : (wholeSecondsText seconds).length = 19 := by
  simp [wholeSecondsText, length_paddedDigits]

/-- The seconds of the years 1 to 9999. -/
def InYears (seconds : Int) : Prop := -62135596800 ≤ seconds ∧ seconds ≤ 253402300799

theorem toISOString_eq {milliseconds : Int} (h : InYears (milliseconds / 1000)) :
    toISOString milliseconds = wholeSecondsText (milliseconds / 1000) ++ '.' ::
      (paddedDigits 3 (milliseconds % 1000).toNat ++ ['Z']) := by
  have hcycles : cyclesPast (milliseconds / 86400000) = 0 := by
    rw [cyclesPast, if_pos]
    obtain ⟨-, hlast⟩ := h
    omega
  have hearly : milliseconds - 0 * 146097 * 86400000 = milliseconds := by omega
  rw [toISOString, hcycles, hearly, if_pos rfl, Prisma.toISOString, String.toList_ofList]
  simp only [wholeSecondsText, List.append_assoc, List.cons_append]

/-- The fields of a date fit their widths. -/
theorem fields_lt {day : Int} (hfirst : -719162 ≤ day) (hlast : day < 2932897) :
    yearOf day < 10 ^ 4 ∧ monthOf day < 10 ^ 2 ∧ dayOfMonth day < 10 ^ 2 := by
  have hstart : dayFromYear 1 = -719162 := by decide
  have hend : dayFromYear 10000 = 2932897 := by decide
  obtain ⟨-, hyear, -, -⟩ := Elasticsearch.dayFromYear_yearOf (hstart.trans_le hfirst)
    (hlast.trans_eq hend.symm)
  obtain ⟨hmonth, -, hday⟩ := Elasticsearch.day_mem_month (hstart.trans_le hfirst)
    (hlast.trans_eq hend.symm)
  have hlength : Gregorian.monthLength (yearOf day) (monthOf day) ≤ 31 := by
    unfold Gregorian.monthLength
    split
    · split <;> decide
    · split <;> decide
  refine ⟨by omega, ?_, ?_⟩
  · rw [monthOf]
    omega
  · rw [dayOfMonth]
    omega

/-! ## The order of instants -/

section Order

variable {a b : Int}

/-- A number that grows with another, where it differs. -/
theorem orderSign_of_le {x y : Nat} (hab : a ≤ b → x ≤ y) (hba : b ≤ a → y ≤ x) (hne : x ≠ y) :
    orderSign x y = orderSign a b := by
  apply orderSign_congr
  · omega
  · omega

theorem yearOf_mono (h : a ≤ b) : yearOf a ≤ yearOf b :=
  Nat.findGreatest_mono_left (fun _ hyear => hyear.trans h) 9999

theorem monthOf_mono (hyear : yearOf a = yearOf b) (h : a ≤ b) : monthOf a ≤ monthOf b := by
  rw [monthOf, monthOf, monthsBefore, monthsBefore, hyear]
  exact Nat.succ_le_succ (Nat.findGreatest_mono_left (fun _ hmonth => hmonth.trans h) 11)

/-- Dates stand in the order of their days. -/
theorem order_date (ha : -719162 ≤ a ∧ a < 2932897) (hb : -719162 ≤ b ∧ b < 2932897) (rest : Int) :
    (if yearOf a = yearOf b then
      if monthOf a = monthOf b then
        if dayOfMonth a = dayOfMonth b then rest else orderSign (dayOfMonth a) (dayOfMonth b)
      else orderSign (monthOf a) (monthOf b)
    else orderSign (yearOf a) (yearOf b)) = if a = b then rest else orderSign a b := by
  have hfirst : dayFromYear 1 = -719162 := by decide
  have hlast : dayFromYear 10000 = 2932897 := by decide
  by_cases hyear : yearOf a = yearOf b
  · rw [if_pos hyear]
    by_cases hmonth : monthOf a = monthOf b
    · obtain ⟨-, hstart, -⟩ := Elasticsearch.day_mem_month (hfirst.trans_le ha.1) (ha.2.trans_eq hlast.symm)
      obtain ⟨-, hstart', -⟩ := Elasticsearch.day_mem_month (hfirst.trans_le hb.1) (hb.2.trans_eq hlast.symm)
      rw [if_pos hmonth]
      have hdayA : (dayOfMonth a : Int) = a - dayOfDate (yearOf a) (monthOf a) 1 + 1 := by
        rw [dayOfMonth]
        omega
      have hdayB : (dayOfMonth b : Int) = b - dayOfDate (yearOf a) (monthOf a) 1 + 1 := by
        rw [dayOfMonth, hyear, hmonth]
        omega
      by_cases hab : a = b
      · rw [if_pos hab, if_pos (by omega)]
      · rw [if_neg hab, if_neg (by omega)]
        exact orderSign_of_le (by omega) (by omega) (by omega)
    · have hab : a ≠ b := fun h => hmonth (h ▸ rfl)
      rw [if_neg hmonth, if_neg hab]
      exact orderSign_of_le (monthOf_mono hyear) (monthOf_mono hyear.symm) hmonth
  · have hab : a ≠ b := fun h => hyear (h ▸ rfl)
    rw [if_neg hyear, if_neg hab]
    exact orderSign_of_le yearOf_mono yearOf_mono hyear

/-- Times of day stand in the order of their seconds. -/
theorem order_timeOfDay (s t : Nat) (rest : Int) :
    (if s / 3600 = t / 3600 then
      if s / 60 % 60 = t / 60 % 60 then
        if s % 60 = t % 60 then rest else orderSign (s % 60) (t % 60)
      else orderSign (s / 60 % 60) (t / 60 % 60)
    else orderSign (s / 3600) (t / 3600)) = if s = t then rest else orderSign s t := by
  have hcongr : ∀ {x y : Nat}, (x < y ↔ s < t) → x ≠ y → s ≠ t → orderSign x y = orderSign s t :=
    fun hlt hne hne' => orderSign_congr hlt (iff_of_false hne hne')
  by_cases hhour : s / 3600 = t / 3600
  · rw [if_pos hhour]
    by_cases hminute : s / 60 % 60 = t / 60 % 60
    · rw [if_pos hminute]
      by_cases hsecond : s % 60 = t % 60
      · rw [if_pos hsecond, if_pos (by omega)]
      · rw [if_neg hsecond, if_neg (by omega)]
        exact hcongr (by omega) hsecond (by omega)
    · rw [if_neg hminute, if_neg (by omega)]
      exact hcongr (by omega) hminute (by omega)
  · rw [if_neg hhour, if_neg (by omega)]
    exact hcongr (by omega) hhour (by omega)

end Order

/-- A field of digits decides before what follows it. -/
theorem compareCodePoints_field {width a b : Nat} (ha : a < 10 ^ width) (hb : b < 10 ^ width)
    (c : Char) (cs ds : List Char) :
    compareCodePoints (paddedDigits width a ++ c :: cs) (paddedDigits width b ++ c :: ds) =
      if a = b then compareCodePoints cs ds else orderSign a b := by
  have hlengths : (paddedDigits width a).length = (paddedDigits width b).length := by
    rw [length_paddedDigits, length_paddedDigits]
  rw [compareCodePoints_append hlengths]
  by_cases hab : a = b
  · rw [if_pos hab, if_pos (by rw [hab]), compareCodePoints, if_neg (by simp)]
  · have hne : paddedDigits width a ≠ paddedDigits width b := by
      intro h
      apply hab
      rw [← decimalValue_paddedDigits ha, h, decimalValue_paddedDigits hb]
    rw [if_neg hne, if_neg hab, compareCodePoints_digits (isDigit_paddedDigits width a)
      (isDigit_paddedDigits width b) hlengths, decimalValue_paddedDigits ha,
      decimalValue_paddedDigits hb]

/-- Texts of instants stand in the order of the instants. -/
theorem compareCodePoints_instantText {s t : Int} (hs : InYears s) (ht : InYears t) {n m : Nat}
    (hn : n < 10 ^ 9) (hm : m < 10 ^ 9) :
    compareCodePoints (instantText s n) (instantText t m) =
      orderSign (s * 1000000000 + n) (t * 1000000000 + m) := by
  obtain ⟨hfirst, hlast⟩ := hs
  obtain ⟨hfirst', hlast'⟩ := ht
  obtain ⟨hyear, hmonth, hday⟩ := @fields_lt (s / 86400) (by omega) (by omega)
  obtain ⟨hyear', hmonth', hday'⟩ := @fields_lt (t / 86400) (by omega) (by omega)
  simp only [instantText, wholeSecondsText, List.append_assoc, List.cons_append]
  rw [compareCodePoints_field hyear hyear', compareCodePoints_field hmonth hmonth',
    compareCodePoints_field hday hday', compareCodePoints_field (by omega) (by omega),
    compareCodePoints_field (by omega) (by omega), compareCodePoints_field (by omega) (by omega),
    compareCodePoints_field hn hm, compareCodePoints, order_timeOfDay,
    order_date (by omega) (by omega)]
  by_cases hdate : s / 86400 = t / 86400
  · rw [if_pos hdate]
    by_cases htime : (s % 86400).toNat = (t % 86400).toNat
    · rw [if_pos htime]
      by_cases hnanos : n = m
      · rw [if_pos hnanos, eq_comm, orderSign_eq_zero_iff]
        omega
      · rw [if_neg hnanos]
        apply orderSign_congr
        · omega
        · omega
    · rw [if_neg htime]
      apply orderSign_congr
      · omega
      · omega
  · rw [if_neg hdate]
    apply orderSign_congr
    · omega
    · omega

/-! ## What is written is read back -/

/-- The digits of a number are those of its two parts. -/
theorem paddedDigits_add (width count n : Nat) :
    paddedDigits (width + count) n =
      paddedDigits width (n / 10 ^ count) ++ paddedDigits count (n % 10 ^ count) := by
  induction count generalizing n with
  | zero => rw [Nat.add_zero, Nat.pow_zero, Nat.div_one, paddedDigits, List.append_nil]
  | succ count ih =>
      have hquotient : n / 10 / 10 ^ count = n / 10 ^ (count + 1) := by
        rw [Nat.div_div_eq_div_mul, Nat.pow_succ, Nat.mul_comm]
      have hparts : n % 10 ^ (count + 1) = n / 10 % 10 ^ count * 10 + n % 10 := by
        rw [Nat.pow_succ, Nat.mul_comm, Nat.mod_mul]
        omega
      have hinner : n % 10 ^ (count + 1) / 10 = n / 10 % 10 ^ count := by omega
      have hlast : n % 10 ^ (count + 1) % 10 = n % 10 := by omega
      rw [← Nat.add_assoc, paddedDigits, ih, paddedDigits, hquotient, hinner, hlast,
        List.append_assoc]

/-- The text of a second, and of a fraction, in UTC. -/
theorem parse_wholeSecondsText {seconds : Int} (h : InYears seconds) (fraction : Fraction) :
    parseRfc3339Timestamp (String.ofList (wholeSecondsText seconds ++ (fraction.text ++ ['Z']))) =
      some (seconds * 1000000000 + fraction.nanos) := by
  obtain ⟨t, hdenotes, -, htext⟩ := Elasticsearch.exists_instantText h.1 h.2 fraction
  have hnanos : fraction.nanos < 10 ^ 9 := by
    have hpow : 10 ^ fraction.count * 10 ^ (9 - fraction.count) = 10 ^ 9 := by
      rw [← Nat.pow_add, Nat.add_sub_cancel' fraction.count_le]
    rw [← hpow]
    exact Nat.mul_lt_mul_of_pos_right fraction.digits_lt (Nat.pow_pos (by decide))
  have hparsed : parseRfc3339Instant
      (String.ofList (wholeSecondsText seconds ++ (fraction.text ++ ['Z']))) =
        some (seconds * 1000000000 + fraction.nanos) := by
    refine parseRfc3339Instant_eq_some_iff.mpr ⟨t, ?_, hdenotes⟩
    rw [htext, String.toList_ofList]
    simp only [wholeSecondsText, List.append_assoc, List.cons_append]
  obtain ⟨hfirst, hlast⟩ := h
  rw [parseRfc3339Timestamp, hparsed]
  apply Option.filter_some_pos
  rw [inTimestampRange, Bool.and_eq_true, decide_eq_true_eq, decide_eq_true_eq,
    minTimestampNanos, maxTimestampNanos]
  omega

variable (h : InYears (nanoseconds / 1000000000))
include h

theorem toISOString_div : toISOString ((nanoseconds - nanoseconds % 1000000) / 1000000) =
      wholeSecondsText (nanoseconds / 1000000000) ++ '.' ::
        (paddedDigits 3 (nanoseconds / 1000000 % 1000).toNat ++ ['Z']) := by
  have hmilliseconds : (nanoseconds - nanoseconds % 1000000) / 1000000 = nanoseconds / 1000000 := by
    omega
  have hseconds : nanoseconds / 1000000 / 1000 = nanoseconds / 1000000000 := by omega
  rw [hmilliseconds, toISOString_eq (by rwa [hseconds]), hseconds]

/-- More digits than three are cut off the nine of the instant. -/
theorem formatRfc3339Nanoseconds_of_lt {digits : Nat} (hdigits : 3 < digits) (hle : digits ≤ 9) :
    formatRfc3339Nanoseconds nanoseconds digits =
      String.ofList (wholeSecondsText (nanoseconds / 1000000000) ++ '.' ::
        (paddedDigits digits ((nanoseconds % 1000000000).toNat / 10 ^ (9 - digits)) ++ ['Z'])) := by
  have hlength := length_wholeSecondsText (nanoseconds / 1000000000)
  have hnine : paddedDigits 3 (nanoseconds / 1000000 % 1000).toNat ++
      paddedDigits 6 (nanoseconds % 1000000).toNat =
        paddedDigits 9 (nanoseconds % 1000000000).toNat := by
    have hparts := paddedDigits_add 3 6 (nanoseconds % 1000000000).toNat
    have hmilliseconds : (nanoseconds % 1000000000).toNat / 10 ^ 6 =
        (nanoseconds / 1000000 % 1000).toNat := by omega
    have hremainder : (nanoseconds % 1000000000).toNat % 10 ^ 6 = (nanoseconds % 1000000).toNat := by
      omega
    rw [hmilliseconds, hremainder] at hparts
    exact hparts.symm
  have hdrop : ((wholeSecondsText (nanoseconds / 1000000000) ++ '.' ::
      (paddedDigits 3 (nanoseconds / 1000000 % 1000).toNat ++ ['Z'])).drop 20).take 3 =
        paddedDigits 3 (nanoseconds / 1000000 % 1000).toNat := by
    have hpoint : (wholeSecondsText (nanoseconds / 1000000000) ++ ['.']).length = 20 := by
      rw [List.length_append, hlength, List.length_singleton]
    rw [List.append_cons, List.drop_left' hpoint, List.take_left' (length_paddedDigits _ _)]
  rw [formatRfc3339Nanoseconds, if_neg (by omega), toISOString_div h, hdrop, hnine,
    List.take_left' hlength]
  have hsplit := paddedDigits_add digits (9 - digits) (nanoseconds % 1000000000).toNat
  rw [Nat.add_sub_cancel' hle] at hsplit
  rw [hsplit]
  dsimp only
  rw [List.take_left' (length_paddedDigits _ _)]

/-- With nine digits, the text of fixed width. -/
theorem formatRfc3339Nanoseconds_nine : formatRfc3339Nanoseconds nanoseconds 9 = String.ofList
      (instantText (nanoseconds / 1000000000) (nanoseconds % 1000000000).toNat) := by
  rw [formatRfc3339Nanoseconds_of_lt h (by decide) le_rfl, instantText, Nat.sub_self, Nat.pow_zero,
    Nat.div_one]

/-- With three digits at most, the milliseconds, or none where they are zero. -/
theorem formatRfc3339Nanoseconds_of_le {digits : Nat} (hdigits : digits ≤ 3) :
    formatRfc3339Nanoseconds nanoseconds digits =
      String.ofList (wholeSecondsText (nanoseconds / 1000000000) ++
        ((if (nanoseconds / 1000000 % 1000).toNat = 0 then []
          else '.' :: paddedDigits 3 (nanoseconds / 1000000 % 1000).toNat) ++ ['Z'])) := by
  have hlength := length_wholeSecondsText (nanoseconds / 1000000000)
  rw [formatRfc3339Nanoseconds, if_pos hdigits, toISOString_div h, dropZeroMilliseconds]
  generalize hmillis : (nanoseconds / 1000000 % 1000).toNat = milliseconds
  have hlt : milliseconds < 10 ^ 3 := by omega
  have htotal : (wholeSecondsText (nanoseconds / 1000000000) ++ '.' ::
      (paddedDigits 3 milliseconds ++ ['Z'])).length - 5 = 19 := by
    simp [hlength, length_paddedDigits]
  rw [htotal, List.drop_left' hlength, List.take_left' hlength]
  have hzero : '.' :: (paddedDigits 3 milliseconds ++ ['Z']) = ".000Z".toList ↔ milliseconds = 0 := by
    have htext : ".000Z".toList = '.' :: (paddedDigits 3 0 ++ ['Z']) := rfl
    rw [htext, List.cons_inj_right, List.append_left_inj]
    constructor
    · intro h
      rw [← decimalValue_paddedDigits hlt, h]
      rfl
    · intro h
      rw [h]
  by_cases hmilliseconds : milliseconds = 0
  · rw [if_pos (hzero.mpr hmilliseconds), if_pos hmilliseconds, List.nil_append]
  · rw [if_neg (mt hzero.mp hmilliseconds), if_neg hmilliseconds, List.cons_append]

/-- An instant with no more digits than are written is read back. -/
theorem parse_formatRfc3339Nanoseconds {digits : Nat} (hdigits : digits ≤ 9)
    (hgrid : (10 ^ (9 - digits) : Int) ∣ nanoseconds) :
    parseRfc3339Timestamp (formatRfc3339Nanoseconds nanoseconds digits) = some nanoseconds := by
  obtain hcoarse | hfine := Nat.lt_or_ge 3 digits
  · have hpow : (10 : Nat) ^ digits * 10 ^ (9 - digits) = 10 ^ 9 := by
      rw [← Nat.pow_add, Nat.add_sub_cancel' hdigits]
    have hlt : (nanoseconds % 1000000000).toNat / 10 ^ (9 - digits) < 10 ^ digits := by
      rw [Nat.div_lt_iff_lt_mul (Nat.pow_pos (by decide)), hpow]
      omega
    have hdvd : 10 ^ (9 - digits) ∣ (nanoseconds % 1000000000).toNat := by
      have hsecond : (10 ^ (9 - digits) : Int) ∣ 1000000000 := by
        have hnine : (10 ^ 9 : Int) = 1000000000 := by norm_num
        rw [← hnine]
        exact pow_dvd_pow 10 (Nat.sub_le 9 digits)
      rw [← Int.natCast_dvd_natCast, Int.toNat_of_nonneg (by omega), Int.emod_def]
      exact_mod_cast dvd_sub hgrid (Dvd.dvd.mul_right hsecond _)
    have htext := parse_wholeSecondsText h ⟨digits, _, hdigits, hlt⟩
    rw [Fraction.text, if_neg (by dsimp only; omega)] at htext
    rw [formatRfc3339Nanoseconds_of_lt h hcoarse hdigits]
    rw [List.cons_append] at htext
    rw [htext, Fraction.nanos, Nat.div_mul_cancel hdvd]
    exact congrArg some (by omega)
  · have hmillis : nanoseconds % 1000000 = 0 := by
      have hsix : (10 ^ 6 : Int) ∣ 10 ^ (9 - digits) := pow_dvd_pow 10 (by omega)
      exact Int.emod_eq_zero_of_dvd (hsix.trans hgrid)
    rw [formatRfc3339Nanoseconds_of_le h hfine]
    split
    next hzero =>
      have htext := parse_wholeSecondsText h ⟨0, 0, by decide, by decide⟩
      rw [Fraction.text, if_pos rfl] at htext
      rw [htext, Fraction.nanos]
      exact congrArg some (by dsimp only; omega)
    next hsome =>
      have htext := parse_wholeSecondsText h
        ⟨3, (nanoseconds / 1000000 % 1000).toNat, by decide, by omega⟩
      rw [Fraction.text, if_neg (by dsimp only; omega)] at htext
      rw [htext, Fraction.nanos]
      exact congrArg some (by dsimp only; omega)

end QueryPlanAdapters.Drizzle
