import QueryPlanAdapters.SpringData.Mapping
import QueryPlanAdapters.Cel.DurationLiterals
import Mathlib.Algebra.Order.Floor.Ring
import Mathlib.Data.List.Find
import Mathlib.Data.Rat.Floor

/-!
# Spring Data: the argument of `duration()`

The adapter adds up the terms of a duration in exact decimal arithmetic and cuts the sum to
whole nanoseconds, within about 10000 years. CEL reads each term's fraction in floating
point, cuts every term, and accepts int64 nanoseconds.
-/

namespace QueryPlanAdapters

/-! ## What a text spells -/

namespace DurationTerm

/-- The term has digits. -/
def hasDigits (t : DurationTerm) : Bool :=
  !(t.whole.isEmpty && t.fraction.isEmpty)

/-- The exact value of a term in a unit. -/
def exact (t : DurationTerm) (unit : Nat) : ℚ :=
  (decimalValue t.whole + decimalValue t.fraction / 10 ^ t.fraction.length) * unit

/-- The exact nanoseconds of a term: it is a number of a known unit. -/
def exactNanos (t : DurationTerm) : Option ℚ :=
  if t.hasDigits then (durationUnits.lookup t.unit).map t.exact else none

end DurationTerm

/-- The exact sum of the terms, when every one of them stands for nanoseconds. -/
def exactSum : List DurationTerm → Option ℚ
  | [] => some 0
  | t :: ts => do
      let value ← t.exactNanos
      let rest ← exactSum ts
      return value + rest

def signedNanos (negative : Bool) (nanos : Int) : Int :=
  if negative then -nanos else nanos

/-- The exact value of a duration's text without its sign, in decimal arithmetic. -/
def exactMagnitude (text : String) : Option ℚ :=
  let body := (takeSign text.toList).2
  if body = ['0'] then some 0
  else if body = [] then none
  else exactSum (termsFrom body.length body)

/-- That value cut to whole nanoseconds, with the sign. -/
def spelledNanos (text : String) : Option Int :=
  (exactMagnitude text).map fun sum => signedNanos (takeSign text.toList).1 ⌊sum⌋

namespace SpringData.CelDuration

/-! ## The reader -/

/-- `NANOS_PER_UNIT`, in the order of the alternatives of `TERM`. -/
def nanosPerUnit : List (String × Nat) :=
  [("ns", 1), ("us", 1000), ("µs", 1000), ("μs", 1000), ("ms", 1000000), ("s", 1000000000),
    ("m", 60000000000), ("h", 3600000000000)]

/-- CEL's duration range, about 10000 years either way. -/
def maxSeconds : Int := 315576000000

/-- `TERM` at the front of a text: the nanoseconds of the number in its unit, and the text
behind them. -/
def matchTerm (cs : List Char) : Option (ℚ × List Char) :=
  let whole := cs.takeWhile isDigit
  let (fraction, rest) := afterPoint (cs.dropWhile isDigit)
  if whole.isEmpty && fraction.isEmpty then none
  else (nanosPerUnit.find? fun unit => unit.1.toList.isPrefixOf rest).map fun unit =>
    ((decimalValue whole + decimalValue fraction / 10 ^ fraction.length) * unit.2,
      rest.drop unit.1.length)

/-- The loop: the sum of the terms up to the first text that is none, and that text. -/
def sumMatches : (rounds : Nat) → (nanos : ℚ) → List Char → ℚ × List Char
  | 0, nanos, cs => (nanos, cs)
  | rounds + 1, nanos, cs =>
      match matchTerm cs with
      | some (term, rest) => sumMatches rounds (nanos + term) rest
      | none => (nanos, cs)

/-- Each match takes a character, so as many rounds as the text has characters are enough. -/
def parse (text : String) : Except Refusal Int :=
  let (negative, body) := takeSign text.toList
  if body = ['0'] then .ok 0
  else
    let (nanos, rest) := sumMatches body.length 0 body
    if body = [] || rest ≠ [] then
      .error (.malformed "duration() constant could not be parsed as a duration")
    else
      -- Go truncates a fraction of a nanosecond.
      let whole := ⌊nanos⌋
      if maxSeconds < whole / 1000000000 then
        .error (.malformed "duration() constant is outside CEL's duration range")
      else .ok (signedNanos negative whole)

/-! ## What the reader reads -/

/-- Characters of a kind stand in front of a text when they stand in front of the text's first
run of the kind. -/
theorem isPrefixOf_takeWhile {p : Char → Bool} {front : List Char} (h : front.all p = true)
    (cs : List Char) : front.isPrefixOf (cs.takeWhile p) = front.isPrefixOf cs := by
  induction front generalizing cs with
  | nil => rfl
  | cons c front ih =>
      obtain ⟨hc, hfront⟩ := Bool.and_eq_true_iff.mp ((List.all_cons ..).symm.trans h)
      cases cs with
      | nil => rfl
      | cons d cs =>
          cases hd : p d with
          | true =>
              rw [List.takeWhile_cons_of_pos hd, List.isPrefixOf_cons_cons,
                List.isPrefixOf_cons_cons, ih hfront]
          | false =>
              have hne : (c == d) = false := by
                apply beq_false_of_ne
                rintro rfl
                exact absurd hc (by simp [hd])
              rw [List.takeWhile_cons_of_neg (by simp [hd]), List.isPrefixOf_cons_cons, hne]
              rfl

theorem unitChars : ∀ unit ∈ nanosPerUnit, unit.1.toList.all isUnitChar = true := by decide

theorem lookup_unit : ∀ unit ∈ nanosPerUnit, durationUnits.lookup unit.1 = some unit.2 := by
  decide

/-- No unit stands in front of another one that `TERM` tries later. -/
theorem find_unit : ∀ unit ∈ nanosPerUnit,
    nanosPerUnit.find? (fun other => other.1.toList.isPrefixOf unit.1.toList) = some unit := by
  decide

/-- The unit that `TERM` takes is decided by the text's first run of unit characters. -/
theorem find_takeWhile (cs : List Char) :
    (nanosPerUnit.find? fun unit => unit.1.toList.isPrefixOf cs) =
      nanosPerUnit.find? fun unit => unit.1.toList.isPrefixOf (cs.takeWhile isUnitChar) := by
  apply List.find?_congr
  intro unit hunit
  exact (isPrefixOf_takeWhile (unitChars unit hunit) cs).symm

theorem mem_of_lookup {text : String} {unit : Nat} (h : durationUnits.lookup text = some unit) :
    (text, unit) ∈ nanosPerUnit := by
  obtain ⟨before, after, heq, -⟩ := List.lookup_eq_some_iff.mp h
  rw [show nanosPerUnit = durationUnits from rfl, heq]
  exact List.mem_append_right before List.mem_cons_self

/-- What `matchTerm` takes of the text behind the digits. -/
theorem matchTerm_eq (cs : List Char) :
    matchTerm cs = if (nextTerm cs).1.hasDigits then
      (nanosPerUnit.find? fun unit => unit.1.toList.isPrefixOf (afterPoint (cs.dropWhile isDigit)).2).map
        fun unit => ((nextTerm cs).1.exact unit.2,
          (afterPoint (cs.dropWhile isDigit)).2.drop unit.1.length)
      else none := by
  have hmatch : matchTerm cs =
      if (cs.takeWhile isDigit).isEmpty && (afterPoint (cs.dropWhile isDigit)).1.isEmpty then none
      else (nanosPerUnit.find? fun unit =>
          unit.1.toList.isPrefixOf (afterPoint (cs.dropWhile isDigit)).2).map
        fun unit => ((nextTerm cs).1.exact unit.2,
          (afterPoint (cs.dropWhile isDigit)).2.drop unit.1.length) := rfl
  have hdigits : (nextTerm cs).1.hasDigits =
      !((cs.takeWhile isDigit).isEmpty && (afterPoint (cs.dropWhile isDigit)).1.isEmpty) := rfl
  rw [hmatch, hdigits]
  cases ((cs.takeWhile isDigit).isEmpty && (afterPoint (cs.dropWhile isDigit)).1.isEmpty) with
  | true => rfl
  | false => rfl

theorem unit_nextTerm (cs : List Char) : (nextTerm cs).1.unit.toList =
    (afterPoint (cs.dropWhile isDigit)).2.takeWhile isUnitChar :=
  String.toList_ofList

theorem unit_append_rest (cs : List Char) : (afterPoint (cs.dropWhile isDigit)).2 =
    (nextTerm cs).1.unit.toList ++ (nextTerm cs).2 := by
  rw [unit_nextTerm]
  exact List.takeWhile_append_dropWhile.symm

/-- A number of a known unit is one match. -/
theorem matchTerm_of_exactNanos {cs : List Char} {value : ℚ}
    (h : (nextTerm cs).1.exactNanos = some value) :
    matchTerm cs = some (value, (nextTerm cs).2) := by
  rw [DurationTerm.exactNanos] at h
  split at h
  next hdigits =>
    obtain ⟨unit, hlookup, rfl⟩ := Option.map_eq_some_iff.mp h
    have hfind := find_unit _ (mem_of_lookup hlookup)
    rw [unit_nextTerm, ← find_takeWhile] at hfind
    rw [matchTerm_eq, if_pos hdigits, hfind, Option.map_some]
    dsimp only
    rw [unit_append_rest, ← String.length_toList, List.drop_left]
  next => cases h

/-- No number starts with a character of a unit. -/
theorem matchTerm_unitChar {c : Char} (hc : isUnitChar c = true) (cs : List Char) :
    matchTerm (c :: cs) = none := by
  rw [isUnitChar, Bool.not_eq_true', Bool.or_eq_false_iff, decide_eq_false_iff_not] at hc
  have hdigits : (nextTerm (c :: cs)).1.hasDigits = false := by
    rw [DurationTerm.hasDigits, nextTerm, List.takeWhile_cons_of_neg (by simp [hc.2]),
      List.dropWhile_cons_of_neg (by simp [hc.2]), afterPoint, if_neg (by simpa using hc.1)]
    rfl
  rw [matchTerm_eq, hdigits]
  rfl

/-- Behind the match of anything else there is more text, and no further match. -/
theorem matchTerm_stuck {cs rest : List Char} {value : ℚ}
    (h : (nextTerm cs).1.exactNanos = none) (hmatch : matchTerm cs = some (value, rest)) :
    rest ≠ [] ∧ matchTerm rest = none := by
  rw [matchTerm_eq] at hmatch
  split at hmatch
  next hdigits =>
    obtain ⟨unit, hfind, hpair⟩ := Option.map_eq_some_iff.mp hmatch
    obtain ⟨-, rfl⟩ := Prod.mk.inj hpair
    rw [DurationTerm.exactNanos, if_pos hdigits, Option.map_eq_none_iff] at h
    rw [find_takeWhile] at hfind
    -- The unit stands in front of the run of unit characters, and is not all of it.
    have hfront := List.find?_some hfind
    obtain ⟨more, hmore⟩ := List.isPrefixOf_iff_prefix.mp hfront
    rw [← unit_nextTerm] at hmore
    rw [unit_append_rest, ← hmore, List.append_assoc, ← String.length_toList, List.drop_left]
    cases more with
    | nil =>
        have hunit : (nextTerm cs).1.unit = unit.1 :=
          String.toList_inj.mp (hmore.symm.trans (List.append_nil _))
        rw [hunit, lookup_unit unit (List.mem_of_find?_eq_some hfind)] at h
        cases h
    | cons c more =>
        have hc : c ∈ (nextTerm cs).1.unit.toList := by
          rw [← hmore]
          exact List.mem_append_right _ List.mem_cons_self
        rw [unit_nextTerm] at hc
        exact ⟨List.cons_ne_nil _ _, matchTerm_unitChar (List.mem_takeWhile_imp hc) _⟩
  next => cases hmatch

theorem sumMatches_of_none {cs : List Char} (h : matchTerm cs = none) (rounds : Nat) (nanos : ℚ) :
    sumMatches rounds nanos cs = (nanos, cs) := by
  cases rounds with
  | zero => rfl
  | succ rounds => rw [sumMatches, h]

/-- The loop gets through a text of numbers with known units, and through no other. -/
theorem sumMatches_eq {rounds : Nat} {cs : List Char} (h : cs.length ≤ rounds) (nanos : ℚ) :
    (∀ sum, exactSum (termsFrom rounds cs) = some sum →
      sumMatches rounds nanos cs = (nanos + sum, [])) ∧
    (exactSum (termsFrom rounds cs) = none → (sumMatches rounds nanos cs).2 ≠ []) := by
  induction rounds generalizing nanos cs with
  | zero =>
      obtain rfl := List.length_eq_zero_iff.mp (Nat.le_zero.mp h)
      constructor
      · intro sum hsum
        obtain rfl := Option.some_inj.mp hsum
        rw [sumMatches, add_zero]
      · intro hnone
        cases hnone
  | succ rounds ih =>
      cases cs with
      | nil =>
          constructor
          · intro sum hsum
            obtain rfl := Option.some_inj.mp hsum
            rw [sumMatches_of_none rfl, add_zero]
          · intro hnone
            cases hnone
      | cons c cs =>
          have hlt := length_nextTerm_lt c cs
          rw [termsFrom, exactSum]
          cases hvalue : (nextTerm (c :: cs)).1.exactNanos with
          | none =>
              refine ⟨fun sum hsum => (by cases hsum), fun _ => ?_⟩
              cases hmatch : matchTerm (c :: cs) with
              | none =>
                  rw [sumMatches_of_none hmatch]
                  exact List.cons_ne_nil c cs
              | some found =>
                  obtain ⟨hrest, hstuck⟩ := matchTerm_stuck hvalue hmatch
                  rw [sumMatches, hmatch]
                  dsimp only
                  rw [sumMatches_of_none hstuck]
                  exact hrest
          | some value =>
              have hfuel : (nextTerm (c :: cs)).2.length ≤ rounds := by omega
              obtain ⟨hsome, hnone⟩ := ih hfuel (nanos + value)
              rw [sumMatches, matchTerm_of_exactNanos hvalue]
              cases hsum : exactSum (termsFrom rounds (nextTerm (c :: cs)).2) with
              | none => exact ⟨fun sum h => (by cases h), fun _ => hnone hsum⟩
              | some rest =>
                  refine ⟨fun sum h => ?_, fun h => (by cases h)⟩
                  obtain rfl := Option.some_inj.mp h
                  rw [← add_assoc]
                  exact hsome rest hsum

theorem exactNanos_nonneg {t : DurationTerm} {value : ℚ} (h : t.exactNanos = some value) :
    0 ≤ value := by
  rw [DurationTerm.exactNanos] at h
  split at h
  next =>
    obtain ⟨unit, -, rfl⟩ := Option.map_eq_some_iff.mp h
    rw [DurationTerm.exact]
    positivity
  next => cases h

theorem exactSum_nonneg {ts : List DurationTerm} {sum : ℚ} (h : exactSum ts = some sum) :
    0 ≤ sum := by
  induction ts generalizing sum with
  | nil =>
      obtain rfl := Option.some_inj.mp h
      exact le_rfl
  | cons t ts ih =>
      rw [exactSum] at h
      obtain ⟨value, hvalue, h⟩ := Option.bind_eq_some_iff.mp h
      obtain ⟨rest, hrest, h⟩ := Option.bind_eq_some_iff.mp h
      obtain rfl := Option.some_inj.mp h
      exact add_nonneg (exactNanos_nonneg hvalue) (ih hrest)

theorem exactMagnitude_nonneg {text : String} {sum : ℚ} (h : exactMagnitude text = some sum) :
    0 ≤ sum := by
  rw [exactMagnitude] at h
  split at h
  next =>
    obtain rfl := Option.some_inj.mp h
    exact le_rfl
  next =>
    split at h
    next => cases h
    next => exact exactSum_nonneg h

theorem abs_signedNanos {negative : Bool} {magnitude : Int} (h : 0 ≤ magnitude) :
    |signedNanos negative magnitude| = magnitude := by
  cases negative with
  | true => exact (abs_neg magnitude).trans (abs_of_nonneg h)
  | false => exact abs_of_nonneg h

theorem signedNanos_inj {negative : Bool} {a b : Int} :
    signedNanos negative a = signedNanos negative b ↔ a = b := by
  cases negative with
  | true => exact neg_inj
  | false => exact Iff.rfl

/-- The reader takes the exact value, cut, up to the last of CEL's seconds. -/
theorem parse_eq_ok_iff {text : String} {nanos : Int} :
    parse text = .ok nanos ↔
      ∃ sum, exactMagnitude text = some sum ∧ ⌊sum⌋ / 1000000000 ≤ maxSeconds ∧
        nanos = signedNanos (takeSign text.toList).1 ⌊sum⌋ := by
  rw [parse, exactMagnitude]
  dsimp only
  by_cases hzero : (takeSign text.toList).2 = ['0']
  · rw [if_pos hzero, if_pos hzero, Except.ok.injEq]
    constructor
    · rintro rfl
      exact ⟨0, rfl, by decide, by cases (takeSign text.toList).1 <;> simp [signedNanos]⟩
    · rintro ⟨sum, hsum, -, rfl⟩
      obtain rfl := Option.some_inj.mp hsum
      cases (takeSign text.toList).1 <;> simp [signedNanos]
  · rw [if_neg hzero, if_neg hzero]
    by_cases hempty : (takeSign text.toList).2 = []
    · rw [if_pos hempty, hempty]
      refine iff_of_false ?_ ?_
      · rintro ⟨⟩
      · rintro ⟨sum, ⟨⟩, -⟩
    · rw [if_neg hempty]
      obtain ⟨hsome, hnone⟩ := sumMatches_eq (le_refl (takeSign text.toList).2.length) 0
      cases hsum : exactSum (termsFrom (takeSign text.toList).2.length (takeSign text.toList).2) with
      | none =>
          rw [if_pos (by simp [hnone hsum])]
          refine iff_of_false ?_ ?_
          · rintro ⟨⟩
          · rintro ⟨sum, ⟨⟩, -⟩
      | some sum =>
          rw [hsome sum hsum, zero_add, if_neg (by simp [hempty])]
          by_cases hlarge : maxSeconds < ⌊sum⌋ / 1000000000
          · rw [if_pos hlarge]
            refine iff_of_false ?_ ?_
            · rintro ⟨⟩
            · rintro ⟨other, hother, hle, -⟩
              obtain rfl := Option.some_inj.mp hother
              omega
          · rw [if_neg hlarge, Except.ok.injEq]
            constructor
            · rintro rfl
              exact ⟨sum, rfl, by omega, rfl⟩
            · rintro ⟨other, hother, -, rfl⟩
              obtain rfl := Option.some_inj.mp hother
              rfl

theorem parse_eq_ok_iff_spelled {text : String} {nanos : Int} :
    parse text = .ok nanos ↔
      spelledNanos text = some nanos ∧ |nanos| / 1000000000 ≤ maxSeconds := by
  rw [parse_eq_ok_iff, spelledNanos, Option.map_eq_some_iff]
  constructor
  · rintro ⟨sum, hsum, hle, rfl⟩
    refine ⟨⟨sum, hsum, rfl⟩, ?_⟩
    rwa [abs_signedNanos (Int.floor_nonneg.mpr (exactMagnitude_nonneg hsum))]
  · rintro ⟨⟨sum, hsum, rfl⟩, hle⟩
    rw [abs_signedNanos (Int.floor_nonneg.mpr (exactMagnitude_nonneg hsum))] at hle
    exact ⟨sum, hsum, hle, rfl⟩

/-! ## Beside CEL's reader -/

section Agreement

variable [Double.Rounding]

theorem goSumTerms_le {ts : List DurationTerm} {d n : Nat} (hd : d ≤ 2 ^ 63)
    (h : GoTime.sumTerms d ts = some n) : n ≤ 2 ^ 63 := by
  induction ts generalizing d with
  | nil =>
      obtain rfl := Option.some_inj.mp h
      exact hd
  | cons t ts ih =>
      rw [GoTime.sumTerms] at h
      obtain ⟨value, -, h⟩ := Option.bind_eq_some_iff.mp h
      split at h
      next => cases h
      next hle => exact ih (Nat.not_lt.mp hle) h

/-- What CEL adds up is a number of a known unit. -/
theorem exactSum_isSome_of_exactTotal {ts : List DurationTerm} {total : Nat}
    (h : exactTotal ts = some total) : ∃ sum, exactSum ts = some sum := by
  induction ts generalizing total with
  | nil => exact ⟨0, rfl⟩
  | cons t ts ih =>
      obtain ⟨value, rest, hvalue, hrest, -⟩ := exactTotal_cons_eq_some_iff.mp h
      obtain ⟨sum, hsum⟩ := ih hrest
      rw [DurationTerm.nanos] at hvalue
      split at hvalue
      next hnumber =>
        obtain ⟨unit, hlookup, -⟩ := Option.bind_eq_some_iff.mp hvalue
        obtain ⟨-, hdigits⟩ := Bool.and_eq_true_iff.mp hnumber
        have hexact : t.exactNanos = some (t.exact unit) := by
          rw [DurationTerm.exactNanos, DurationTerm.hasDigits, if_pos hdigits, hlookup]
          rfl
        refine ⟨t.exact unit + sum, ?_⟩
        rw [exactSum, hexact, hsum]
        rfl
      next => cases hvalue

/-- CEL reads texts of numbers with known units only, and nanoseconds of their sign that fit an
int64. -/
theorem goParseDuration_cases {text : String} {n : Int} (h : GoTime.parseDuration text = some n) :
    ∃ (sum : ℚ) (magnitude : Nat), exactMagnitude text = some sum ∧ magnitude ≤ 2 ^ 63 ∧
      n = signedNanos (takeSign text.toList).1 magnitude ∧ int64Min ≤ n ∧ n ≤ int64Max := by
  rw [GoTime.parseDuration] at h
  rw [exactMagnitude]
  dsimp only at h ⊢
  split at h
  next hzero =>
    obtain rfl := Option.some_inj.mp h
    refine ⟨0, 0, if_pos hzero, Nat.zero_le _, ?_, by decide, by decide⟩
    cases (takeSign text.toList).1 <;> rfl
  next hzero =>
    split at h
    next => cases h
    next hempty =>
      rw [if_neg hzero, if_neg hempty]
      obtain ⟨d, hd, h⟩ := Option.bind_eq_some_iff.mp h
      rw [GoTime.parseParts_eq le_rfl] at hd
      obtain ⟨total, htotal⟩ := Option.isSome_iff_exists.mp (GoTime.exactTotal_isSome_of_sumTerms hd)
      obtain ⟨sum, hsum⟩ := exactSum_isSome_of_exactTotal htotal
      have hle := goSumTerms_le (Nat.zero_le _) hd
      refine ⟨sum, d, hsum, hle, ?_⟩
      cases hnegative : (takeSign text.toList).1 with
      | true =>
          rw [hnegative, if_pos rfl] at h
          rw [← Option.some_inj.mp h, SecondsText.int64_neg_of_le hle]
          refine ⟨rfl, ?_⟩
          unfold int64Min int64Max
          omega
      | false =>
          rw [hnegative, if_neg Bool.false_ne_true] at h
          split at h
          next => cases h
          next hfits =>
            rw [← Option.some_inj.mp h, SecondsText.int64_of_le (Nat.not_lt.mp hfits)]
            refine ⟨rfl, ?_⟩
            unfold int64Min int64Max
            omega

/-- Where CEL reads a number of nanoseconds, the exact value of the text is that number and
less than one more: what CEL cuts off the terms comes to less than a nanosecond. Where CEL
refuses the value, it is past the last of CEL's seconds. -/
structure ReadAlike (text : String) : Prop where
  accepted : ∀ sum n, exactMagnitude text = some sum → GoTime.parseDuration text = some n →
    (|n| : ℚ) ≤ sum ∧ sum < |n| + 1
  refused : ∀ sum, exactMagnitude text = some sum → GoTime.parseDuration text = none →
    ((maxSeconds + 1) * 1000000000 : ℚ) ≤ sum

/-- The texts that are read as CEL reads them. -/
theorem parse_iff_goParseDuration {text : String} :
    (∀ nanos, parse text = .ok nanos ↔ GoTime.parseDuration text = some nanos) ↔
      ReadAlike text := by
  cases hgo : GoTime.parseDuration text with
  | some n =>
      obtain ⟨sum, magnitude, hsum, hle, rfl, -⟩ := goParseDuration_cases hgo
      have hfloor : (⌊sum⌋ = (magnitude : Int)) ↔
          (|signedNanos (takeSign text.toList).1 magnitude| : ℚ) ≤ sum ∧
            sum < |signedNanos (takeSign text.toList).1 magnitude| + 1 := by
        rw [Int.floor_eq_iff, ← Int.cast_abs, abs_signedNanos (Int.natCast_nonneg magnitude)]
      constructor
      · intro h
        refine ⟨fun other m hother hm => ?_, fun other _ hm => ?_⟩
        · obtain rfl := Option.some_inj.mp (hsum.symm.trans hother)
          obtain rfl := Option.some_inj.mp (hgo.symm.trans hm)
          obtain ⟨found, hfound, -, hsame⟩ := parse_eq_ok_iff.mp ((h _).mpr rfl)
          obtain rfl := Option.some_inj.mp (hsum.symm.trans hfound)
          exact hfloor.mp (signedNanos_inj.mp hsame).symm
        · rw [hgo] at hm
          cases hm
      · intro h nanos
        have hexact := hfloor.mpr (h.accepted sum _ hsum hgo)
        rw [parse_eq_ok_iff, Option.some_inj, hsum]
        constructor
        · rintro ⟨found, hfound, -, rfl⟩
          obtain rfl := Option.some_inj.mp hfound
          rw [hexact]
        · rintro rfl
          refine ⟨sum, rfl, ?_, by rw [hexact]⟩
          rw [hexact, maxSeconds]
          omega
  | none =>
      have hlimit : ∀ sum : ℚ, maxSeconds < ⌊sum⌋ / 1000000000 ↔
          ((maxSeconds + 1) * 1000000000 : ℚ) ≤ sum := by
        intro sum
        have hcast : ((maxSeconds + 1) * 1000000000 : ℚ) =
            (((maxSeconds + 1) * 1000000000 : Int) : ℚ) := by push_cast; rfl
        rw [hcast, ← Int.le_floor]
        omega
      constructor
      · intro h
        refine ⟨fun sum n _ hn => ?_, fun sum hsum _ => ?_⟩
        · rw [hgo] at hn
          cases hn
        · rw [← hlimit]
          by_contra hsmall
          have hread := (h _).mp (parse_eq_ok_iff.mpr ⟨sum, hsum, not_lt.mp hsmall, rfl⟩)
          cases hread
      · intro h nanos
        refine iff_of_false ?_ ?_
        · intro hread
          obtain ⟨sum, hsum, hle, -⟩ := parse_eq_ok_iff.mp hread
          exact absurd ((hlimit sum).mpr (h.refused sum hsum hgo)) (not_lt.mpr hle)
        · rintro ⟨⟩

end Agreement

/-- Decimal seconds are one term, and have no fraction of a nanosecond. -/
theorem exactMagnitude_seconds (d : SecondsText) :
    exactMagnitude (String.ofList d.text) = some (d.magnitude : ℚ) := by
  have hlast : d.unsigned.getLast? = some 's' := by
    simp [SecondsText.unsigned]
  have hzero : d.unsigned ≠ ['0'] := by
    intro h
    rw [h] at hlast
    cases hlast
  have hempty : d.unsigned ≠ [] := by
    intro h
    rw [h] at hlast
    cases hlast
  have hdigits : (DurationTerm.mk d.seconds (paddedDigits d.fraction.count d.fraction.digits)
      "s").hasDigits = true := by
    rw [DurationTerm.hasDigits, List.isEmpty_eq_false_iff.mpr d.seconds_ne]
    rfl
  have hunit : durationUnits.lookup "s" = some 1000000000 := by decide
  have hscale : (10 : ℚ) ^ d.fraction.count * 10 ^ (9 - d.fraction.count) = 1000000000 := by
    rw [← pow_add, Nat.add_sub_cancel' d.fraction.count_le]
    norm_num
  have hexact : (DurationTerm.mk d.seconds (paddedDigits d.fraction.count d.fraction.digits)
      "s").exact 1000000000 = d.magnitude := by
    rw [DurationTerm.exact, length_paddedDigits, decimalValue_paddedDigits d.fraction.digits_lt,
      SecondsText.magnitude, Fraction.nanos]
    have hpos : (10 : ℚ) ^ d.fraction.count ≠ 0 := by positivity
    push_cast
    rw [← hscale]
    field_simp
  rw [exactMagnitude, String.toList_ofList, SecondsText.takeSign_text]
  dsimp only
  rw [if_neg hzero, if_neg hempty, SecondsText.termsFrom_unsigned, exactSum,
    DurationTerm.exactNanos, if_pos hdigits, hunit, Option.map_some, hexact]
  exact congrArg some (add_zero _)

end SpringData.CelDuration

end QueryPlanAdapters
