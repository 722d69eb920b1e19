import QueryPlanAdapters.Cel.Temporal

/-!
# The numbers of a duration

A duration's text is a sign and a sequence of terms: decimal digits, an optional
point with more digits, and a unit. The parsers read it term by term. Here a text
is cut into its terms first, and a parser is a sum over them that stops at the
first term it does not accept.
-/

namespace QueryPlanAdapters

/-- A number and the unit text behind it. -/
structure DurationTerm where
  whole : List Char
  fraction : List Char
  unit : String

/-- A character of a unit: neither a point nor a digit. -/
def isUnitChar (c : Char) : Bool :=
  !(c = '.' || isDigit c)

/-- The digits after the point, when there is one, and what follows them. -/
def afterPoint (cs : List Char) : List Char × List Char :=
  if cs.head? = some '.' then (cs.tail.takeWhile isDigit, cs.tail.dropWhile isDigit) else ([], cs)

/-- The term at the front of a text, and the text behind it. -/
def nextTerm (cs : List Char) : DurationTerm × List Char :=
  let (fraction, rest) := afterPoint (cs.dropWhile isDigit)
  (⟨cs.takeWhile isDigit, fraction, String.ofList (rest.takeWhile isUnitChar)⟩,
    rest.dropWhile isUnitChar)

/-- The terms of a text. Every term takes a character, so as many rounds as the
text has characters are enough. -/
def termsFrom : (rounds : Nat) → List Char → List DurationTerm
  | _, [] => []
  | 0, _ :: _ => []
  | rounds + 1, c :: cs => (nextTerm (c :: cs)).1 :: termsFrom rounds (nextTerm (c :: cs)).2

theorem length_dropWhile_le {α : Type} (p : α → Bool) (as : List α) :
    (as.dropWhile p).length ≤ as.length :=
  (List.dropWhile_sublist p).length_le

theorem length_dropWhile_lt {α : Type} {p : α → Bool} {a : α} (h : p a = true) (as : List α) :
    ((a :: as).dropWhile p).length < (a :: as).length := by
  rw [List.dropWhile_cons_of_pos h, List.length_cons]
  exact Nat.lt_succ_of_le (length_dropWhile_le p as)

theorem length_afterPoint_le (cs : List Char) : (afterPoint cs).2.length ≤ cs.length := by
  rw [afterPoint]
  split
  · exact (length_dropWhile_le isDigit cs.tail).trans (by simp)
  · exact le_rfl

/-- A digit, a point or a unit character: each is taken by the part of the term it
belongs to. -/
theorem length_nextTerm_lt (c : Char) (cs : List Char) :
    (nextTerm (c :: cs)).2.length < (c :: cs).length := by
  have hunit : ∀ rest : List Char, (rest.dropWhile isUnitChar).length ≤ rest.length :=
    length_dropWhile_le isUnitChar
  rw [nextTerm]
  by_cases hdigit : isDigit c = true
  · exact ((hunit _).trans (length_afterPoint_le _)).trans_lt (length_dropWhile_lt hdigit cs)
  · rw [List.dropWhile_cons_of_neg hdigit]
    by_cases hpoint : c = '.'
    · refine (hunit _).trans_lt ?_
      rw [afterPoint, hpoint, List.head?_cons, if_pos rfl, List.tail_cons]
      exact Nat.lt_succ_of_le (length_dropWhile_le isDigit cs)
    · rw [afterPoint, if_neg (by simpa using hpoint)]
      exact length_dropWhile_lt (by simp [isUnitChar, hpoint, hdigit]) cs

theorem foldl_digits_le (cs : List Char) (n : Nat) :
    n ≤ cs.foldl (fun n c => n * 10 + digitValue c) n := by
  induction cs generalizing n with
  | nil => exact le_rfl
  | cons c cs ih =>
      rw [List.foldl_cons]
      exact le_trans (by omega) (ih _)

/-- `leadingInt` reads the digits at the front, and fails exactly past `2 ^ 63`. -/
theorem leadingInt_eq (cs : List Char) (n : Nat) (hn : n ≤ 2 ^ 63) :
    leadingInt n cs =
      let value := (cs.takeWhile isDigit).foldl (fun n c => n * 10 + digitValue c) n
      if 2 ^ 63 < value then none else some (value, cs.dropWhile isDigit) := by
  induction cs generalizing n with
  | nil =>
      rw [leadingInt]
      exact (if_neg (Nat.not_lt.mpr hn)).symm
  | cons c cs ih =>
      rw [leadingInt]
      by_cases hdigit : isDigit c = true
      · rw [if_pos hdigit, List.takeWhile_cons_of_pos hdigit, List.dropWhile_cons_of_pos hdigit,
          List.foldl_cons]
        have hle := foldl_digits_le (cs.takeWhile isDigit) (n * 10 + digitValue c)
        by_cases hwhole : 2 ^ 63 / 10 < n
        · rw [if_pos hwhole]
          exact (if_pos (by omega)).symm
        · rw [if_neg hwhole]
          by_cases hnext : 2 ^ 63 < n * 10 + digitValue c
          · rw [if_pos hnext]
            exact (if_pos (by omega)).symm
          · rw [if_neg hnext]
            exact ih _ (by omega)
      · rw [if_neg hdigit, List.takeWhile_cons_of_neg hdigit, List.dropWhile_cons_of_neg hdigit]
        exact (if_neg (by simpa using hn)).symm

namespace DurationTerm

/-- The term has digits, and those before the point spell at most `2 ^ 63`. -/
def isNumber (t : DurationTerm) : Bool :=
  decimalValue t.whole ≤ 2 ^ 63 && !(t.whole.isEmpty && t.fraction.isEmpty)

section Value

variable [Double.Rounding]

/-- The nanoseconds that the digits after the point add. -/
def extraNanos (t : DurationTerm) (unit : Nat) : Nat :=
  let (fraction, scale) := leadingFraction 0 (.finite 1) false t.fraction
  if 0 < fraction then (fractionNanos fraction scale unit).toNat else 0

/-- What the number is worth in a unit, when that is at most `2 ^ 63`. -/
def worth (t : DurationTerm) (unit : Nat) : Option Nat :=
  if 2 ^ 63 / unit < decimalValue t.whole then none
  else if 2 ^ 63 < decimalValue t.whole * unit + t.extraNanos unit then none
  else some (decimalValue t.whole * unit + t.extraNanos unit)

/-- The nanoseconds a term stands for: it is a number of a known unit, in range. -/
def nanos (t : DurationTerm) : Option Nat :=
  if t.isNumber then (durationUnits.lookup t.unit).bind t.worth else none

/-- What a parser with the given unit table makes of a term. -/
def outcome (unitOf : String → UnitEntry) (t : DurationTerm) : Except DurationParse Nat :=
  if t.isNumber then
    match unitOf t.unit with
    | .missing => .error .error
    | .inherited => .error .typeError
    | .nanos unit => (t.worth unit).elim (.error .error) .ok
  else .error .error

end Value

end DurationTerm

section Parser

variable [Double.Rounding] (unitOf : String → UnitEntry)

/-- Sum the terms, stopping at the first that is not accepted or passes `2 ^ 63`. -/
def sumTerms : (total : Nat) → List DurationTerm → Except DurationParse Nat
  | total, [] => .ok total
  | total, t :: ts => do
      let value ← t.outcome unitOf
      if 2 ^ 63 < total + value then .error .error else sumTerms (total + value) ts

omit [Double.Rounding] in
theorem head?_any_eq (p : Char → Bool) (cs : List Char) :
    cs.head?.any p = !(cs.takeWhile p).isEmpty := by
  cases cs with
  | nil => rfl
  | cons c cs =>
      rw [List.head?_cons, Option.any_some, List.takeWhile_cons]
      cases p c <;> rfl

theorem parseDurationPart_eq (cs : List Char) :
    parseDurationPart unitOf cs =
      ((nextTerm cs).1.outcome unitOf).map fun value => (value, (nextTerm cs).2) := by
  have hleading := leadingInt_eq cs 0 (Nat.zero_le _)
  by_cases hlarge : 2 ^ 63 < decimalValue (cs.takeWhile isDigit)
  · have hnumber : (nextTerm cs).1.isNumber = false := by
      rw [DurationTerm.isNumber, nextTerm]
      exact Bool.and_eq_false_imp.mpr fun h => absurd (of_decide_eq_true h) (Nat.not_le.mpr hlarge)
    have hnone : leadingInt 0 cs = none := hleading.trans (if_pos hlarge)
    rw [parseDurationPart, hnone, DurationTerm.outcome, hnumber]
    rfl
  · have hsome : leadingInt 0 cs =
        some (decimalValue (cs.takeWhile isDigit), cs.dropWhile isDigit) :=
      hleading.trans (if_neg hlarge)
    have hfraction : (if (cs.dropWhile isDigit).head? = some '.' then
        (cs.dropWhile isDigit).tail.takeWhile isDigit else []) = (nextTerm cs).1.fraction := by
      rw [nextTerm, afterPoint]
      split <;> rfl
    have hrest : (if (cs.dropWhile isDigit).head? = some '.' then
        (cs.dropWhile isDigit).tail.dropWhile isDigit else cs.dropWhile isDigit) =
          (afterPoint (cs.dropWhile isDigit)).2 := by
      rw [afterPoint]
      split <;> rfl
    have hnumber : (nextTerm cs).1.isNumber =
        !((cs.takeWhile isDigit).isEmpty && (nextTerm cs).1.fraction.isEmpty) := by
      rw [DurationTerm.isNumber]
      exact (congrArg (· && _) (decide_eq_true (Nat.not_lt.mp hlarge))).trans (Bool.true_and _)
    have hunit : (fun c => !(decide (c = '.') || isDigit c)) = isUnitChar := rfl
    rw [parseDurationPart, hsome]
    simp only [head?_any_eq, Bool.not_not, hfraction, hrest, hunit, DurationTerm.outcome, hnumber]
    cases ((cs.takeWhile isDigit).isEmpty && (nextTerm cs).1.fraction.isEmpty) with
    | true => rfl
    | false =>
        have hterm : (nextTerm cs).1.unit =
            String.ofList ((afterPoint (cs.dropWhile isDigit)).2.takeWhile isUnitChar) := rfl
        simp only [Bool.not_false, if_true, Bool.false_eq_true, if_false, hterm]
        cases unitOf (String.ofList
          ((afterPoint (cs.dropWhile isDigit)).2.takeWhile isUnitChar)) with
        | missing => rfl
        | inherited => rfl
        | nanos unit =>
            have hworth : (nextTerm cs).1.worth unit =
                if 2 ^ 63 / unit < decimalValue (cs.takeWhile isDigit) then none
                else if 2 ^ 63 < decimalValue (cs.takeWhile isDigit) * unit +
                  (nextTerm cs).1.extraNanos unit then none
                else some (decimalValue (cs.takeWhile isDigit) * unit +
                  (nextTerm cs).1.extraNanos unit) := rfl
            simp only [hworth]
            by_cases hwhole : 2 ^ 63 / unit < decimalValue (cs.takeWhile isDigit)
            · rw [if_pos hwhole, if_pos hwhole]
              rfl
            · rw [if_neg hwhole, if_neg hwhole]
              by_cases hvalue : 2 ^ 63 < decimalValue (cs.takeWhile isDigit) * unit +
                  (nextTerm cs).1.extraNanos unit
              · rw [if_pos hvalue]
                exact if_pos hvalue
              · rw [if_neg hvalue]
                exact if_neg hvalue

theorem parseDurationParts_eq {rounds : Nat} {cs : List Char} (h : cs.length ≤ rounds)
    (total : Nat) :
    parseDurationParts unitOf rounds total cs = sumTerms unitOf total (termsFrom rounds cs) := by
  induction rounds generalizing total cs with
  | zero =>
      obtain rfl := List.length_eq_zero_iff.mp (Nat.le_zero.mp h)
      rfl
  | succ rounds ih =>
      cases cs with
      | nil => rfl
      | cons c cs =>
          have hlt := length_nextTerm_lt c cs
          rw [parseDurationParts, parseDurationPart_eq, termsFrom, sumTerms]
          cases (nextTerm (c :: cs)).1.outcome unitOf with
          | error failure => rfl
          | ok value =>
              simp only [Except.map, bind, Except.bind]
              by_cases hover : 2 ^ 63 < total + value
              · rw [if_pos hover, if_pos hover]
                rfl
              · rw [if_neg hover, if_neg hover]
                exact ih (by omega) _

end Parser

/-! ## What the sum comes to -/

section Sum

variable [Double.Rounding] {unitOf : String → UnitEntry}

/-- The exact sum of the terms, when every one of them stands for nanoseconds. -/
def exactTotal : List DurationTerm → Option Nat
  | [] => some 0
  | t :: ts => do
      let value ← t.nanos
      let rest ← exactTotal ts
      return value + rest

variable {t : DurationTerm} {ts : List DurationTerm}

theorem exactTotal_cons_eq_some_iff {total : Nat} :
    exactTotal (t :: ts) = some total ↔
      ∃ value rest, t.nanos = some value ∧ exactTotal ts = some rest ∧ total = value + rest := by
  rw [exactTotal]
  cases t.nanos with
  | none => simp
  | some value =>
      cases exactTotal ts with
      | none => simp
      | some rest => simp [eq_comm]

/-- The parser's table knows the units of the language, whatever else it answers for. -/
def KnowsUnits (unitOf : String → UnitEntry) : Prop :=
  ∀ text unit, unitOf text = .nanos unit ↔ durationUnits.lookup text = some unit

theorem outcome_eq_ok_iff (hunits : KnowsUnits unitOf) {value : Nat} :
    t.outcome unitOf = .ok value ↔ t.nanos = some value := by
  rw [DurationTerm.outcome, DurationTerm.nanos]
  cases t.isNumber with
  | false => exact iff_of_false (by rintro ⟨⟩) (by rintro ⟨⟩)
  | true =>
      rw [if_pos rfl, if_pos rfl]
      cases hunit : unitOf t.unit with
      | nanos unit =>
          rw [(hunits t.unit unit).mp hunit, Option.bind_some]
          dsimp only
          cases t.worth unit <;> simp
      | missing | inherited =>
          have hnone : durationUnits.lookup t.unit = none := by
            cases hlookup : durationUnits.lookup t.unit with
            | none => rfl
            | some unit =>
                rw [(hunits t.unit unit).mpr hlookup] at hunit
                cases hunit
          rw [hnone]
          exact iff_of_false (by rintro ⟨⟩) (by rintro ⟨⟩)

theorem outcome_eq_typeError_iff :
    t.outcome unitOf = .error .typeError ↔ t.isNumber = true ∧ unitOf t.unit = .inherited := by
  rw [DurationTerm.outcome]
  cases t.isNumber with
  | false => simp
  | true =>
      rw [if_pos rfl]
      cases unitOf t.unit with
      | nanos unit =>
          dsimp only
          cases t.worth unit <;> simp
      | missing | inherited => simp

theorem outcome_ne_duration (t : DurationTerm) (nanos : Int) :
    t.outcome unitOf ≠ .error (.duration nanos) := by
  rw [DurationTerm.outcome]
  cases t.isNumber with
  | false => simp
  | true =>
      rw [if_pos rfl]
      cases unitOf t.unit with
      | nanos unit =>
          dsimp only
          cases t.worth unit <;> simp
      | missing | inherited => simp

/-- The parser accepts exactly the terms whose sum is at most `2 ^ 63`, and returns the
sum: the checks on the way say nothing more. -/
theorem sumTerms_eq_ok_iff (hunits : KnowsUnits unitOf) {total n : Nat} (htotal : total ≤ 2 ^ 63) :
    sumTerms unitOf total ts = .ok n ↔
      ∃ rest, exactTotal ts = some rest ∧ total + rest ≤ 2 ^ 63 ∧ n = total + rest := by
  induction ts generalizing total with
  | nil =>
      rw [sumTerms, exactTotal, Except.ok.injEq]
      constructor
      · rintro rfl
        exact ⟨0, rfl, htotal, rfl⟩
      · rintro ⟨rest, hrest, -, rfl⟩
        obtain rfl := Option.some.inj hrest
        rfl
  | cons t ts ih =>
      rw [sumTerms]
      cases houtcome : t.outcome unitOf with
      | error failure =>
          refine iff_of_false (by rintro ⟨⟩) ?_
          rintro ⟨rest, hrest, -⟩
          obtain ⟨value, -, hvalue, -⟩ := exactTotal_cons_eq_some_iff.mp hrest
          rw [(outcome_eq_ok_iff hunits).mpr hvalue] at houtcome
          cases houtcome
      | ok value =>
          have hvalue := (outcome_eq_ok_iff hunits).mp houtcome
          simp only [bind, Except.bind]
          by_cases hover : 2 ^ 63 < total + value
          · rw [if_pos hover]
            refine iff_of_false (by rintro ⟨⟩) ?_
            rintro ⟨rest, hrest, hle, -⟩
            obtain ⟨value', rest', hvalue', -, rfl⟩ := exactTotal_cons_eq_some_iff.mp hrest
            obtain rfl := Option.some.inj (hvalue.symm.trans hvalue')
            omega
          · rw [if_neg hover, ih (by omega)]
            constructor
            · rintro ⟨rest, hrest, hle, rfl⟩
              exact ⟨value + rest, exactTotal_cons_eq_some_iff.mpr ⟨value, rest, hvalue, hrest, rfl⟩,
                by omega, by omega⟩
            · rintro ⟨total', htotal', hle, rfl⟩
              obtain ⟨value', rest, hvalue', hrest, rfl⟩ := exactTotal_cons_eq_some_iff.mp htotal'
              obtain rfl := Option.some.inj (hvalue.symm.trans hvalue')
              exact ⟨rest, hrest, by omega, by omega⟩

/-- The first term that the parser does not get past has a unit that the table only
inherits. -/
def ReachesInherited (unitOf : String → UnitEntry) (total : Nat) (ts : List DurationTerm) : Prop :=
  ∃ before t after, ts = before ++ t :: after ∧
    (∃ rest, exactTotal before = some rest ∧ total + rest ≤ 2 ^ 63) ∧
    t.isNumber = true ∧ unitOf t.unit = .inherited

theorem sumTerms_eq_typeError_iff (hunits : KnowsUnits unitOf)
    {total : Nat} (htotal : total ≤ 2 ^ 63) :
    sumTerms unitOf total ts = .error .typeError ↔ ReachesInherited unitOf total ts := by
  induction ts generalizing total with
  | nil =>
      refine iff_of_false (by rintro ⟨⟩) ?_
      rintro ⟨before, t, after, h, -⟩
      exact absurd h (by simp)
  | cons t ts ih =>
      rw [sumTerms]
      cases houtcome : t.outcome unitOf with
      | error failure =>
          change Except.error failure = _ ↔ _
          rw [← houtcome, outcome_eq_typeError_iff]
          constructor
          · intro h
            exact ⟨[], t, ts, rfl, ⟨0, rfl, htotal⟩, h⟩
          · rintro ⟨before, t', after, hsplit, ⟨rest, hrest, -⟩, h⟩
            cases before with
            | nil =>
                obtain ⟨rfl, -⟩ := List.cons.inj hsplit
                exact h
            | cons u before =>
                obtain ⟨rfl, -⟩ := List.cons.inj hsplit
                obtain ⟨value, -, hvalue, -⟩ := exactTotal_cons_eq_some_iff.mp hrest
                rw [(outcome_eq_ok_iff hunits).mpr hvalue] at houtcome
                cases houtcome
      | ok value =>
          have hvalue := (outcome_eq_ok_iff hunits).mp houtcome
          have hnot : ¬ (t.isNumber = true ∧ unitOf t.unit = .inherited) := by
            rw [← outcome_eq_typeError_iff, houtcome]
            rintro ⟨⟩
          have hsplit : ReachesInherited unitOf total (t :: ts) ↔
              total + value ≤ 2 ^ 63 ∧ ReachesInherited unitOf (total + value) ts := by
            constructor
            · rintro ⟨before, t', after, hsplit, ⟨rest, hrest, hle⟩, h⟩
              cases before with
              | nil =>
                  obtain ⟨rfl, -⟩ := List.cons.inj hsplit
                  exact absurd h hnot
              | cons u before =>
                  obtain ⟨rfl, rfl⟩ := List.cons.inj hsplit
                  obtain ⟨value', rest', hvalue', hrest', rfl⟩ :=
                    exactTotal_cons_eq_some_iff.mp hrest
                  obtain rfl := Option.some.inj (hvalue.symm.trans hvalue')
                  exact ⟨by omega, before, t', after, rfl, ⟨rest', hrest', by omega⟩, h⟩
            · rintro ⟨-, before, t', after, rfl, ⟨rest, hrest, hle⟩, h⟩
              exact ⟨t :: before, t', after, rfl, ⟨value + rest,
                exactTotal_cons_eq_some_iff.mpr ⟨value, rest, hvalue, hrest, rfl⟩, by omega⟩, h⟩
          rw [hsplit]
          simp only [bind, Except.bind]
          by_cases hover : 2 ^ 63 < total + value
          · rw [if_pos hover]
            exact iff_of_false (by rintro ⟨⟩) fun h => absurd h.1 (by omega)
          · rw [if_neg hover, ih (by omega)]
            exact (and_iff_right (by omega)).symm

theorem sumTerms_ne_duration (ts : List DurationTerm) (total : Nat) (nanos : Int) :
    sumTerms unitOf total ts ≠ .error (.duration nanos) := by
  induction ts generalizing total with
  | nil => rintro ⟨⟩
  | cons t ts ih =>
      rw [sumTerms]
      cases houtcome : t.outcome unitOf with
      | error failure =>
          change Except.error failure ≠ _
          rw [← houtcome]
          exact outcome_ne_duration t nanos
      | ok value =>
          simp only [bind, Except.bind]
          split
          · rintro ⟨⟩
          · exact ih _

theorem sumTerms_le {total n : Nat} (htotal : total ≤ 2 ^ 63)
    (h : sumTerms unitOf total ts = .ok n) : n ≤ 2 ^ 63 := by
  induction ts generalizing total with
  | nil =>
      obtain rfl := Except.ok.inj h
      exact htotal
  | cons t ts ih =>
      rw [sumTerms] at h
      cases houtcome : t.outcome unitOf with
      | error failure =>
          rw [houtcome] at h
          cases h
      | ok value =>
          rw [houtcome] at h
          simp only [bind, Except.bind] at h
          split at h
          next => cases h
          next hsum => exact ih (not_lt.mp hsum) h

/-- A duration that is parsed fits in int64 nanoseconds. -/
theorem parseDuration_fits {text : String} {nanos : Int}
    (h : parseDuration unitOf text = .duration nanos) : int64Min ≤ nanos ∧ nanos ≤ int64Max := by
  rw [parseDuration] at h
  generalize takeSign text.toList = sign at h
  obtain ⟨negative, cs⟩ := sign
  dsimp only at h
  split at h
  next =>
    obtain rfl := DurationParse.duration.inj h
    decide
  next =>
    split at h
    next => cases h
    next =>
      rw [parseDurationParts_eq _ le_rfl] at h
      cases hsum : sumTerms unitOf 0 (termsFrom cs.length cs) with
      | error failure =>
          rw [hsum] at h
          obtain rfl : failure = .duration nanos := h
          exact absurd hsum (sumTerms_ne_duration _ _ _)
      | ok total =>
          have hle := sumTerms_le (Nat.zero_le _) hsum
          rw [hsum] at h
          dsimp only at h
          split at h
          next =>
            obtain rfl := DurationParse.duration.inj h
            simp only [int64Min, int64Max]
            omega
          next =>
            split at h
            next => cases h
            next hmax =>
              obtain rfl := DurationParse.duration.inj h
              simp only [int64Min, int64Max] at hmax ⊢
              omega

/-- A term that a parser does not accept leaves no exact sum. -/
theorem exactTotal_eq_none_of_reachesInherited (hunits : KnowsUnits unitOf) {total : Nat}
    (h : ReachesInherited unitOf total ts) :
    exactTotal ts = none := by
  obtain ⟨before, t, after, rfl, -, hnumber, hinherited⟩ := h
  induction before with
  | nil =>
      cases hsum : exactTotal (t :: after) with
      | none => exact hsum
      | some sum =>
          obtain ⟨value, -, hvalue, -⟩ := exactTotal_cons_eq_some_iff.mp hsum
          have hok := (outcome_eq_ok_iff hunits).mpr hvalue
          rw [outcome_eq_typeError_iff.mpr ⟨hnumber, hinherited⟩] at hok
          cases hok
  | cons u before ih =>
      rw [List.cons_append, exactTotal, ih]
      cases u.nanos <;> rfl

end Sum

end QueryPlanAdapters
