import QueryPlanAdapters.Cel.Durations

/-!
# Go's `time.ParseDuration`

The parser of the reference implementation, which CEL's `duration()` calls. Its
numbers are of type `uint64`, and its sums wrap. It walks the bytes of the text;
digits and points are bytes of their own, so it is stated over characters here.
-/

namespace QueryPlanAdapters.GoTime

def uint64 (n : Nat) : Nat :=
  n % 2 ^ 64

/-- A 64-bit signed integer, in two's complement. -/
def int64 (n : Int) : Int :=
  n.bmod (2 ^ 64)

/-- `leadingInt`: the digits at the front, and an error on overflow. -/
def leadingInt : (x : Nat) → List Char → Option (Nat × List Char)
  | x, [] => some (x, [])
  | x, c :: cs =>
      if !isDigit c then some (x, c :: cs)
      else if 2 ^ 63 / 10 < x then none
      else
        let next := uint64 (x * 10 + digitValue c)
        if 2 ^ 63 < next then none else leadingInt next cs

section Fractions

variable [Double.Rounding]

/-- `leadingFraction`: the digits at the front with their scale; those past int64
only count as read. -/
def leadingFraction : (x : Nat) → (scale : Double) → (overflow : Bool) → List Char →
    Nat × Double × List Char
  | x, scale, _, [] => (x, scale, [])
  | x, scale, overflow, c :: cs =>
      if !isDigit c then (x, scale, c :: cs)
      else if overflow || (2 ^ 63 - 1) / 10 < x then leadingFraction x scale true cs
      else
        let y := uint64 (x * 10 + digitValue c)
        if 2 ^ 63 < y then leadingFraction x scale true cs
        else leadingFraction y (scale.mul (.finite 10)) overflow cs

/-- The fraction behind a point: its digits with their scale, whether there are any,
and the rest. -/
def parseFraction (s : List Char) : Nat × Double × Bool × List Char :=
  if s.head? = some '.' then
    let (f, scale, rest) := leadingFraction 0 (.finite 1) false s.tail
    (f, scale, rest.length ≠ s.tail.length, rest)
  else (0, .finite 1, false, s)

/-- One round of the loop: a number with its unit, and the rest. -/
def parsePart (s : List Char) : Option (Nat × List Char) := do
  if !s.head?.any fun c => c = '.' || isDigit c then none
  let (v, rest) ← leadingInt 0 s
  let pre := rest.length ≠ s.length
  let (f, scale, post, rest) := parseFraction rest
  if !pre && !post then none
  if (rest.takeWhile isUnitChar).isEmpty then none
  let unit ← durationUnits.lookup (String.ofList (rest.takeWhile isUnitChar))
  if 2 ^ 63 / unit < v then none
  -- The fraction of a unit is at most an hour's nanoseconds and does not wrap.
  let v := uint64 (v * unit) + (if 0 < f then (fractionNanos f scale unit).toNat else 0)
  if 2 ^ 63 < v then none
  return (v, rest.dropWhile isUnitChar)

/-- The loop over the rest of the text, with the sum so far. -/
def parseParts : (rounds d : Nat) → List Char → Option Nat
  | _, d, [] => some d
  | 0, _, _ :: _ => none
  | rounds + 1, d, c :: cs => do
      let (v, rest) ← parsePart (c :: cs)
      let d := uint64 (d + v)
      if 2 ^ 63 < d then none else parseParts rounds d rest

/-- `time.ParseDuration`. -/
def parseDuration (text : String) : Option Int :=
  let (negative, s) := takeSign text.toList
  if s = ['0'] then some 0
  else if s = [] then none
  else do
    let d ← parseParts s.length 0 s
    if negative then some (int64 (-int64 d))
    else if 2 ^ 63 - 1 < d then none
    else some (int64 d)

end Fractions

/-! ## Agreement with the terms of the text -/

theorem digitValue_le {c : Char} (h : isDigit c = true) : digitValue c ≤ 9 := by
  rw [isDigit, Bool.and_eq_true, decide_eq_true_eq, decide_eq_true_eq, Char.le_def, Char.le_def,
    UInt32.le_iff_toNat_le, UInt32.le_iff_toNat_le] at h
  have h9 : c.toNat ≤ 57 := h.2
  rw [digitValue]
  omega

theorem uint64_of_lt {n : Nat} (h : n < 2 ^ 64) : uint64 n = n :=
  Nat.mod_eq_of_lt h

/-- No product on the way wraps: the check before it leaves room for one more digit. -/
theorem leadingInt_eq (cs : List Char) (x : Nat) :
    leadingInt x cs = QueryPlanAdapters.leadingInt x cs := by
  induction cs generalizing x with
  | nil => rfl
  | cons c cs ih =>
      rw [leadingInt, QueryPlanAdapters.leadingInt]
      cases hdigit : isDigit c with
      | false => rfl
      | true =>
          have hvalue := digitValue_le hdigit
          rw [Bool.not_true, if_neg Bool.false_ne_true, if_pos rfl]
          by_cases hx : 2 ^ 63 / 10 < x
          · rw [if_pos hx, if_pos hx]
          · rw [if_neg hx, if_neg hx, uint64_of_lt (by omega)]
            simp only [ih]

section Terms

variable [Double.Rounding]

theorem leadingFraction_eq (cs : List Char) (x : Nat) (scale : Double) (overflow : Bool) :
    leadingFraction x scale overflow cs =
      ((QueryPlanAdapters.leadingFraction x scale overflow (cs.takeWhile isDigit)).1,
        (QueryPlanAdapters.leadingFraction x scale overflow (cs.takeWhile isDigit)).2,
        cs.dropWhile isDigit) := by
  induction cs generalizing x scale overflow with
  | nil => rfl
  | cons c cs ih =>
      rw [leadingFraction]
      cases hdigit : isDigit c with
      | false =>
          rw [List.takeWhile_cons_of_neg (by simp [hdigit]),
            List.dropWhile_cons_of_neg (by simp [hdigit])]
          rfl
      | true =>
          have hvalue := digitValue_le hdigit
          rw [List.takeWhile_cons_of_pos hdigit, List.dropWhile_cons_of_pos hdigit,
            QueryPlanAdapters.leadingFraction, Bool.not_true, if_neg Bool.false_ne_true]
          cases overflow with
          | true => exact ih x scale true
          | false =>
              simp only [Bool.false_or, decide_eq_true_eq]
              by_cases hx : (2 ^ 63 - 1) / 10 < x
              · rw [if_pos hx, if_pos hx, ih]
              · rw [if_neg hx, if_neg hx, uint64_of_lt (by omega)]
                split
                · rw [ih]
                · rw [ih]

omit [Double.Rounding] in
theorem length_dropWhile_ne (p : Char → Bool) (cs : List Char) :
    decide ((cs.dropWhile p).length ≠ cs.length) = !(cs.takeWhile p).isEmpty := by
  have hsplit := congrArg List.length (List.takeWhile_append_dropWhile (p := p) (l := cs))
  rw [List.length_append] at hsplit
  rw [Bool.eq_iff_iff, decide_eq_true_eq, Bool.not_eq_true', List.isEmpty_eq_false_iff,
    ← List.length_pos_iff]
  omega

theorem parseFraction_eq (s : List Char) :
    parseFraction s =
      ((QueryPlanAdapters.leadingFraction 0 (.finite 1) false (afterPoint s).1).1,
        (QueryPlanAdapters.leadingFraction 0 (.finite 1) false (afterPoint s).1).2,
        !(afterPoint s).1.isEmpty, (afterPoint s).2) := by
  rw [parseFraction, afterPoint]
  split
  · simp only [leadingFraction_eq, length_dropWhile_ne]
  · rfl

/-- One round of Go's loop reads the term in front, and accepts it as the exact one. -/
theorem parsePart_eq (s : List Char) :
    parsePart s = (nextTerm s).1.nanos.map fun value => (value, (nextTerm s).2) := by
  have hleading := (leadingInt_eq s 0).trans (QueryPlanAdapters.leadingInt_eq s 0 (Nat.zero_le _))
  have hwhole : (nextTerm s).1.whole = s.takeWhile isDigit := rfl
  have hfraction : (nextTerm s).1.fraction = (afterPoint (s.dropWhile isDigit)).1 := rfl
  cases hfirst : s.head?.any fun c => c = '.' || isDigit c with
  | false =>
      have hempty : (nextTerm s).1.isNumber = false := by
        rw [DurationTerm.isNumber, hwhole, hfraction]
        cases s with
        | nil => rfl
        | cons c cs =>
            simp only [List.head?_cons, Option.any_some, Bool.or_eq_false_iff,
              decide_eq_false_iff_not] at hfirst
            rw [List.takeWhile_cons_of_neg (by simp [hfirst.2]),
              List.dropWhile_cons_of_neg (by simp [hfirst.2]), afterPoint,
              if_neg (by simpa using hfirst.1)]
            rfl
      rw [parsePart, hfirst, DurationTerm.nanos, hempty]
      rfl
  | true =>
      by_cases hlarge : 2 ^ 63 < decimalValue (s.takeWhile isDigit)
      · have hnumber : (nextTerm s).1.isNumber = false :=
          Bool.and_eq_false_imp.mpr fun h => absurd (of_decide_eq_true h) (Nat.not_le.mpr hlarge)
        have hnone : leadingInt 0 s = none := hleading.trans (if_pos hlarge)
        rw [parsePart, hfirst, hnone, DurationTerm.nanos, hnumber]
        rfl
      · have hsome : leadingInt 0 s =
            some (decimalValue (s.takeWhile isDigit), s.dropWhile isDigit) :=
          hleading.trans (if_neg hlarge)
        have hnumber : (nextTerm s).1.isNumber =
            !((s.takeWhile isDigit).isEmpty && (afterPoint (s.dropWhile isDigit)).1.isEmpty) :=
          (congrArg (· && _) (decide_eq_true (Nat.not_lt.mp hlarge))).trans (Bool.true_and _)
        rw [parsePart, hfirst, hsome, DurationTerm.nanos, hnumber]
        simp only [length_dropWhile_ne, parseFraction_eq, bind, Option.bind, Bool.not_true,
          Bool.false_eq_true, if_false, Bool.not_not]
        cases ((s.takeWhile isDigit).isEmpty && (afterPoint (s.dropWhile isDigit)).1.isEmpty) with
        | true => rfl
        | false =>
            have hterm : (nextTerm s).1.unit =
                String.ofList ((afterPoint (s.dropWhile isDigit)).2.takeWhile isUnitChar) := rfl
            simp only [Bool.not_false, if_true, Bool.false_eq_true, if_false, hterm]
            cases hunit : (afterPoint (s.dropWhile isDigit)).2.takeWhile isUnitChar with
            | nil => rfl
            | cons c cs =>
                rw [List.isEmpty_cons, if_neg Bool.false_ne_true]
                cases durationUnits.lookup (String.ofList (c :: cs)) with
                | none => rfl
                | some unit =>
                    have hworth : (nextTerm s).1.worth unit =
                        if 2 ^ 63 / unit < decimalValue (s.takeWhile isDigit) then none
                        else if 2 ^ 63 < decimalValue (s.takeWhile isDigit) * unit +
                          (nextTerm s).1.extraNanos unit then none
                        else some (decimalValue (s.takeWhile isDigit) * unit +
                          (nextTerm s).1.extraNanos unit) := rfl
                    simp only [hworth]
                    by_cases hoverflow : 2 ^ 63 / unit < decimalValue (s.takeWhile isDigit)
                    · rw [if_pos hoverflow, if_pos hoverflow]
                      rfl
                    · have hproduct : decimalValue (s.takeWhile isDigit) * unit ≤ 2 ^ 63 :=
                        (Nat.mul_le_mul_right unit (Nat.not_lt.mp hoverflow)).trans
                          (Nat.div_mul_le_self _ _)
                      rw [if_neg hoverflow, if_neg hoverflow, uint64_of_lt (by omega)]
                      by_cases hvalue : 2 ^ 63 < decimalValue (s.takeWhile isDigit) * unit +
                          (nextTerm s).1.extraNanos unit
                      · rw [if_pos hvalue]
                        exact if_pos hvalue
                      · rw [if_neg hvalue]
                        exact if_neg hvalue

/-- Sum the terms as Go does, in `uint64`. -/
def sumTerms : (d : Nat) → List DurationTerm → Option Nat
  | d, [] => some d
  | d, t :: ts => do
      let value ← t.nanos
      if 2 ^ 63 < uint64 (d + value) then none else sumTerms (uint64 (d + value)) ts

theorem parseParts_eq {rounds : Nat} {cs : List Char} (h : cs.length ≤ rounds) (d : Nat) :
    parseParts rounds d cs = sumTerms d (termsFrom rounds cs) := by
  induction rounds generalizing d cs with
  | zero =>
      obtain rfl := List.length_eq_zero_iff.mp (Nat.le_zero.mp h)
      rfl
  | succ rounds ih =>
      cases cs with
      | nil => rfl
      | cons c cs =>
          have hlt := length_nextTerm_lt c cs
          rw [parseParts, parsePart_eq, termsFrom, sumTerms]
          cases (nextTerm (c :: cs)).1.nanos with
          | none => rfl
          | some value =>
              simp only [Option.map_some, bind, Option.bind]
              by_cases hover : 2 ^ 63 < uint64 (d + value)
              · rw [if_pos hover, if_pos hover]
              · rw [if_neg hover, if_neg hover]
                exact ih (by omega) _

/-- Terms that Go sums are all accepted. -/
theorem exactTotal_isSome_of_sumTerms {ts : List DurationTerm} {d n : Nat}
    (h : sumTerms d ts = some n) : (exactTotal ts).isSome = true := by
  induction ts generalizing d with
  | nil => rfl
  | cons t ts ih =>
      rw [sumTerms] at h
      cases hvalue : t.nanos with
      | none =>
          rw [hvalue] at h
          cases h
      | some value =>
          rw [hvalue] at h
          simp only [bind, Option.bind] at h
          split at h
          · cases h
          · obtain ⟨rest, hrest⟩ := Option.isSome_iff_exists.mp (ih h)
            rw [exactTotal_cons_eq_some_iff.mpr ⟨value, rest, hvalue, hrest, rfl⟩]
            rfl

/-- A sum that stays in range does not wrap. -/
theorem sumTerms_of_exactTotal {ts : List DurationTerm} {d rest : Nat}
    (hrest : exactTotal ts = some rest) (hle : d + rest ≤ 2 ^ 63) :
    sumTerms d ts = some (d + rest) := by
  induction ts generalizing d rest with
  | nil =>
      obtain rfl := Option.some.inj hrest
      rfl
  | cons t ts ih =>
      obtain ⟨value, rest', hvalue, hrest', rfl⟩ := exactTotal_cons_eq_some_iff.mp hrest
      rw [sumTerms, hvalue]
      simp only [bind, Option.bind]
      rw [uint64_of_lt (by omega), if_neg (by omega), ih hrest' (by omega), Nat.add_assoc]

end Terms

end QueryPlanAdapters.GoTime
