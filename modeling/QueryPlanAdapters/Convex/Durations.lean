import QueryPlanAdapters.Cel.GoTime
import QueryPlanAdapters.Convex.Evaluate

/-!
# Convex: durations against Go's

The evaluator's `parseCelDuration` is a port of Go's `time.ParseDuration`. The port
looks a unit up in a plain object, which also answers for what it inherits, and sums
in unbounded integers where Go's `uint64` can wrap.
-/

namespace QueryPlanAdapters.Convex

theorem durationUnit_knows : KnowsUnits durationUnit := by
  intro text unit
  rw [durationUnit]
  cases durationUnits.lookup text with
  | some nanos => simp
  | none =>
      dsimp only
      split <;> simp

/-- The terms of a duration's text, behind its sign. -/
def durationTerms (text : String) : List DurationTerm :=
  let (_, cs) := takeSign text.toList
  termsFrom cs.length cs

/-- The exact sum of number times unit. -/
def plainTotal (ts : List DurationTerm) : Nat :=
  (ts.map fun t => decimalValue t.whole * (durationUnits.lookup t.unit).getD 0).sum

def signedTotal (text : String) : Int :=
  if (takeSign text.toList).1 then -plainTotal (durationTerms text)
  else plainTotal (durationTerms text)

section Parser

variable [Double.Rounding]

theorem exactTotal_eq_plainTotal {ts : List DurationTerm} {total : Nat}
    (hfraction : ∀ t ∈ ts, t.fraction = []) (h : exactTotal ts = some total) :
    total = plainTotal ts := by
  induction ts generalizing total with
  | nil => exact (Option.some.inj h).symm
  | cons t ts ih =>
      obtain ⟨hhead, htail⟩ := List.forall_mem_cons.mp hfraction
      obtain ⟨value, rest, hvalue, hrest, rfl⟩ := exactTotal_cons_eq_some_iff.mp h
      have hworth : value = decimalValue t.whole * (durationUnits.lookup t.unit).getD 0 := by
        rw [DurationTerm.nanos] at hvalue
        split at hvalue
        · obtain ⟨unit, hunit, hvalue⟩ := Option.bind_eq_some_iff.mp hvalue
          have hextra : t.extraNanos unit = 0 := by
            rw [DurationTerm.extraNanos, hhead]
            rfl
          rw [DurationTerm.worth, hextra, Nat.add_zero] at hvalue
          split at hvalue
          · cases hvalue
          · split at hvalue
            · cases hvalue
            · rw [hunit, Option.getD_some]
              exact (Option.some.inj hvalue).symm
        · cases hvalue
      rw [plainTotal, List.map_cons, List.sum_cons, ← hworth, ih htail hrest, plainTotal]

/-- The parser answers every text: with an error where Go's does, and with the exact sum
of a text without fractions. -/
structure ParsesAsGo (text : String) : Prop where
  returns : parseDuration durationUnit text ≠ .typeError
  error_iff : parseDuration durationUnit text = .error ↔ GoTime.parseDuration text = none
  exact : (∀ t ∈ durationTerms text, t.fraction = []) →
    ∀ nanos, parseDuration durationUnit text = .duration nanos →
      nanos = signedTotal text ∧ int64Min ≤ nanos ∧ nanos ≤ int64Max

/-- Go accepts the text although its exact sum passes `2 ^ 63`: a running sum of exactly
`2 ^ 63` met a number worth exactly `2 ^ 63`, and their sum wrapped to zero. -/
def GoSumWraps (text : String) : Prop :=
  (GoTime.parseDuration text).isSome = true ∧
    ∃ total, exactTotal (durationTerms text) = some total ∧ 2 ^ 63 < total

variable {text : String} {negative : Bool} {cs : List Char}

omit [Double.Rounding] in
theorem durationTerms_eq (hsign : takeSign text.toList = (negative, cs)) :
    durationTerms text = termsFrom cs.length cs := by
  rw [durationTerms, hsign]

theorem parsesAsGo_zero (hsign : takeSign text.toList = (negative, ['0'])) :
    ParsesAsGo text ∧ ¬ ReachesInherited durationUnit 0 (durationTerms text) ∧
      ¬ GoSumWraps text := by
  have hparse : parseDuration durationUnit text = .duration 0 := by
    rw [parseDuration, hsign]
    rfl
  have hgo : GoTime.parseDuration text = some 0 := by
    rw [GoTime.parseDuration, hsign]
    rfl
  have hterms : durationTerms text = [⟨['0'], [], ""⟩] := durationTerms_eq hsign
  have hsigned : signedTotal text = 0 := by
    rw [signedTotal, hterms]
    split <;> rfl
  refine ⟨⟨?_, ?_, ?_⟩, ?_, ?_⟩
  · rw [hparse]
    rintro ⟨⟩
  · rw [hparse, hgo]
    exact iff_of_false (by rintro ⟨⟩) (by rintro ⟨⟩)
  · intro _ nanos hnanos
    rw [hparse] at hnanos
    obtain rfl := DurationParse.duration.inj hnanos
    exact ⟨hsigned.symm, by decide, by decide⟩
  · rw [hterms]
    rintro ⟨before, t, after, hsplit, -, -, hinherited⟩
    cases before with
    | nil =>
        obtain ⟨rfl, -⟩ := List.cons.inj hsplit
        cases hinherited
    | cons u before => simp at hsplit
  · rw [GoSumWraps, hterms]
    rintro ⟨-, total, hsome, -⟩
    cases hsome

theorem parsesAsGo_empty (hsign : takeSign text.toList = (negative, [])) :
    ParsesAsGo text ∧ ¬ ReachesInherited durationUnit 0 (durationTerms text) ∧
      ¬ GoSumWraps text := by
  have hparse : parseDuration durationUnit text = .error := by
    rw [parseDuration, hsign]
    rfl
  have hgo : GoTime.parseDuration text = none := by
    rw [GoTime.parseDuration, hsign]
    rfl
  refine ⟨⟨?_, iff_of_true hparse hgo, ?_⟩, ?_, ?_⟩
  · rw [hparse]
    rintro ⟨⟩
  · intro _ nanos hnanos
    rw [hparse] at hnanos
    cases hnanos
  · rw [durationTerms_eq hsign]
    rintro ⟨before, t, after, hsplit, -⟩
    exact absurd hsplit (by simp [termsFrom])
  · rintro ⟨hsome, -⟩
    rw [hgo] at hsome
    cases hsome

section Sums

variable (hsign : takeSign text.toList = (negative, cs)) (hzero : cs ≠ ['0']) (hempty : cs ≠ [])

include hsign hzero hempty

/-- The nanoseconds of a sum, or the error of one beyond int64. -/
theorem parseDuration_of_sum {total : Nat}
    (hsum : sumTerms durationUnit 0 (durationTerms text) = .ok total) :
    parseDuration durationUnit text =
      if negative then .duration (-total)
      else if int64Max < total then .error else .duration total := by
  rw [durationTerms_eq hsign] at hsum
  rw [parseDuration, hsign]
  simp only
  rw [if_neg hzero, if_neg hempty, parseDurationParts_eq _ le_rfl, hsum]

theorem parseDuration_of_failure {failure : DurationParse}
    (hsum : sumTerms durationUnit 0 (durationTerms text) = .error failure) :
    parseDuration durationUnit text = failure := by
  rw [durationTerms_eq hsign] at hsum
  rw [parseDuration, hsign]
  simp only
  rw [if_neg hzero, if_neg hempty, parseDurationParts_eq _ le_rfl, hsum]

theorem goParseDuration_eq :
    GoTime.parseDuration text =
      (GoTime.sumTerms 0 (durationTerms text)).bind fun d =>
        if negative then some (GoTime.int64 (-GoTime.int64 d))
        else if 2 ^ 63 - 1 < d then none else some (GoTime.int64 d) := by
  rw [GoTime.parseDuration, hsign, durationTerms_eq hsign]
  simp only
  rw [if_neg hzero, if_neg hempty, GoTime.parseParts_eq le_rfl]
  rfl

/-- A text whose terms are summed is answered as Go answers it. -/
theorem parsesAsGo_of_sum {total : Nat}
    (hsum : sumTerms durationUnit 0 (durationTerms text) = .ok total) :
    ParsesAsGo text ∧ ¬ ReachesInherited durationUnit 0 (durationTerms text) ∧
      ¬ GoSumWraps text := by
  obtain ⟨rest, hexact, hle, htotal⟩ :=
    (sumTerms_eq_ok_iff durationUnit_knows (Nat.zero_le _)).mp hsum
  obtain rfl : total = rest := htotal.trans (Nat.zero_add rest)
  have hparse := parseDuration_of_sum hsign hzero hempty hsum
  have hgo := goParseDuration_eq hsign hzero hempty
  rw [GoTime.sumTerms_of_exactTotal hexact hle, Option.bind_some, Nat.zero_add] at hgo
  refine ⟨⟨?_, ?_, ?_⟩, ?_, ?_⟩
  · rw [hparse]
    split
    · rintro ⟨⟩
    · split <;> rintro ⟨⟩
  · rw [hparse, hgo]
    cases negative with
    | true => exact iff_of_false (by rintro ⟨⟩) (by rintro ⟨⟩)
    | false =>
        simp only [Bool.false_eq_true, if_false]
        by_cases hlarge : int64Max < (total : Int)
        · rw [if_pos hlarge, if_pos (by unfold int64Max at hlarge; omega)]
          exact iff_of_true rfl rfl
        · rw [if_neg hlarge, if_neg (by unfold int64Max at hlarge; omega)]
          exact iff_of_false (by rintro ⟨⟩) (by rintro ⟨⟩)
  · intro hfraction nanos hnanos
    have hplain := exactTotal_eq_plainTotal hfraction hexact
    rw [hparse] at hnanos
    rw [signedTotal, hsign, ← hplain]
    cases negative with
    | true =>
        obtain rfl := DurationParse.duration.inj hnanos
        unfold int64Min int64Max
        exact ⟨rfl, by omega, by omega⟩
    | false =>
        simp only [Bool.false_eq_true, if_false] at hnanos ⊢
        split at hnanos
        · cases hnanos
        · obtain rfl := DurationParse.duration.inj hnanos
          unfold int64Min
          exact ⟨rfl, by omega, by omega⟩
  · intro hreaches
    rw [exactTotal_eq_none_of_reachesInherited durationUnit_knows hreaches] at hexact
    cases hexact
  · rintro ⟨-, total', htotal', hlt⟩
    obtain rfl := Option.some.inj (hexact.symm.trans htotal')
    omega

/-- A text whose terms are refused is refused by Go too, unless Go's sum wraps. -/
theorem parsesAsGo_iff_of_error
    (hsum : sumTerms durationUnit 0 (durationTerms text) = .error .error) :
    ParsesAsGo text ↔
      ¬ ReachesInherited durationUnit 0 (durationTerms text) ∧ ¬ GoSumWraps text := by
  have hparse := parseDuration_of_failure hsign hzero hempty hsum
  have hreaches : ¬ ReachesInherited durationUnit 0 (durationTerms text) := by
    rw [← sumTerms_eq_typeError_iff durationUnit_knows (Nat.zero_le _), hsum]
    rintro ⟨⟩
  have hwraps : GoSumWraps text ↔ (GoTime.parseDuration text).isSome = true := by
    refine and_iff_left_of_imp fun hsome => ?_
    have hgo := goParseDuration_eq hsign hzero hempty
    rw [hgo, Option.isSome_bind] at hsome
    obtain ⟨d, hd⟩ := Option.isSome_iff_exists.mp (Option.isSome_of_any hsome)
    obtain ⟨total, htotal⟩ := Option.isSome_iff_exists.mp (GoTime.exactTotal_isSome_of_sumTerms hd)
    refine ⟨total, htotal, ?_⟩
    by_contra hle
    have hok := (sumTerms_eq_ok_iff durationUnit_knows (Nat.zero_le _)).mpr
      ⟨total, htotal, by omega, rfl⟩
    rw [hsum] at hok
    cases hok
  rw [and_iff_right hreaches, hwraps, Option.not_isSome_iff_eq_none]
  constructor
  · intro h
    exact h.error_iff.mp hparse
  · intro hnone
    refine ⟨?_, iff_of_true hparse hnone, ?_⟩
    · rw [hparse]
      rintro ⟨⟩
    · intro _ nanos hnanos
      rw [hparse] at hnanos
      cases hnanos

end Sums

/-- The port answers as Go does exactly on the texts where it reaches no inherited unit and
Go's sum does not wrap. -/
theorem parseDuration_parsesAsGo_iff (text : String) :
    ParsesAsGo text ↔
      ¬ ReachesInherited durationUnit 0 (durationTerms text) ∧ ¬ GoSumWraps text := by
  rcases hsign : takeSign text.toList with ⟨negative, cs⟩
  by_cases hzero : cs = ['0']
  · obtain rfl := hzero
    exact iff_of_true (parsesAsGo_zero hsign).1 (parsesAsGo_zero hsign).2
  by_cases hempty : cs = []
  · obtain rfl := hempty
    exact iff_of_true (parsesAsGo_empty hsign).1 (parsesAsGo_empty hsign).2
  cases hsum : sumTerms durationUnit 0 (durationTerms text) with
  | ok total =>
      have h := parsesAsGo_of_sum hsign hzero hempty hsum
      exact iff_of_true h.1 h.2
  | error failure =>
      cases failure with
      | duration nanos => exact absurd hsum (sumTerms_ne_duration _ _ _)
      | error => exact parsesAsGo_iff_of_error hsign hzero hempty hsum
      | typeError =>
          have hreaches :=
            (sumTerms_eq_typeError_iff durationUnit_knows (Nat.zero_le _)).mp hsum
          refine iff_of_false ?_ fun h => h.1 hreaches
          intro h
          exact h.returns (parseDuration_of_failure hsign hzero hempty hsum)

end Parser

/-- The unit table inherits an entry for `constructor`, and the parser throws on it. -/
theorem inheritedUnit_throws :
    parseDuration durationUnit "1constructor" = .typeError ∧ ¬ ParsesAsGo "1constructor" := by
  have hthrows : parseDuration durationUnit "1constructor" = .typeError := by decide
  exact ⟨hthrows, fun h => h.returns hthrows⟩

/-- Twice `2 ^ 63` nanoseconds are no duration to Go either, but its sum has wrapped. -/
example : GoTime.parseDuration "9223372036854775808ns9223372036854775808ns" = some 0 ∧
    parseDuration durationUnit "9223372036854775808ns9223372036854775808ns" = .error := by
  decide

end QueryPlanAdapters.Convex
