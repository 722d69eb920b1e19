import QueryPlanAdapters.Cel.DoubleTexts

/-!
# The layout of doubles, adapter by adapter

Three adapters take the shortest digits of a double from JavaScript's `toExponential()` and lay
them out themselves. Whatever digits and exponent the engine prints, the text is the one that
Go's `%g` lays out, it denotes the digits at their place, and no other digits or exponent have it.
-/

namespace QueryPlanAdapters.DoubleRendering

/-- `toExponential()` for the significant digits and the exponent of the first one. -/
def exponentialText (digits : List Char) (exponent : Int) : List Char :=
  digits.take 1 ++ ((if 1 < digits.length then '.' :: digits.drop 1 else []) ++
    'e' :: (if exponent < 0 then '-' else '+') :: Nat.toDigits 10 exponent.natAbs)

/-- `const [mantissa, exponentPart] = text.split("e")`. -/
def splitExponential (text : List Char) : List Char × List Char :=
  (text.takeWhile (· != 'e'), ((text.dropWhile (· != 'e')).drop 1).takeWhile (· != 'e'))

/-- What the three functions do with a finite number that is not a zero. `Number()` of the
exponent part reads a signed integer. -/
def layout (sign : List Char) (exponential : List Char) : List Char :=
  let (mantissa, exponentPart) := splitExponential exponential
  let digits := mantissa.erase '.'
  let exponent := (parseCelInt (String.ofList exponentPart)).getD 0
  sign ++ layoutGoDouble digits exponent

section Functions

-- The engine's `toExponential()` of a magnitude.
variable (toExponential : ℚ → List Char)

/-- `formatGoDouble` of the two in-memory evaluators. -/
def formatGoDouble (value : Double) : List Char :=
  if value.isNaN then "NaN".toList
  else if !value.isFinite then if Double.lt 0 value then "+Inf".toList else "-Inf".toList
  else
    let sign := if value.lt 0 ∨ value = .negZero then ['-'] else []
    if value.isZero then sign ++ ['0'] else layout sign (toExponential |value.toRat|)

/-- Prisma's `formatCelDouble`. -/
def formatCelDouble (x : Double) : List Char :=
  if x.isNaN then "NaN".toList
  else if x = .posInf then "+Inf".toList
  else if x = .negInf then "-Inf".toList
  else if x.isZero then if x = .negZero then "-0".toList else "0".toList
  else
    let sign := if x.lt 0 then ['-'] else []
    layout sign (toExponential |x.toRat|)

end Functions

inductive Renderer where
  | convex
  | chroma
  | prisma
  deriving DecidableEq, Repr

def Renderer.format : Renderer → (ℚ → List Char) → Double → List Char
  | convex, toExponential => formatGoDouble toExponential
  | chroma, toExponential => formatGoDouble toExponential
  | prisma, toExponential => formatCelDouble toExponential

/-! ## The engine's text taken apart -/

theorem splitExponential_text {mantissa exponentPart : List Char} (hmantissa : 'e' ∉ mantissa)
    (hexponent : 'e' ∉ exponentPart) :
    splitExponential (mantissa ++ 'e' :: exponentPart) = (mantissa, exponentPart) := by
  have hfree : ∀ {cs : List Char}, 'e' ∉ cs → ∀ c ∈ cs, (c != 'e') = true := by
    intro cs hcs c hc
    rw [bne_iff_ne]
    rintro rfl
    exact hcs hc
  have hrest := List.takeWhile_eq_self_iff.mpr (hfree hexponent)
  rw [splitExponential, List.takeWhile_append_of_pos (hfree hmantissa),
    List.dropWhile_append_of_pos (hfree hmantissa),
    List.takeWhile_cons_of_neg (p := (· != 'e')) (by decide),
    List.dropWhile_cons_of_neg (p := (· != 'e')) (by decide), List.append_nil,
    List.drop_succ_cons, List.drop_zero, hrest]

theorem not_mem_of_isDigit {cs : List Char} {c : Char} (h : cs.all isDigit = true)
    (hc : isDigit c = false) : c ∉ cs := by
  intro hmem
  rw [List.all_eq_true.mp h c hmem] at hc
  cases hc

/-- The point is the first character that is not a digit. -/
theorem erase_point {digits : List Char} (hdigits : digits.all isDigit = true) :
    (digits.take 1 ++ if 1 < digits.length then '.' :: digits.drop 1 else []).erase '.' =
      digits := by
  have hpoint := not_mem_of_isDigit (c := '.') hdigits rfl
  have hhead : '.' ∉ digits.take 1 := fun hmem => hpoint (List.mem_of_mem_take hmem)
  rw [List.erase_append_right _ hhead]
  split
  · rw [List.erase_cons_head, List.take_append_drop]
  next hshort =>
    rw [List.erase_nil, List.append_nil, List.take_of_length_le (by omega)]

theorem parseCelInt_exponent (exponent : Int) :
    parseCelInt (String.ofList ((if exponent < 0 then '-' else '+') ::
      Nat.toDigits 10 exponent.natAbs)) = some exponent := by
  apply parseCelInt_of_takeSign
  rw [String.toList_ofList]
  by_cases hneg : exponent < 0
  · rw [if_pos hneg, decide_eq_true hneg, takeSign]
  · rw [if_neg hneg, decide_eq_false hneg, takeSign]

/-- The digits and the exponent reach the layout. -/
theorem layout_exponentialText (sign : List Char) {digits : List Char}
    (hdigits : digits.all isDigit = true) (exponent : Int) :
    layout sign (exponentialText digits exponent) = sign ++ layoutGoDouble digits exponent := by
  have hletter := not_mem_of_isDigit (c := 'e') hdigits rfl
  have hmantissa : 'e' ∉ digits.take 1 ++ if 1 < digits.length then '.' :: digits.drop 1 else [] := by
    rw [List.mem_append, not_or]
    refine ⟨fun hmem => hletter (List.mem_of_mem_take hmem), ?_⟩
    split
    · rw [List.mem_cons, not_or]
      exact ⟨by decide, fun hmem => hletter (List.mem_of_mem_drop hmem)⟩
    · exact List.not_mem_nil
  have hexponent : 'e' ∉ (if exponent < 0 then '-' else '+') ::
      Nat.toDigits 10 exponent.natAbs := by
    rw [List.mem_cons, not_or]
    refine ⟨?_, not_mem_of_isDigit (isDigit_toDigits _) rfl⟩
    split <;> decide
  rw [layout, exponentialText, ← List.append_assoc, splitExponential_text hmantissa hexponent]
  simp only [erase_point hdigits, parseCelInt_exponent, Option.getD_some]

/-! ## The functions on a number that is not a zero -/

theorem Renderer.format_finite (r : Renderer) (toExponential : ℚ → List Char) {q : ℚ}
    (hq : q ≠ 0) : r.format toExponential (.finite q) =
      layout (if q < 0 then ['-'] else []) (toExponential |q|) := by
  have hzero : (Double.finite q).isZero = false := by
    simp [Double.isZero, Double.isFinite, Double.toRat, hq]
  have hlt : (Double.finite q).lt 0 = decide (q < 0) := rfl
  cases r with
  | convex | chroma | prisma =>
      simp [Renderer.format, formatGoDouble, formatCelDouble, Double.isNaN, Double.isFinite, hzero,
        hlt, Double.toRat]

theorem Renderer.format_eq_spelling (r : Renderer) {toExponential : ℚ → List Char} {q : ℚ}
    (hq : q ≠ 0) {m : DigitString} {exponent : Int}
    (hprinted : toExponential |q| = exponentialText m.digits exponent) :
    r.format toExponential (.finite q) = (spelling (decide (q < 0)) m.digits exponent).text := by
  rw [r.format_finite toExponential hq, hprinted, layout_exponentialText _ m.isDigits,
    ← layoutGoDouble_eq _ m.nonempty]
  simp only [decide_eq_true_eq]

/-- `toExponential()` as the evaluators' `string()` has it. -/
def engineExponential [Double.Rounding] (q : ℚ) : List Char :=
  let (digits, exponent) := toExponential q
  exponentialText digits.toList exponent

/-- On the engine's own digits, all three are the `string()` of the evaluators. -/
theorem Renderer.format_eq_formatGoDouble [Double.Rounding] (r : Renderer) (d : Double) :
    String.ofList (r.format engineExponential d) = QueryPlanAdapters.formatGoDouble d := by
  cases d with
  | finite q =>
      by_cases hq : q = 0
      · subst hq
        cases r <;> rfl
      · have hdigits : (toExponential |q|).1.toList.all isDigit = true := by
          rw [toExponential]
          split
          · have hone : "1".toList.all isDigit = true := by decide
            exact hone
          · rw [Nat.toString_eq_repr, Nat.repr, String.toList_ofList]
            exact isDigit_toDigits _
        rw [r.format_finite _ hq, engineExponential, layout_exponentialText _ hdigits]
        simp only [QueryPlanAdapters.formatGoDouble, if_neg hq]
  | _ => cases r <;> rfl

/-- Whatever digits and exponent the engine prints for a number, the text is Go's, denotes them
with the number's sign, is in exponent form below -4 and from 6 on, and is no other's. -/
theorem double_layout (r : Renderer) (toExponential : ℚ → List Char) (q : ℚ) (hq : q ≠ 0)
    (m : DigitString) (exponent : Int)
    (hprinted : toExponential |q| = exponentialText m.digits exponent) :
    r.format toExponential (.finite q) = Strconv.formatG (decide (q < 0)) m.digits exponent ∧
      parseDecimal (String.ofList (r.format toExponential (.finite q))) =
        some (decide (q < 0), placedValue m.digits exponent) ∧
      ('e' ∈ r.format toExponential (.finite q) ↔ exponent < -4 ∨ 6 ≤ exponent) ∧
      ∀ (r' : Renderer) (toExponential' : ℚ → List Char) (q' : ℚ) (m' : DigitString)
        (exponent' : Int), q' ≠ 0 →
          toExponential' |q'| = exponentialText m'.digits exponent' →
          (m.digits, exponent) ≠ (m'.digits, exponent') →
          r.format toExponential (.finite q) ≠ r'.format toExponential' (.finite q') := by
  rw [r.format_eq_spelling hq hprinted]
  refine ⟨(formatG_eq _ m.nonempty exponent).symm, ?_,
    e_mem_spelling_iff _ m.nonempty m.isDigits exponent, ?_⟩
  · rw [NumberText.parseDecimal_text (wellFormed_spelling _ m.nonempty exponent m.isDigits),
      negative_spelling, magnitude_spelling _ m.nonempty]
  · intro r' toExponential' q' m' exponent' hq' hprinted' hdistinct hsame
    rw [r'.format_eq_spelling hq' hprinted'] at hsame
    obtain ⟨-, hdigits, hexponent⟩ := spelling_injective hsame
    exact hdistinct (by rw [hdigits, hexponent])

theorem double_layout_three_million :
    Renderer.convex.format (fun _ => exponentialText ['3'] 6) (.finite 3000000) =
      Strconv.formatG (decide ((3000000 : ℚ) < 0)) ['3'] 6 :=
  (double_layout .convex (fun _ => exponentialText ['3'] 6) 3000000 (by norm_num)
    ⟨['3'], rfl, List.cons_ne_nil _ _, .inl rfl⟩ 6 rfl).1

example : Strconv.formatG false ['3'] 6 = "3e+06".toList := by decide

end QueryPlanAdapters.DoubleRendering
