import QueryPlanAdapters.Cel.ShortestTexts
import QueryPlanAdapters.DoubleRendering
import Mathlib.Data.List.DropRight

/-!
# Drizzle: the text of a number column

A constant text is read by JavaScript's `Number()` and written again. Where that gives the text
back, the column is compared with the number, and no row is selected where it does not.
-/

namespace QueryPlanAdapters.Drizzle

open Double (IsDouble)

/-! ## The source -/

/-- JavaScript's white space and line terminators. -/
def isTrimmed (c : Char) : Bool :=
  [9, 10, 11, 12, 13, 32, 0xA0, 0x1680, 0x2028, 0x2029, 0x202F, 0x205F, 0x3000, 0xFEFF].contains
      c.toNat ||
    0x2000 ≤ c.toNat && c.toNat ≤ 0x200A

def trim (cs : List Char) : List Char :=
  (cs.dropWhile isTrimmed).rdropWhile isTrimmed

/-- The base of an integer that starts with `0x`, `0o` or `0b`. -/
def radix (letter : Char) : Option Nat :=
  if letter = 'x' ∨ letter = 'X' then some 16
  else if letter = 'o' ∨ letter = 'O' then some 8
  else if letter = 'b' ∨ letter = 'B' then some 2
  else none

def digitIn (base : Nat) (c : Char) : Option Nat :=
  let value :=
    if isDigit c then digitValue c
    else if 'a' ≤ c ∧ c ≤ 'f' then c.toNat - 87
    else if 'A' ≤ c ∧ c ≤ 'F' then c.toNat - 55
    else base
  if value < base then some value else none

def radixInteger : List Char → Option Nat
  | '0' :: letter :: c :: cs => do
      let base ← radix letter
      let digits ← (c :: cs).mapM (digitIn base)
      some (digits.foldl (fun n digit => n * base + digit) 0)
  | _ => none

/-- `Number(text)`. -/
def number (text : String) : Double :=
  let cs := trim text.toList
  if cs.isEmpty then 0
  else if cs = "Infinity".toList ∨ cs = "+Infinity".toList then .posInf
  else if cs = "-Infinity".toList then .negInf
  else
    match radixInteger cs with
    | some n => Double.ofInt n
    | none => (readDecimal (String.ofList cs)).getD .nan

/-- `toExponential()`, which writes a zero as well. -/
def toExponentialText (q : ℚ) : List Char :=
  if q = 0 then "0e+0".toList else DoubleRendering.engineExponential q

def formatCelDouble (value : Double) : String :=
  if value.isNaN then "NaN"
  else if value = .posInf then "+Inf"
  else if value = .negInf then "-Inf"
  else
    let sign := if value.lt 0 ∨ value = .negZero then ['-'] else []
    String.ofList (DoubleRendering.layout sign (toExponentialText |value.toRat|))

def parseCelDoubleString (text : String) : Option Double :=
  let value := number text
  if trim text.toList ≠ [] ∧ formatCelDouble value = text then some value else none

/-- What the column is tested for, unless the text is refused. -/
def buildNumberStringComparison (text : String) : Option SolvedText :=
  match parseCelDoubleString text with
  | some target => if target.isZero || !target.isFinite then none else some (.exactly target)
  | none => some .nothing

/-! ## Numbers written and read -/

theorem formatCelDouble_eq (value : Double) : formatCelDouble value = formatGoDouble value := by
  cases value with
  | finite q =>
      by_cases hq : q = 0
      · subst hq
        decide
      · have hformat := DoubleRendering.Renderer.format_eq_formatGoDouble .convex (.finite q)
        have hlt : (Double.finite q).lt 0 = decide (q < 0) := rfl
        rw [DoubleRendering.Renderer.format_finite _ _ hq] at hformat
        rw [← hformat, formatCelDouble, toExponentialText, Double.toRat,
          if_neg (abs_ne_zero.mpr hq)]
        simp [Double.isNaN, hlt]
  | _ => decide

/-- A character of a number is not white space, and begins neither an infinity nor a base. -/
theorem plain_of_mem_text {t : NumberText} (h : t.WellFormed) {c : Char} (hc : c ∈ t.text) :
    isTrimmed c = false ∧ radix c = none ∧ c ≠ 'I' := by
  obtain hdigit | hother := NumberText.mem_text h hc
  · have hbounds : 48 ≤ c.toNat ∧ c.toNat ≤ 57 := by
      rw [isDigit, Bool.and_eq_true, decide_eq_true_eq, decide_eq_true_eq, Char.le_def,
        Char.le_def, UInt32.le_iff_toNat_le, UInt32.le_iff_toNat_le] at hdigit
      exact hdigit
    have hne : ∀ letter : Char, 57 < letter.toNat → c ≠ letter := by
      rintro letter hlarge rfl
      omega
    refine ⟨?_, ?_, hne 'I' (by decide)⟩
    · simp [isTrimmed]
      omega
    · rw [radix, if_neg, if_neg, if_neg]
      all_goals exact not_or.mpr ⟨hne _ (by decide), hne _ (by decide)⟩
  · simp only [List.mem_cons, List.not_mem_nil, or_false] at hother
    obtain rfl | rfl | rfl | rfl := hother <;> decide

theorem trim_of_plain {cs : List Char} (h : ∀ c ∈ cs, isTrimmed c = false) : trim cs = cs := by
  have hstart : cs.dropWhile isTrimmed = cs := by
    rw [List.dropWhile_eq_self_iff]
    intro hlength
    rw [h _ (List.getElem_mem hlength)]
    exact Bool.false_ne_true
  rw [trim, hstart, List.rdropWhile_eq_self_iff]
  intro hne
  rw [h _ (List.getLast_mem hne)]
  exact Bool.false_ne_true

theorem number_formatGoDouble {d : Double} (hd : IsDouble d) (hfinite : d.isFinite = true)
    (hzero : d.isZero = false) : number (formatGoDouble d) = d := by
  have hread := readDecimal_formatGoDouble hd hfinite
  obtain ⟨q, rfl, hq⟩ := hd.exists_magnitude hfinite hzero
  obtain ⟨m, -, htext⟩ := formatGoDouble_finite hq
  have hformed := wellFormed_decimalSpelling (decide (q < 0)) m
  generalize decimalSpelling (decide (q < 0)) m = t at htext hformed
  rw [htext] at hread ⊢
  have hplain : ∀ c ∈ t.text, isTrimmed c = false ∧ radix c = none ∧ c ≠ 'I' := fun c =>
    plain_of_mem_text hformed
  have hinfinity : ∀ cs : List Char, 'I' ∈ cs → t.text ≠ cs := by
    rintro cs hmem rfl
    exact (hplain _ hmem).2.2 rfl
  have hradix : radixInteger t.text = none := by
    rw [radixInteger.eq_def]
    split
    next letter c cs heq =>
      rw [(hplain letter (by rw [heq]; simp)).2.1]
      rfl
    next => rfl
  have hne : t.text.isEmpty = false := by
    rw [List.isEmpty_eq_false_iff, NumberText.text]
    exact List.append_ne_nil_of_right_ne_nil _ (List.append_ne_nil_of_left_ne_nil hformed.whole.1 _)
  rw [number, String.toList_ofList]
  simp only [trim_of_plain fun c hc => (hplain c hc).1, hne, Bool.false_eq_true, if_false,
    hinfinity _ (by decide : 'I' ∈ "Infinity".toList),
    hinfinity _ (by decide : 'I' ∈ "+Infinity".toList),
    hinfinity _ (by decide : 'I' ∈ "-Infinity".toList), or_self, hradix, hread, Option.getD_some]

theorem number_of_blank {text : String} (h : trim text.toList = []) : number text = 0 := by
  rw [number]
  simp only [h, List.isEmpty_nil, if_true]

/-- A double is read back from the text it is written as, unless it is an infinity. -/
theorem parseCelDoubleString_formatCelDouble_iff {d : Double} (hd : IsDouble d) :
    parseCelDoubleString (formatCelDouble d) = some d ↔ d.isInfinite = false := by
  cases d with
  | finite q =>
      by_cases hq : q = 0
      · subst hq
        decide +kernel
      · have hnumber := number_formatGoDouble hd rfl (decide_eq_false hq)
        rw [formatCelDouble_eq, parseCelDoubleString, hnumber, if_pos]
        · exact iff_of_true rfl rfl
        · refine ⟨fun hblank => ?_, formatCelDouble_eq _⟩
          rw [number_of_blank hblank] at hnumber
          exact hq (Double.finite.inj hnumber).symm
  | _ => decide +kernel

theorem parseCelDoubleString_formatCelDouble_iff_one :
    parseCelDoubleString (formatCelDouble (.finite 1)) = some (.finite 1) ↔
      (Double.finite 1).isInfinite = false :=
  parseCelDoubleString_formatCelDouble_iff (Or.inr ⟨by decide +kernel, by decide +kernel⟩)

/-- What the comparison is solved to is right for every text but those of the special values. -/
theorem buildNumberStringComparison_spec {text : String} (htext : isUndecidable text = false) :
    ∃ solved, buildNumberStringComparison text = some solved ∧ solved.Inverts text := by
  have hwrites : ReadsAndWrites (fun text => some (number text)) formatCelDouble :=
    ⟨fun d hd hfinite hzero => congrArg some (number_formatGoDouble hd hfinite hzero),
      fun d _ _ _ => formatCelDouble_eq d⟩
  have hordinary (hsame : formatCelDouble (number text) = text) :
      (number text).isFinite = true ∧ (number text).isZero = false := by
    rw [formatCelDouble_eq] at hsame
    by_contra hnot
    rw [not_and_or, Bool.not_eq_true, Bool.not_eq_false] at hnot
    exact formatGoDouble_ne_of_special htext hnot hsame
  rw [buildNumberStringComparison, parseCelDoubleString]
  by_cases hback : trim text.toList ≠ [] ∧ formatCelDouble (number text) = text
  · obtain ⟨hfinite, hzero⟩ := hordinary hback.2
    simp only [if_pos hback, hfinite, hzero, Bool.not_true, Bool.or_self, Bool.false_eq_true,
      if_false]
    exact ⟨_, rfl, inverts_exactly htext hwrites hfinite hzero rfl hback.2⟩
  · simp only [if_neg hback]
    refine ⟨_, rfl, inverts_nothing htext hwrites ?_⟩
    rintro v ⟨⟩ - hsame
    refine hback ⟨fun hempty => ?_, hsame⟩
    have hzero := (hordinary hsame).2
    rw [number_of_blank hempty] at hzero
    cases hzero

/-- The infinities are read as no number, and so are not refused. -/
theorem buildNumberStringComparison_special :
    buildNumberStringComparison "+Inf" = some .nothing ∧
      buildNumberStringComparison "-Inf" = some .nothing ∧
      buildNumberStringComparison "0" = none ∧ buildNumberStringComparison "-0" = none ∧
      buildNumberStringComparison "NaN" = none := by
  decide +kernel

/-- Every text is refused or inverted, but for the texts of the infinities. -/
theorem buildNumberStringComparison_settles_iff (text : String) :
    Settles text (buildNumberStringComparison text) ↔ ¬ (text = "+Inf" ∨ text = "-Inf") := by
  cases htext : isUndecidable text with
  | false =>
      obtain ⟨solved, hsolved, hinverts⟩ := buildNumberStringComparison_spec htext
      rw [hsolved]
      refine iff_of_true ⟨htext, hinverts⟩ ?_
      rintro (rfl | rfl) <;> cases htext
  | true =>
      obtain ⟨hposInf, hnegInf, hzero, hnegZero, hnan⟩ := buildNumberStringComparison_special
      have hlisted := htext
      rw [isUndecidable, List.contains_iff_mem] at hlisted
      simp only [List.mem_cons, List.not_mem_nil, or_false] at hlisted
      have hmissed : ∀ {text}, isUndecidable text = true → ¬ Settles text (some .nothing) :=
        fun hundecidable h => Bool.noConfusion (hundecidable.symm.trans h.1)
      obtain rfl | rfl | rfl | rfl | rfl := hlisted
      · exact iff_of_true (by rw [hzero]; exact htext) (by decide)
      · exact iff_of_true (by rw [hnegZero]; exact htext) (by decide)
      · exact iff_of_true (by rw [hnan]; exact htext) (by decide)
      · exact iff_of_false (by rw [hposInf]; exact hmissed htext) (by decide)
      · exact iff_of_false (by rw [hnegInf]; exact hmissed htext) (by decide)

end QueryPlanAdapters.Drizzle
