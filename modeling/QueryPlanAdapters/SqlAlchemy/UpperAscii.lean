import QueryPlanAdapters.SqlAlchemy.Expression
import QueryPlanAdapters.Sql.Comparison
import QueryPlanAdapters.Sql.Escape
import QueryPlanAdapters.Cel.AsciiCase

/-!
# SQLAlchemy: `upperAscii()`

No SQL function raises the ASCII letters only, so each of the 26 is replaced in turn. A
comparison with a text replaces no more letters than the text has, which decides the same.
-/

namespace QueryPlanAdapters.SqlAlchemy

open Sql

/-! ## The adapter -/

/-- `_upper_ascii` of a literal. -/
def upperAsciiLiteral (value : String) : String :=
  String.ofList <| value.toList.map fun ch => if ch ∈ asciiLower then raise ch else ch

/-- `_replace_ascii_letters`, and the loop of `_upper_ascii` for all the letters. -/
def replaceAsciiLetters (value : Expression) (letters : List Char) : Expression :=
  letters.foldl (fun result ch => .replace result ch.toString (raise ch).toString) value

/-- The letter `a` to `z` that `ch.lower()` is, if it is one. Of the characters outside ASCII
only the Kelvin sign has one. -/
def lowerLetter (ch : Char) : Option Char :=
  if 'A' ≤ ch ∧ ch ≤ 'Z' then some (Char.ofNat (ch.toNat + 32))
  else if ch ∈ asciiLower then some ch
  else if ch = '\u212a' then some 'k'
  else none

/-- `sorted({ch.lower() for ch in text} & set(_ASCII_LOWER))`. -/
def lettersOf (text : String) : List Char :=
  asciiLower.filter fun letter => text.toList.any fun ch => lowerLetter ch = some letter

/-- `receiver.is_(None)`, which an `upperAscii()` answers from its own receiver. -/
def isNone : (receiver : Expression) → Expression
  | .upperAscii receiver => isNone receiver
  | receiver => .isNull receiver

/-- `receiver.isnot(None)` -/
def isNotNone : (receiver : Expression) → Expression
  | .upperAscii receiver => isNotNone receiver
  | receiver => .isNotNull receiver

/-- `_upper_ascii_equals`. Without a letter to replace the receiver itself is compared, which
for an `upperAscii()` is this function again. -/
def upperAsciiEquals (receiver : Expression) (text : String) : Expression :=
  if text.toList.any (· ∈ asciiLower) then .onlyWhen (isNotNone receiver) (.ofBool false)
  else if (lettersOf text).isEmpty then
    match receiver with
    | .upperAscii inner => upperAsciiEquals inner text
    | receiver => .compare .eq receiver (.text text)
  else .compare .eq (replaceAsciiLetters receiver (lettersOf text)) (.text text)

/-- What an expression is asked: to equal a text or not, to be among texts, to be NULL or not. -/
inductive Operation where
  | eq (text : String)
  | ne (text : String)
  | in_ (members : List String)
  | is_
  | isNot

/-- The operations of `String.Comparator`. -/
def Operation.plain (element : Expression) : Operation → Expression
  | eq text => .compare .eq element (.text text)
  | ne text => .compare .ne element (.text text)
  | in_ members => .disjunction (members.map fun member => .compare .eq element (.text member))
  | is_ => .isNull element
  | isNot => .isNotNull element

/-- `_UpperAsciiString.comparator_factory.operate`. Membership in no text is left to the type
it extends. -/
def Operation.operate (receiver : Expression) : Operation → Expression
  | eq text => upperAsciiEquals receiver text
  | ne text => .not (upperAsciiEquals receiver text)
  | in_ [] => (in_ []).plain (.upperAscii receiver)
  | in_ members => .disjunction (members.map (upperAsciiEquals receiver))
  | is_ => isNone receiver
  | isNot => isNotNone receiver

/-! ## Replacing letters -/

/-- What an engine answers that replaces every occurrence of a text, as SQL does. -/
structure ReplacesText (engine : Engine) : Prop where
  text (text source target : String) (h : source ≠ "") :
    engine.replace (.text text) (.text source) (.text target) =
      .text (replaceText text source target)
  null (source target : SqlValue) : engine.replace .null source target = .null

/-- The letters that are replaced, in capitals. -/
def raiseIn (letters : List Char) (s : String) : String :=
  String.ofList <| s.toList.map fun c => if c ∈ letters then raise c else c

variable {c : Char} {receiver : Expression}

theorem mem_asciiLower : c ∈ asciiLower ↔ 'a' ≤ c ∧ c ≤ 'z' := by
  have hle : ∀ a b : Char, a ≤ b ↔ a.toNat ≤ b.toNat := fun a b => UInt32.le_iff_toNat_le
  rw [hle, hle]
  constructor
  · intro h
    have hall : asciiLower.all (fun c => decide (97 ≤ c.toNat ∧ c.toNat ≤ 122)) = true := by
      decide
    exact of_decide_eq_true (List.all_eq_true.mp hall c h)
  · rintro ⟨hlow, hhigh⟩
    have hall : ∀ n < 26, Char.ofNat (97 + n) ∈ asciiLower := by decide
    have hmem := hall (c.toNat - 97) (by change 97 ≤ c.toNat at hlow; change c.toNat ≤ 122 at hhigh; omega)
    have hcode : 97 + (c.toNat - 97) = c.toNat := by
      change 97 ≤ c.toNat at hlow
      omega
    rwa [hcode, Char.ofNat_toNat] at hmem

theorem raise_notMem (h : c ∈ asciiLower) : raise c ∉ asciiLower := by
  have hall : asciiLower.all (fun c => decide (raise c ∉ asciiLower)) = true := by decide
  exact of_decide_eq_true (List.all_eq_true.mp hall c h)

/-- The capital of a letter is lowered to it. -/
theorem lowerLetter_raise (h : c ∈ asciiLower) : lowerLetter (raise c) = some c := by
  have hall : asciiLower.all (fun c => decide (lowerLetter (raise c) = some c)) = true := by
    decide
  exact of_decide_eq_true (List.all_eq_true.mp hall c h)

theorem raiseIn_asciiLower (s : String) : raiseIn asciiLower s = upperAscii s := by
  rw [raiseIn, upperAscii]
  congr 1
  apply List.map_congr_left
  intro c _
  simp only [mem_asciiLower]
  rfl

theorem raiseIn_nil (s : String) : raiseIn [] s = s := by
  simp [raiseIn]

/-- One replacement raises one letter. -/
theorem replaceText_letter (s : String) (c : Char) :
    replaceText s c.toString (raise c).toString = raiseIn [c] s := by
  rw [replaceText, raiseIn]
  congr 1
  simp only [Char.toString, String.toList_singleton, replaceOccurrences_char]
  induction s.toList with
  | nil => rfl
  | cons d cs ih =>
      rw [List.flatMap_cons, List.map_cons, ih]
      by_cases h : d = c
      · simp [h]
      · simp [h]

/-- A letter once raised is not met again. -/
theorem raiseIn_cons {letters : List Char} (h : c :: letters ⊆ asciiLower) (s : String) :
    raiseIn letters (raiseIn [c] s) = raiseIn (c :: letters) s := by
  have hraised : raise c ∉ letters := fun hmem =>
    raise_notMem (h List.mem_cons_self) (h (List.mem_cons_of_mem _ hmem))
  rw [raiseIn, raiseIn, raiseIn, String.toList_ofList, List.map_map]
  congr 1
  apply List.map_congr_left
  intro d _
  by_cases hd : d = c
  · simp [hd, hraised]
  · simp [hd]

variable {engine : Engine} {row : Row}

theorem foldl_raiseLetter (h : ReplacesText engine) {letters : List Char}
    (hletters : letters ⊆ asciiLower) (s : String) :
    letters.foldl (Expression.raiseLetter engine) (.text s) = .text (raiseIn letters s) := by
  induction letters generalizing s with
  | nil => rw [List.foldl_nil, raiseIn_nil]
  | cons c letters ih =>
      have hstep : Expression.raiseLetter engine (.text s) c = .text (raiseIn [c] s) := by
        rw [Expression.raiseLetter, h.text _ _ _ (by simp [Char.toString]), replaceText_letter]
      rw [List.foldl_cons, hstep, ih (List.subset_of_cons_subset hletters), raiseIn_cons hletters]

theorem foldl_raiseLetter_null (h : ReplacesText engine) (letters : List Char) :
    letters.foldl (Expression.raiseLetter engine) .null = .null := by
  induction letters with
  | nil => rfl
  | cons c letters ih => rw [List.foldl_cons, Expression.raiseLetter, h.null, ih]

theorem eval_replaceAsciiLetters (receiver : Expression) (letters : List Char) :
    (replaceAsciiLetters receiver letters).eval engine row =
      letters.foldl (Expression.raiseLetter engine) (receiver.eval engine row) := by
  rw [replaceAsciiLetters]
  induction letters generalizing receiver with
  | nil => rfl
  | cons c letters ih => exact ih _

/-! ## The letters of the other text -/

/-- A text without a letter `a` to `z` cannot meet one that its own letters leave. -/
theorem raiseIn_lettersOf_char {text : String} {d : Char} (hd : d ∈ text.toList)
    (hcapitals : ∀ d ∈ text.toList, d ∉ asciiLower) :
    (if c ∈ lettersOf text then raise c else c) = d ↔ (if c ∈ asciiLower then raise c else c) = d := by
  by_cases hlower : c ∈ asciiLower
  · by_cases hletter : c ∈ lettersOf text
    · rw [if_pos hletter, if_pos hlower]
    · rw [if_neg hletter, if_pos hlower]
      refine iff_of_false ?_ ?_
      · rintro rfl
        exact hcapitals c hd hlower
      · rintro rfl
        apply hletter
        rw [lettersOf, List.mem_filter, List.any_eq_true]
        exact ⟨hlower, raise c, hd, decide_eq_true (lowerLetter_raise hlower)⟩
  · have hletter : c ∉ lettersOf text := fun hmem => hlower (List.mem_filter.mp hmem).1
    rw [if_neg hletter, if_neg hlower]

theorem raiseIn_lettersOf {text : String} (hcapitals : ∀ d ∈ text.toList, d ∉ asciiLower)
    (s : String) : raiseIn (lettersOf text) s = text ↔ upperAscii s = text := by
  have hchars : ∀ {cs ds : List Char}, ds ⊆ text.toList →
      (cs.map (fun c => if c ∈ lettersOf text then raise c else c) = ds ↔
        cs.map (fun c => if c ∈ asciiLower then raise c else c) = ds) := by
    intro cs ds hds
    induction cs generalizing ds with
    | nil => rw [List.map_nil, List.map_nil]
    | cons c cs ih =>
        cases ds with
        | nil => simp
        | cons d ds =>
            obtain ⟨hd, hds⟩ := List.cons_subset.mp hds
            rw [List.map_cons, List.map_cons, List.cons_eq_cons, List.cons_eq_cons, ih hds,
              raiseIn_lettersOf_char hd hcapitals]
  rw [← raiseIn_asciiLower, raiseIn, raiseIn, ← String.toList_inj, ← String.toList_inj,
    String.toList_ofList, String.toList_ofList]
  exact hchars (List.Subset.refl _)

/-- A text with a letter `a` to `z` is no text in capitals. -/
theorem upperAscii_ne {text : String} {d : Char} (hd : d ∈ text.toList) (hlower : d ∈ asciiLower)
    (s : String) : upperAscii s ≠ text := by
  rintro rfl
  rw [← raiseIn_asciiLower, raiseIn, String.toList_ofList] at hd
  obtain ⟨c, -, rfl⟩ := List.mem_map.mp hd
  split at hlower
  next hc => exact raise_notMem hc hlower
  next hc => exact hc hlower

/-! ## The comparisons -/

/-- A text or NULL. -/
def IsString (value : SqlValue) : Prop :=
  value = .null ∨ ∃ s, value = .text s

/-- A string receiver, whose own receiver is one where it is an `upperAscii()`. -/
def IsStringReceiver (engine : Engine) (row : Row) : Expression → Prop
  | .upperAscii receiver => IsStringReceiver engine row receiver
  | receiver => IsString (receiver.eval engine row)

section Replacing

variable (h : ReplacesText engine)
include h

theorem eval_upperAscii {s : String}
    (hs : receiver.eval engine row = .text s) :
    (Expression.upperAscii receiver).eval engine row = .text (upperAscii s) := by
  rw [Expression.eval, hs, foldl_raiseLetter h (List.Subset.refl _), raiseIn_asciiLower]

theorem eval_upperAscii_null (hnull : receiver.eval engine row = .null) :
    (Expression.upperAscii receiver).eval engine row = .null := by
  rw [Expression.eval, hnull, foldl_raiseLetter_null h]

theorem isString_eval (receiver : Expression)
    (hreceiver : IsStringReceiver engine row receiver) : IsString (receiver.eval engine row) := by
  induction receiver with
  | upperAscii receiver ih =>
      obtain hnull | ⟨s, hs⟩ := ih hreceiver
      · exact .inl (eval_upperAscii_null h hnull)
      · exact .inr ⟨_, eval_upperAscii h hs⟩
  | _ => exact hreceiver

/-- Whether an `upperAscii()` is NULL is asked of its receiver. -/
theorem truth_isNone (receiver : Expression)
    (hreceiver : IsStringReceiver engine row receiver) :
    (isNone receiver).truth engine row = .ofBool (receiver.eval engine row).isNull := by
  induction receiver with
  | upperAscii receiver ih =>
      rw [isNone, ih hreceiver]
      obtain hnull | ⟨s, hs⟩ := isString_eval h receiver hreceiver
      · rw [hnull, eval_upperAscii_null h hnull]
      · rw [hs, eval_upperAscii h hs]
        rfl
  | _ => rfl

theorem truth_isNotNone (receiver : Expression)
    (hreceiver : IsStringReceiver engine row receiver) :
    (isNotNone receiver).truth engine row = .ofBool !(receiver.eval engine row).isNull := by
  induction receiver with
  | upperAscii receiver ih =>
      rw [isNotNone, ih hreceiver]
      obtain hnull | ⟨s, hs⟩ := isString_eval h receiver hreceiver
      · rw [hnull, eval_upperAscii_null h hnull]
      · rw [hs, eval_upperAscii h hs]
        rfl
  | _ => rfl

/-- Raising the letters of a text in capitals decides as raising all the letters does. -/
theorem compare_raised {value : SqlValue} (hvalue : IsString value)
    {text : String} (hcapitals : ∀ d ∈ text.toList, d ∉ asciiLower) :
    engine.compare .eq ((lettersOf text).foldl (Expression.raiseLetter engine) value) (.text text) =
      engine.compare .eq (asciiLower.foldl (Expression.raiseLetter engine) value) (.text text) := by
  obtain rfl | ⟨s, rfl⟩ := hvalue
  · rw [foldl_raiseLetter_null h, foldl_raiseLetter_null h]
  · have hsubset : lettersOf text ⊆ asciiLower := List.filter_subset_self _
    rw [foldl_raiseLetter h hsubset, foldl_raiseLetter h (List.Subset.refl _), Engine.compare_text,
      Engine.compare_text, raiseIn_asciiLower, decide_eq_decide.mpr (raiseIn_lettersOf hcapitals s)]

/-- The shorter comparison of a receiver that compares by its value is the one with all the
letters raised. -/
theorem truth_upperAsciiEquals_of (hreceiver : IsStringReceiver engine row receiver) {text : String}
    (hself : text.toList.any (· ∈ asciiLower) = false → (lettersOf text).isEmpty = true →
      (upperAsciiEquals receiver text).truth engine row =
        engine.compare .eq (receiver.eval engine row) (.text text)) :
    (upperAsciiEquals receiver text).truth engine row =
      engine.compare .eq ((Expression.upperAscii receiver).eval engine row) (.text text) := by
  have hstring := isString_eval h receiver hreceiver
  cases hlower : text.toList.any (· ∈ asciiLower) with
  | true =>
      obtain ⟨d, hd, hdlower⟩ := List.any_eq_true.mp hlower
      rw [upperAsciiEquals.eq_def, if_pos hlower, Expression.truth_onlyWhen,
        truth_isNotNone h receiver hreceiver]
      obtain hnull | ⟨s, hs⟩ := hstring
      · rw [hnull, eval_upperAscii_null h hnull, Engine.compare_null_left]
        rfl
      · rw [hs, eval_upperAscii h hs, Engine.compare_text,
          decide_eq_false (upperAscii_ne hd (of_decide_eq_true hdlower) s)]
        rfl
  | false =>
      have hcapitals : ∀ d ∈ text.toList, d ∉ asciiLower := by
        simpa using hlower
      rw [Expression.eval, ← compare_raised h hstring hcapitals]
      cases hletters : (lettersOf text).isEmpty with
      | true =>
          rw [hself hlower hletters, List.isEmpty_iff.mp hletters]
          rfl
      | false =>
          rw [upperAsciiEquals.eq_def, hlower, hletters, if_neg Bool.false_ne_true,
            if_neg Bool.false_ne_true, Expression.truth_compare, eval_replaceAsciiLetters]
          rfl

theorem truth_upperAsciiEquals (hreceiver : IsStringReceiver engine row receiver) (text : String) :
    (upperAsciiEquals receiver text).truth engine row =
      engine.compare .eq ((Expression.upperAscii receiver).eval engine row) (.text text) := by
  induction receiver with
  | upperAscii receiver ih =>
      refine truth_upperAsciiEquals_of h hreceiver fun hlower hletters => ?_
      rw [upperAsciiEquals.eq_def, hlower, hletters, if_neg Bool.false_ne_true, if_pos rfl]
      exact ih hreceiver
  | _ =>
      refine truth_upperAsciiEquals_of h hreceiver fun hlower hletters => ?_
      rw [upperAsciiEquals.eq_def, hlower, hletters, if_neg Bool.false_ne_true, if_pos rfl]
      exact Expression.truth_compare ..

end Replacing

/-- Unequal is not equal, also where NULL is neither. -/
theorem compare_ne_text {value : SqlValue} (hvalue : IsString value) (text : String) :
    engine.compare .ne value (.text text) = (engine.compare .eq value (.text text)).not := by
  obtain rfl | ⟨s, rfl⟩ := hvalue
  · rfl
  · exact (Truth.not_ofBool _).symm

/-- All the letters replaced in turn raise the ASCII letters of a text and keep the others and
NULL; and every operation that reads the receiver instead decides as the plain one on that
result. -/
theorem operate_eq_plain (h : ReplacesText engine) (receiver : Expression)
    (hreceiver : IsStringReceiver engine row receiver) :
    (∀ s, upperAsciiLiteral s = upperAscii s) ∧
      (∀ s, receiver.eval engine row = .text s →
        (replaceAsciiLetters receiver asciiLower).eval engine row = .text (upperAscii s)) ∧
      (receiver.eval engine row = .null →
        (replaceAsciiLetters receiver asciiLower).eval engine row = .null) ∧
      ∀ operation : Operation,
        (operation.operate receiver).truth engine row =
          (operation.plain (replaceAsciiLetters receiver asciiLower)).truth engine row := by
  have hchain : (replaceAsciiLetters receiver asciiLower).eval engine row =
      (Expression.upperAscii receiver).eval engine row := eval_replaceAsciiLetters receiver asciiLower
  have hstring : IsString ((Expression.upperAscii receiver).eval engine row) :=
    isString_eval h (.upperAscii receiver) hreceiver
  refine ⟨raiseIn_asciiLower, fun s hs => hchain.trans (eval_upperAscii h hs),
    fun hnull => hchain.trans (eval_upperAscii_null h hnull), fun operation => ?_⟩
  cases operation with
  | eq text =>
      rw [Operation.operate, Operation.plain, truth_upperAsciiEquals h hreceiver,
        Expression.truth_compare, hchain]
      rfl
  | ne text =>
      rw [Operation.operate, Operation.plain, Expression.truth_not,
        truth_upperAsciiEquals h hreceiver, Expression.truth_compare, hchain]
      exact (compare_ne_text hstring text).symm
  | in_ members =>
      have hmember : ∀ member, (upperAsciiEquals receiver member).truth engine row =
          (Expression.compare .eq (replaceAsciiLetters receiver asciiLower)
            (.text member)).truth engine row := by
        intro member
        rw [truth_upperAsciiEquals h hreceiver, Expression.truth_compare, hchain]
        rfl
      cases members with
      | nil => rfl
      | cons member members =>
          show (Expression.disjunction ((member :: members).map (upperAsciiEquals receiver))).truth
            engine row = _
          rw [Operation.plain, Expression.truth_disjunction, Expression.truth_disjunction,
            List.map_map, List.map_map]
          exact congrArg Truth.any (List.map_congr_left fun member _ => hmember member)
  | is_ =>
      rw [Operation.operate, Operation.plain, Expression.truth_isNull, hchain]
      exact truth_isNone h (.upperAscii receiver) hreceiver
  | isNot =>
      rw [Operation.operate, Operation.plain, Expression.truth_isNotNull, hchain]
      exact truth_isNotNone h (.upperAscii receiver) hreceiver

/-! A name against a text, on an engine that replaces texts. -/

def replacingEngine : Engine :=
  { Engine.bare with
    replace := fun text source target => match text, source, target with
      | .text text, .text source, .text target => .text (replaceText text source target)
      | _, _, _ => .null }

theorem replacingEngine_replaces : ReplacesText replacingEngine :=
  ⟨fun _ _ _ _ => rfl, fun _ _ => rfl⟩

/-- The name of the row is `Zoé K`, with the Kelvin sign in the text it is compared with. -/
theorem operate_eq_plain_name :
    ((Operation.eq "ZOé \u212a").operate (.column "name")).truth replacingEngine
        (fun _ => .text "Zoé k") =
      ((Operation.eq "ZOé \u212a").plain (replaceAsciiLetters (.column "name") asciiLower)).truth
        replacingEngine (fun _ => .text "Zoé k") :=
  (operate_eq_plain replacingEngine_replaces (.column "name")
    (.inr ⟨"Zoé k", rfl⟩)).2.2.2 _

end QueryPlanAdapters.SqlAlchemy
