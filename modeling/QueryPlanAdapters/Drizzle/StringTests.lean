import QueryPlanAdapters.Drizzle.Expression

/-!
# Drizzle: string tests without LIKE

`contains` is decided by the length that is left once the needle is deleted, the two others by a
part of the receiver; a regular expression has been lowered to plans, each of which is decided
by such tests, by nested deletions and by lengths.
-/

namespace QueryPlanAdapters.Drizzle

/-- A fragment, and whether the value behind it can be NULL. -/
structure NullableExpression where
  expr : SQL
  canBeNull : Bool

def columnExpression (expr : SQL) : NullableExpression := ⟨expr, true⟩

/-- A constant already known to be a non-null literal by the time it is rendered. -/
def constantExpression (expr : SQL) : NullableExpression := ⟨expr, false⟩

/-- The `IS NULL` disjunction over the operands that can actually be NULL, or nothing. -/
def buildNullGuard (operands : List NullableExpression) : Option SQL :=
  match (operands.filter (·.canBeNull)).map fun operand => SQL.isNull operand.expr with
  | [] => none
  | guards => some (.anyOf guards)

/-- `case when nullGuard then null else body end`, or the body alone. -/
def withNullGuard (nullGuard : Option SQL) (body : SQL) : SQL :=
  nullGuard.elim body fun nullGuard => .caseWhen nullGuard .null body

inductive StringMatchOperator where
  | contains | startsWith | endsWith
  deriving DecidableEq, Repr

def buildStringMatchCondition (operator : StringMatchOperator)
    (receiver needle : NullableExpression) : SQL :=
  match operator with
  | .contains =>
      -- Deleting a text shortens just a receiver that has it, in bytes as in characters.
      let body :=
        SQL.caseWhen (.compare .eq needle.expr (.text "")) (.ofBool true)
          (.compare .lt (.length (.replace receiver.expr needle.expr (.text "")))
            (.length receiver.expr))
      withNullGuard (buildNullGuard [receiver, needle]) body
  | .startsWith =>
      .compare .eq (.substring receiver.expr (.integer 1) (.length needle.expr)) needle.expr
  | .endsWith =>
      .compare .eq
        (.substr receiver.expr
          (.add (.sub (.length receiver.expr) (.length needle.expr)) (.integer 1)))
        needle.expr

/-! ## Regular expressions, as plans -/

inductive RegexPlan where
  /-- The string is one of `literals`. -/
  | equals (literals : List String)
  /-- Some literal is a prefix / suffix / substring of the string. -/
  | literal (kind : StringMatchOperator) (literals : List String)
  /-- Every character of the string is in `characters`, and there are at least `min` of them. -/
  | allCharactersIn (characters : List Char) (min : Nat)
  /-- No character is a newline, and there are at least `min` of them. -/
  | noNewline (min : Nat)
  /-- For some pair, the string starts with `prefix`, ends with `suffix`, holds at least
  `prefix + min + suffix` characters, and contains no newline. -/
  | prefixSuffix (pairs : List (String × String)) (min : Nat)

/-- `length(expr) >= characters`, where there is anything to ask. -/
def atLeast (expr : SQL) (characters : Nat) : List SQL :=
  if characters > 0 then [.compare .ge (.length expr) (.integer characters)] else []

def planCondition (expr : SQL) : RegexPlan → SQL :=
  let matchLiteral (operator : StringMatchOperator) (literal : String) : SQL :=
    buildStringMatchCondition operator (columnExpression expr) (constantExpression (.text literal))
  let noNewline : SQL := .not (matchLiteral .contains "\n")
  fun
  | .equals literals => .inList expr (literals.map SQL.text)
  | .literal kind literals => .anyOf (literals.map (matchLiteral kind))
  | .allCharactersIn characters min =>
      -- Remove every allowed character; nothing may be left.
      let rest := characters.foldl
        (fun current character => SQL.replace current (.text character.toString) (.text "")) expr
      .allOf (.compare .eq (.length rest) (.integer 0) :: atLeast expr min)
  | .noNewline min => .allOf (noNewline :: atLeast expr min)
  | .prefixSuffix pairs min =>
      .and
        (.anyOf (pairs.map fun (start, ending) =>
          .allOf (matchLiteral .startsWith start :: matchLiteral .endsWith ending ::
            atLeast expr (start.length + min + ending.length))))
        noNewline

/-- The condition `buildMatchesFilter` emits for the plans of a pattern. -/
def buildMatchesFilter (expr : SQL) (plans : List RegexPlan) : SQL :=
  .caseWhen (.isNull expr) .null (.anyOf (plans.map (planCondition expr)))

/-! ## What they decide -/

def StringMatchOperator.holds (receiver needle : String) : StringMatchOperator → Bool
  | contains => includesText receiver needle
  | startsWith => startsWithText receiver needle
  | endsWith => endsWithText receiver needle

def RegexPlan.satisfied (s : String) : RegexPlan → Bool
  | equals literals => decide (s ∈ literals)
  | literal kind literals => literals.any (kind.holds s)
  | allCharactersIn characters min => s.toList.all (· ∈ characters) && decide (min ≤ s.length)
  | noNewline min => s.toList.all (· ≠ '\n') && decide (min ≤ s.length)
  | prefixSuffix pairs min =>
      (pairs.any fun (start, ending) => startsWithText s start && endsWithText s ending &&
        decide (start.length + min + ending.length ≤ s.length)) && s.toList.all (· ≠ '\n')

theorem includesText_eq (s t : String) : includesText s t = decide (t.toList <:+: s.toList) := by
  rw [Bool.eq_iff_iff, includesText, List.any_eq_true, decide_eq_true_iff]
  constructor
  · rintro ⟨tail, htail, hstart⟩
    exact (List.isPrefixOf_iff_prefix.mp hstart).isInfix.trans
      ((List.mem_tails ..).mp htail).isInfix
  · intro h
    obtain ⟨tail, hstart, htail⟩ := List.infix_iff_prefix_suffix.mp h
    exact ⟨tail, (List.mem_tails ..).mpr htail, List.isPrefixOf_iff_prefix.mpr hstart⟩

/-- A text that is deleted wherever it stands leaves a shorter one just where it stands
somewhere. -/
theorem length_replaceOccurrences {source : List Char} (hsource : source ≠ []) (cs : List Char)
    (skip : Nat) :
    (Sql.replaceOccurrences source [] skip cs).length ≤ cs.length ∧
      (skip = 0 → ((Sql.replaceOccurrences source [] skip cs).length < cs.length ↔
        source <:+: cs)) := by
  induction cs generalizing skip with
  | nil =>
      refine ⟨by rw [Sql.replaceOccurrences], ?_⟩
      intro _
      simp [Sql.replaceOccurrences, List.infix_nil, hsource]
  | cons c cs ih =>
      cases skip with
      | succ skip =>
          have hle := (ih skip).1
          refine ⟨?_, by simp⟩
          rw [Sql.replaceOccurrences, List.length_cons]
          omega
      | zero =>
          rw [Sql.replaceOccurrences]
          by_cases hstart : source.isPrefixOf (c :: cs) = true
          · have hle := (ih (source.length - 1)).1
            rw [if_pos hstart, List.nil_append, List.length_cons]
            refine ⟨by omega, fun _ => ?_⟩
            constructor
            · intro _
              exact (List.isPrefixOf_iff_prefix.mp hstart).isInfix
            · intro _
              omega
          · obtain ⟨hle, hiff⟩ := ih 0
            rw [if_neg hstart, List.length_cons, List.length_cons, List.infix_cons_iff,
              or_iff_right (fun h => hstart (List.isPrefixOf_iff_prefix.mpr h)), ← hiff rfl]
            exact ⟨by omega, fun _ => by omega⟩

/-- The characters that are left once those of a list are deleted. -/
theorem replaceChars_char (c : Char) (cs : List Char) :
    replaceChars c.toString.toList [] cs = cs.filter (· ≠ c) := by
  have hc : c.toString.toList = [c] := by simp [Char.toString]
  rw [hc, replaceChars, if_neg (List.cons_ne_nil c []), Sql.replaceOccurrences_drop]

theorem take_eq_iff_startsWithText (s t : String) :
    s.toList.take t.toList.length = t.toList ↔ startsWithText s t = true := by
  rw [startsWithText, List.isPrefixOf_iff_prefix, List.prefix_iff_eq_take, eq_comm]

section Dialects

variable {dialect : Dialect} {cs : List Char}

theorem length_substrFrom_le (start : Int) : (dialect.substrFrom cs start).length ≤ cs.length := by
  rw [Dialect.substrFrom.eq_def]
  split
  · rw [List.length_drop]
    omega
  · cases dialect
    · simp only
      split
      · exact le_rfl
      · rw [List.length_drop]
        omega
    · exact le_rfl
    · simp only
      split
      · exact Nat.zero_le _
      · rw [List.length_drop]
        omega

/-- The end of a receiver that is shorter than the needle is not the needle, wherever a store
starts to read it. -/
theorem substrFrom_eq_iff_endsWithText (s t : String) :
    dialect.substrFrom s.toList (s.toList.length - t.toList.length + 1) = t.toList ↔
      endsWithText s t = true := by
  rw [endsWithText, List.isSuffixOf_iff_suffix]
  by_cases hle : t.toList.length ≤ s.toList.length
  · have hstart : ((s.toList.length : Int) - t.toList.length + 1 - 1).toNat =
        s.toList.length - t.toList.length := by omega
    rw [Dialect.substrFrom.eq_def, if_pos (by omega), hstart, List.suffix_iff_eq_drop, eq_comm]
  · constructor
    · intro h
      have hlength : (dialect.substrFrom s.toList _).length ≤ s.toList.length :=
        length_substrFrom_le (s.toList.length - t.toList.length + 1)
      rw [h] at hlength
      exact absurd hlength hle
    · intro h
      exact absurd h.length_le hle

end Dialects

/-! ## The conditions in a row -/

section Conditions

variable {engine : Engine} {row : String → Scalar}

/-- An operand holds a text, or NULL where it can. -/
inductive NullableExpression.Holds (engine : Engine) (row : String → Scalar)
    (x : NullableExpression) : Option String → Prop
  | text {s : String} (h : x.expr.eval engine row = .text s) : Holds engine row x (some s)
  | null (h : x.expr.eval engine row = .null) (hnull : x.canBeNull = true) :
      Holds engine row x none

variable {receiver needle : NullableExpression} {r n : Option String}

theorem NullableExpression.Holds.isNull_eq (h : receiver.Holds engine row r) :
    (receiver.expr.eval engine row).isNull = r.isNone := by
  cases h with
  | text h => rw [h]; rfl
  | null h _ => rw [h]; rfl

/-- The null guard asks for each NULL that there can be. -/
theorem truth_guarded (hr : receiver.Holds engine row r) (hn : needle.Holds engine row n)
    (body : SQL) :
    (withNullGuard (buildNullGuard [receiver, needle]) body).truth engine row =
      if r.isNone || n.isNone then .unknown else body.truth engine row := by
  have hrnull := hr.isNull_eq
  have hnnull := hn.isNull_eq
  have hrpresent : receiver.canBeNull = false → r.isNone = false := by
    intro h
    cases hr with
    | text _ => rfl
    | null _ hnull => rw [h] at hnull; cases hnull
  have hnpresent : needle.canBeNull = false → n.isNone = false := by
    intro h
    cases hn with
    | text _ => rfl
    | null _ hnull => rw [h] at hnull; cases hnull
  cases hrflag : receiver.canBeNull <;> cases hnflag : needle.canBeNull <;>
    simp [buildNullGuard, withNullGuard, hrflag, hnflag, SQL.truth_caseWhen, SQL.truth_anyOf, Truth.any, hrnull,
      hnnull, hrpresent, hnpresent]

theorem NullableExpression.Holds.eval_eq {s : String} (h : receiver.Holds engine row (some s)) :
    receiver.expr.eval engine row = .text s := by
  cases h with
  | text h => exact h

theorem truth_containsBody {s t : String} (hr : receiver.expr.eval engine row = .text s)
    (hn : needle.expr.eval engine row = .text t) :
    (SQL.caseWhen (.compare .eq needle.expr (.text "")) (.ofBool true)
      (.compare .lt (.length (.replace receiver.expr needle.expr (.text "")))
        (.length receiver.expr))).truth engine row = .ofBool (includesText s t) := by
  rw [SQL.truth_caseWhen, SQL.truth_compare, hn, SQL.eval_text, Engine.compare_text_eq,
    includesText_eq]
  by_cases ht : t = ""
  · subst ht
    simp
  · have hne : t.toList ≠ [] := by simpa using ht
    have hshorter := (length_replaceOccurrences hne s.toList 0).2 rfl
    rw [if_neg (by simp [ht]), SQL.truth_compare]
    simp only [SQL.eval, hr, hn, SQL.eval_text, Scalar.onText_text, Scalar.onText_chars,
      Engine.compare_integer, ComparisonOperator.test, Double.lt_finite]
    congr 1
    rw [decide_eq_decide, ← hshorter, replaceChars, if_neg hne]
    simp

/-- The three tests of a present receiver and needle. -/
theorem truth_stringMatch_text {s t : String} (operator : StringMatchOperator)
    (hr : receiver.Holds engine row (some s)) (hn : needle.Holds engine row (some t)) :
    (buildStringMatchCondition operator receiver needle).truth engine row =
      .ofBool (operator.holds s t) := by
  have hreceiver := hr.eval_eq
  have hneedle := hn.eval_eq
  cases operator with
  | contains =>
      refine (truth_guarded hr hn _).trans ?_
      exact truth_containsBody hreceiver hneedle
  | startsWith =>
      have hpart : ((SQL.substring receiver.expr (.integer 1) (.length needle.expr)).eval engine row) =
          .chars (s.toList.take t.toList.length) := by
        simp [SQL.eval, hreceiver, hneedle, Dialect.substrCount]
      rw [buildStringMatchCondition, SQL.truth_compare, hpart, hneedle,
        show Scalar.text t = .chars t.toList by rw [Scalar.chars, String.ofList_toList],
        Engine.compare_chars_eq]
      congr 1
      rw [StringMatchOperator.holds, Bool.eq_iff_iff, decide_eq_true_iff,
        take_eq_iff_startsWithText]
  | endsWith =>
      have hpart : ((SQL.substr receiver.expr (.add (.sub (.length receiver.expr)
          (.length needle.expr)) (.integer 1))).eval engine row) =
          .chars (engine.dialect.substrFrom s.toList
            (s.toList.length - t.toList.length + 1)) := by
        simp [SQL.eval, hreceiver, hneedle]
      rw [buildStringMatchCondition, SQL.truth_compare, hpart, hneedle,
        show Scalar.text t = .chars t.toList by rw [Scalar.chars, String.ofList_toList],
        Engine.compare_chars_eq]
      congr 1
      rw [StringMatchOperator.holds, Bool.eq_iff_iff, decide_eq_true_iff,
        substrFrom_eq_iff_endsWithText]

/-- The three tests of a missing receiver or needle. -/
theorem truth_stringMatch_null (operator : StringMatchOperator)
    (hr : receiver.Holds engine row r) (hn : needle.Holds engine row n)
    (hnull : (r.isNone || n.isNone) = true) :
    (buildStringMatchCondition operator receiver needle).truth engine row = .unknown := by
  cases operator with
  | contains =>
      refine (truth_guarded hr hn _).trans ?_
      rw [if_pos hnull]
  | startsWith =>
      rw [buildStringMatchCondition, SQL.truth_compare]
      cases hr with
      | null hreceiver _ => simp [SQL.eval, hreceiver]
      | text hreceiver =>
          cases hn with
          | null hneedle _ => simp [SQL.eval, hreceiver, hneedle]
          | text _ => cases hnull
  | endsWith =>
      rw [buildStringMatchCondition, SQL.truth_compare]
      cases hr with
      | null hreceiver _ => simp [SQL.eval, hreceiver]
      | text hreceiver =>
          cases hn with
          | null hneedle _ => simp [SQL.eval, hneedle]
          | text _ => cases hnull

/-! ## The plans of a pattern -/

variable {expr : SQL} {s : String}

theorem truth_atLeast (hexpr : expr.eval engine row = .text s) (characters : Nat) :
    Truth.all ((atLeast expr characters).map (·.truth engine row)) =
      .ofBool (decide (characters ≤ s.length)) := by
  rw [atLeast]
  split
  · simp [Truth.all, SQL.eval, hexpr, ComparisonOperator.test, String.length_toList]
  next h =>
    have hzero : characters = 0 := by omega
    simp [hzero, Truth.all]

/-- What is left of a text once the characters of a list are deleted in turn. -/
theorem eval_deletions (characters : List Char) (cs : List Char)
    (hexpr : expr.eval engine row = .chars cs) :
    (characters.foldl (fun current character =>
      SQL.replace current (.text character.toString) (.text "")) expr).eval engine row =
      .chars (cs.filter (· ∉ characters)) := by
  induction characters generalizing expr cs with
  | nil => simpa using hexpr
  | cons character characters ih =>
      rw [List.foldl_cons, ih (cs.filter (· ≠ character))]
      · rw [List.filter_filter]
        congr 1
        refine List.filter_congr ?_
        intro c _
        simp only [List.mem_cons, not_or, Bool.decide_and, ne_eq]
        exact Bool.and_comm _ _
      · simp only [SQL.eval, hexpr, SQL.eval_text, Scalar.onText_chars, Scalar.onText_text]
        rw [String.toList_empty, replaceChars_char]

theorem truth_anyOf_ofBool {α : Type} (xs : List α) (f : α → SQL) (p : α → Bool)
    (h : ∀ x ∈ xs, (f x).truth engine row = .ofBool (p x)) :
    (SQL.anyOf (xs.map f)).truth engine row = .ofBool (xs.any p) := by
  rw [SQL.truth_anyOf, List.map_map]
  induction xs with
  | nil => rfl
  | cons x xs ih =>
      obtain ⟨hx, hrest⟩ := List.forall_mem_cons.mp h
      rw [List.map_cons, Truth.any_cons, ih hrest, Function.comp_apply, hx, Truth.or_ofBool,
        List.any_cons]

/-- A literal in a text that is there. -/
theorem truth_matchLiteral (hexpr : expr.eval engine row = .text s)
    (operator : StringMatchOperator) (literal : String) :
    (buildStringMatchCondition operator (columnExpression expr)
      (constantExpression (.text literal))).truth engine row =
      .ofBool (operator.holds s literal) := by
  apply truth_stringMatch_text
  · exact .text hexpr
  · exact .text rfl

theorem truth_noNewline (hexpr : expr.eval engine row = .text s) :
    (SQL.not (buildStringMatchCondition .contains (columnExpression expr)
      (constantExpression (.text "\n")))).truth engine row =
      .ofBool (s.toList.all (· ≠ '\n')) := by
  rw [SQL.truth_not, truth_matchLiteral hexpr, StringMatchOperator.holds, includesText_eq,
    Truth.not_ofBool]
  congr 1
  have hliteral : "\n".toList = ['\n'] := rfl
  have hinfix : "\n".toList <:+: s.toList ↔ '\n' ∈ s.toList := by
    rw [hliteral, List.singleton_infix_iff]
  rw [Bool.eq_iff_iff, List.all_eq_true, Bool.not_eq_true', decide_eq_false_iff_not, hinfix]
  constructor
  · intro habsent c hc
    exact decide_eq_true (ne_of_mem_of_not_mem hc habsent)
  · intro hall hmem
    exact absurd rfl (of_decide_eq_true (hall _ hmem))

/-- One plan, of a text that is there. -/
theorem truth_planCondition (hexpr : expr.eval engine row = .text s) (plan : RegexPlan) :
    (planCondition expr plan).truth engine row = .ofBool (plan.satisfied s) := by
  cases plan with
  | equals literals =>
      have hplan : planCondition expr (.equals literals) =
          .anyOf (literals.map fun literal => .compare .eq expr (.text literal)) := by
        simp only [planCondition, SQL.inList, List.map_map]
        rfl
      rw [hplan, truth_anyOf_ofBool literals _ (fun literal => decide (s = literal))]
      · rw [RegexPlan.satisfied, List.any_eq]
        simp
      · intro literal _
        rw [SQL.truth_compare, hexpr, SQL.eval_text, Engine.compare_text_eq]
  | literal kind literals =>
      rw [planCondition, truth_anyOf_ofBool literals _ (kind.holds s)]
      · rfl
      · intro literal _
        exact truth_matchLiteral hexpr kind literal
  | allCharactersIn characters min =>
      have hchars : expr.eval engine row = .chars s.toList := by
        rw [hexpr, Scalar.chars, String.ofList_toList]
      rw [planCondition, SQL.truth_allOf, List.map_cons, Truth.all_cons, truth_atLeast hexpr,
        SQL.truth_compare]
      simp only [SQL.eval, eval_deletions characters s.toList hchars, Scalar.onText_chars,
        SQL.eval_integer, Engine.compare_integer, ComparisonOperator.test, Truth.and_ofBool,
        RegexPlan.satisfied, Double.eq_finite]
      congr 2
      rw [Bool.eq_iff_iff, decide_eq_true_iff, List.all_eq_true]
      simp
  | noNewline min =>
      rw [planCondition, SQL.truth_allOf, List.map_cons, Truth.all_cons, truth_noNewline hexpr,
        truth_atLeast hexpr, Truth.and_ofBool]
      rfl
  | prefixSuffix pairs min =>
      rw [planCondition, SQL.truth_and, truth_noNewline hexpr, truth_anyOf_ofBool pairs _
        (fun pair => startsWithText s pair.1 && endsWithText s pair.2 &&
          decide (pair.1.length + min + pair.2.length ≤ s.length)), Truth.and_ofBool]
      · rfl
      · intro pair _
        rw [SQL.truth_allOf, List.map_cons, List.map_cons, Truth.all_cons, Truth.all_cons,
          truth_matchLiteral hexpr, truth_matchLiteral hexpr, truth_atLeast hexpr,
          Truth.and_ofBool, Truth.and_ofBool, Bool.and_assoc]
        rfl

/-- The pattern, of a text that is there. -/
theorem truth_matches_text (hexpr : expr.eval engine row = .text s) (plans : List RegexPlan) :
    (buildMatchesFilter expr plans).truth engine row = .ofBool (plans.any (·.satisfied s)) := by
  rw [buildMatchesFilter, SQL.truth_caseWhen, SQL.truth_isNull, hexpr, Scalar.isNull_text,
    if_neg (by decide)]
  apply truth_anyOf_ofBool
  intro plan _
  exact truth_planCondition hexpr plan

theorem truth_matches_null (hexpr : expr.eval engine row = .null) (plans : List RegexPlan) :
    (buildMatchesFilter expr plans).truth engine row = .unknown := by
  rw [buildMatchesFilter, SQL.truth_caseWhen, SQL.truth_isNull, hexpr, Scalar.isNull_null]
  rfl

end Conditions

/-- Every string test that the adapter emits decides, in every row of every store, what the test
says of the texts, and is UNKNOWN where one of them is NULL. -/
theorem stringTests_decide (engine : Engine) (row : String → Scalar) :
    (∀ (operator : StringMatchOperator) (receiver needle : NullableExpression)
        (r n : Option String), receiver.Holds engine row r → needle.Holds engine row n →
      (∀ s t, r = some s → n = some t →
        (buildStringMatchCondition operator receiver needle).truth engine row =
          .ofBool (operator.holds s t)) ∧
      (r = none ∨ n = none →
        (buildStringMatchCondition operator receiver needle).truth engine row = .unknown)) ∧
    ∀ (expr : SQL) (plans : List RegexPlan),
      (∀ s, expr.eval engine row = .text s →
        (buildMatchesFilter expr plans).truth engine row = .ofBool (plans.any (·.satisfied s))) ∧
      (expr.eval engine row = .null → (buildMatchesFilter expr plans).truth engine row = .unknown) := by
  refine ⟨?_, ?_⟩
  · intro operator receiver needle r n hr hn
    refine ⟨?_, ?_⟩
    · rintro s t rfl rfl
      exact truth_stringMatch_text operator hr hn
    · intro hnull
      apply truth_stringMatch_null operator hr hn
      rcases hnull with rfl | rfl
      · rfl
      · rw [Option.isNone_none, Bool.or_true]
  · intro expr plans
    refine ⟨?_, ?_⟩
    · intro s hexpr
      exact truth_matches_text hexpr plans
    · intro hexpr
      exact truth_matches_null hexpr plans

/-- A needle longer than its receiver is not its end for MySQL, which reads nothing there. -/
theorem stringTests_decide_column :
    let engine : Engine := ⟨.mysql, fun _ _ _ => .no, fun _ => .integer 0⟩
    let row : String → Scalar := fun name => if name = "title" then .text "aba" else .null
    (buildStringMatchCondition .endsWith (columnExpression (.column "title"))
        (constantExpression (.text "baba"))).truth engine row = .no ∧
      (buildStringMatchCondition .contains (columnExpression (.column "title"))
        (columnExpression (.column "owner"))).truth engine row = .unknown ∧
      (buildMatchesFilter (.column "title") [.prefixSuffix [("ab", "ba")] 0]).truth engine row =
        .no ∧
      (buildMatchesFilter (.column "owner") [.noNewline 1]).truth engine row = .unknown := by
  intro engine row
  have htitle : (SQL.column "title").eval engine row = .text "aba" := rfl
  have howner : (SQL.column "owner").eval engine row = .null := rfl
  refine ⟨?_, ?_, ?_, ?_⟩
  · rw [((stringTests_decide engine row).1 .endsWith _ _ (some "aba") (some "baba") (.text htitle)
      (.text rfl)).1 _ _ rfl rfl]
    decide
  · exact ((stringTests_decide engine row).1 .contains _ _ (some "aba") none (.text htitle)
      (.null howner rfl)).2 (.inr rfl)
  · rw [((stringTests_decide engine row).2 _ _).1 "aba" htitle]
    decide
  · exact ((stringTests_decide engine row).2 _ _).2 howner

end QueryPlanAdapters.Drizzle
