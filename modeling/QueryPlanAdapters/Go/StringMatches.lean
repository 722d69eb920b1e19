import QueryPlanAdapters.Go.Semantics
import QueryPlanAdapters.Go.Values
import QueryPlanAdapters.Sql.Escape

/-!
# Go: string matches

A constant needle is escaped at translation time in one pass, a column's by the
database through four nested replacements. Both give one pattern, and a text is LIKE
it where it contains, starts with or ends with the needle.
-/

namespace QueryPlanAdapters.Go

open Sql

/-- The string matches of CEL. -/
inductive StringOperator where
  | contains | startsWith | endsWith
  deriving DecidableEq

namespace StringOperator

def sides : StringOperator → MatchSides
  | contains => .contains
  | startsWith => .startsWith
  | endsWith => .endsWith

/-- The match in CEL. -/
def test : StringOperator → (receiver needle : String) → Bool
  | contains, receiver, needle => includesText receiver needle
  | startsWith, receiver, needle => startsWithText receiver needle
  | endsWith, receiver, needle => endsWithText receiver needle

end StringOperator

/-! ## The pattern of a needle -/

/-- The characters that a LIKE pattern gives a meaning. -/
def likeSpecial : List Char :=
  [likeEscape, '%', '_', '[']

theorem toList_escapeLikeLiteral (needle : String) :
    (escapeLikeLiteral needle).toList = escapeEach likeEscape likeSpecial needle.toList := by
  rw [escapeLikeLiteral, String.toList_ofList, escapeEach]
  refine List.flatMap_congr fun c _ => ?_
  simp [likeSpecial]

/-- A pattern, open on the sides of a match. -/
def MatchSides.around (sides : MatchSides) (pattern : String) : String :=
  (if sides.openStart then "%" else "") ++ pattern ++ (if sides.openEnd then "%" else "")

theorem toList_around (sides : MatchSides) (pattern : String) :
    (sides.around pattern).toList =
      (if sides.openStart then ['%'] else []) ++
        (pattern.toList ++ if sides.openEnd then ['%'] else []) := by
  rw [MatchSides.around, String.toList_append, String.toList_append, List.append_assoc]
  cases sides.openStart <;> cases sides.openEnd <;> rfl

/-- No bracket of a needle's pattern opens a character class. -/
theorem bracketsEscaped_around (sides : MatchSides) (needle : String) :
    bracketsEscaped likeEscape (sides.around (escapeLikeLiteral needle)).toList = true := by
  have hneedle (rest : List Char) := @bracketsEscaped_escapeEach likeEscape likeSpecial
    (by decide) (by decide) needle.toList rest
  rw [toList_around, toList_escapeLikeLiteral]
  cases sides.openStart
  · rw [if_neg (by decide), List.nil_append, hneedle]
    cases sides.openEnd <;> rfl
  · rw [if_pos rfl, List.singleton_append, bracketsEscaped_plain (by decide) (by decide), hneedle]
    cases sides.openEnd <;> rfl

/-- The texts a needle's pattern finds. -/
theorem likeMatches_around (operator : StringOperator) (needle receiver : String) :
    likeMatches likeEscape (operator.sides.around (escapeLikeLiteral needle)) receiver =
      operator.test receiver needle := by
  have hneedle (rest : List Char) := @parseLike_escapeEach likeEscape likeSpecial
    (by decide) (by decide) (by decide) needle.toList rest
  have hrun (cs : List Char) : parseLike likeEscape ('%' :: cs) =
      (parseLike likeEscape cs).map (.run :: ·) := by
    cases cs <;> rfl
  rw [likeMatches, toList_around, toList_escapeLikeLiteral]
  cases operator with
  | contains =>
      show (parseLike likeEscape ('%' :: (_ ++ ['%']))).elim false _ = includesText receiver needle
      rw [hrun, hneedle]
      show likeParts (.run :: (_ ++ [.run])) _ = _
      simp only [likeParts_run_chars, likeParts_run, Bool.and_true]
      rfl
  | startsWith =>
      show (parseLike likeEscape (_ ++ ['%'])).elim false _ = startsWithText receiver needle
      rw [hneedle]
      show likeParts (_ ++ [.run]) _ = _
      rw [likeParts_chars, likeParts_run, Bool.and_true]
      rfl
  | endsWith =>
      show (parseLike likeEscape ('%' :: (_ ++ []))).elim false _ = endsWithText receiver needle
      rw [hrun, hneedle]
      show likeParts (.run :: (_ ++ [])) _ = _
      rw [List.append_nil, likeParts_run_ending]
      rfl

/-! ## Patterns in the database -/

section Patterns

variable {engine : Engine} {db : Database} {env : RowEnv}

/-- The replacement of one special character by the database. -/
theorem eval_replaceCall (hengine : TextEngine engine likeEscape) {x : Expr} {cs : List Char}
    (hx : x.eval engine db env = .text (String.ofList cs)) (c : Char) :
    (replaceCall x (String.ofList [c]) (String.ofList [likeEscape, c])).eval engine db env =
      .text (String.ofList (cs.flatMap fun d => if d = c then [likeEscape, c] else [d])) := by
  have hsource : String.ofList [c] ≠ "" := by
    rw [Ne, ← String.toList_inj, String.toList_ofList]
    rintro ⟨⟩
  have hcall : (replaceCall x (String.ofList [c]) (String.ofList [likeEscape, c])).eval
      engine db env = engine.replace (x.eval engine db env) (.text (String.ofList [c]))
        (.text (String.ofList [likeEscape, c])) := rfl
  rw [hcall, hx, hengine.replace_text _ _ _ hsource, replaceText, String.toList_ofList,
    String.toList_ofList, String.toList_ofList, replaceOccurrences_char]

/-- The four replacements escape a column's needle as a constant one is escaped. -/
theorem eval_escapeLikeColumn (hengine : TextEngine engine likeEscape) {x : Expr} {needle : String}
    (hx : x.eval engine db env = .text needle) :
    (escapeLikeColumn x).eval engine db env = .text (escapeLikeLiteral needle) := by
  have hx : x.eval engine db env = .text (String.ofList needle.toList) := by
    rw [hx, String.ofList_toList]
  have hescapes := eval_replaceCall hengine (eval_replaceCall hengine (eval_replaceCall hengine
    (eval_replaceCall hengine hx likeEscape) '%') '_') '['
  have hpasses := @escapeInTurn_eq_escapeEach likeEscape ['%', '_', '['] (by decide)
    needle.toList
  rw [escapeLikeColumn]
  refine hescapes.trans (congrArg SqlValue.text ?_)
  rw [← String.toList_inj, String.toList_ofList, toList_escapeLikeLiteral]
  exact hpasses

/-- The pattern of a needle that the database escapes. -/
theorem likePattern_expr (hengine : TextEngine engine likeEscape) (operator : StringOperator)
    {x : Expr} {needle : String} (hx : x.eval engine db env = .text needle) :
    ∃ pattern, likePattern (.expr x) operator.sides = .ok pattern ∧
      pattern.eval engine db env = .text (operator.sides.around (escapeLikeLiteral needle)) := by
  have hescaped := eval_escapeLikeColumn hengine hx
  have hconcat (a b : Expr) : (Expr.call .concat [a, b]).eval engine db env =
      engine.concat (a.eval engine db env) (b.eval engine db env) := rfl
  have hconcat₃ (a b c : Expr) : (Expr.call .concat [a, b, c]).eval engine db env =
      engine.concat (engine.concat (a.eval engine db env) (b.eval engine db env))
        (c.eval engine db env) := rfl
  have hpercent : (Expr.lit (.string "%")).eval engine db env = .text "%" := rfl
  cases operator with
  | contains =>
      refine ⟨.call .concat [.lit (.string "%"), escapeLikeColumn x, .lit (.string "%")], rfl, ?_⟩
      rw [hconcat₃, hescaped, hpercent, hengine.concat_text, hengine.concat_text]
      rfl
  | startsWith =>
      refine ⟨.call .concat [escapeLikeColumn x, .lit (.string "%")], rfl, ?_⟩
      rw [hconcat, hescaped, hpercent, hengine.concat_text]
      rw [MatchSides.around, String.append_assoc]
      exact congrArg SqlValue.text String.empty_append.symm
  | endsWith =>
      refine ⟨.call .concat [.lit (.string "%"), escapeLikeColumn x], rfl, ?_⟩
      rw [hconcat, hescaped, hpercent, hengine.concat_text]
      exact congrArg SqlValue.text String.append_empty.symm

/-- A needle's pattern, read from the database. -/
theorem truth_like_around (hengine : TextEngine engine likeEscape) (operator : StringOperator)
    {recv pattern : Expr} {receiver needle : String}
    (hrecv : recv.eval engine db env = .text receiver)
    (hpattern : pattern.eval engine db env =
      .text (operator.sides.around (escapeLikeLiteral needle))) :
    (Expr.like recv pattern).truth engine db env = .ofBool (operator.test receiver needle) := by
  have hlike : (Expr.like recv pattern).truth engine db env =
      engine.like (recv.eval engine db env) (pattern.eval engine db env) :=
    SqlValue.asTruth_ofTruth _
  rw [hlike, hrecv, hpattern,
    hengine.like_text _ _ (bracketsEscaped_around operator.sides needle), likeMatches_around]

/-- The pattern of a needle is one, whether it is escaped as a constant or by the
database, and it finds the texts that the match holds of. -/
theorem stringPatterns_match (hengine : TextEngine engine likeEscape) (operator : StringOperator)
    {recv x : Expr} {receiver needle : String} (hrecv : recv.eval engine db env = .text receiver)
    (hx : x.eval engine db env = .text needle) :
    (escapeLikeColumn x).eval engine db env = .text (escapeLikeLiteral needle) ∧
      ∃ constant column,
        likePattern (.constant (.string needle)) operator.sides = .ok constant ∧
        likePattern (.expr x) operator.sides = .ok column ∧
        column.eval engine db env = constant.eval engine db env ∧
        (Expr.like recv constant).truth engine db env =
          .ofBool (operator.test receiver needle) ∧
        (Expr.like recv column).truth engine db env =
          .ofBool (operator.test receiver needle) := by
  obtain ⟨column, hcolumn, hpattern⟩ := likePattern_expr hengine operator hx
  exact ⟨eval_escapeLikeColumn hengine hx, .lit (.string _), column, rfl, hcolumn, hpattern,
    truth_like_around hengine operator hrecv rfl, truth_like_around hengine operator hrecv hpattern⟩

end Patterns

/-! An engine with the standard functions, on texts made of special characters. -/

def textEngine : Engine :=
  { Engine.bare with
    like := fun receiver pattern =>
      match receiver, pattern with
      | .text receiver, .text pattern => .ofBool (likeMatches likeEscape pattern receiver)
      | _, _ => .unknown
    replace := fun text source target =>
      match text, source, target with
      | .text text, .text source, .text target => .text (replaceText text source target)
      | _, _, _ => .null
    concat := fun a b =>
      match a, b with
      | .text a, .text b => .text (a ++ b)
      | _, _ => .null }

theorem textEngine_standard : TextEngine textEngine likeEscape :=
  ⟨fun _ _ _ => rfl, fun _ _ _ _ => rfl, fun _ _ => rfl⟩

/-- A row whose needle is `\%_[`, in a text that contains it. -/
def specialRow : RowEnv := fun _ column =>
  .text (if column = "needle" then "\\%_[" else "a\\%_[b")

theorem stringPatterns_match_special :
    (escapeLikeColumn (joinColumn "t" "needle")).eval textEngine (fun _ => []) specialRow =
        .text (escapeLikeLiteral "\\%_[") ∧
      ∃ constant column,
        likePattern (.constant (.string "\\%_[")) StringOperator.contains.sides = .ok constant ∧
        likePattern (.expr (joinColumn "t" "needle")) StringOperator.contains.sides = .ok column ∧
        column.eval textEngine (fun _ => []) specialRow =
          constant.eval textEngine (fun _ => []) specialRow ∧
        (Expr.like (joinColumn "t" "text") constant).truth textEngine (fun _ => []) specialRow =
          .ofBool (StringOperator.contains.test "a\\%_[b" "\\%_[") ∧
        (Expr.like (joinColumn "t" "text") column).truth textEngine (fun _ => []) specialRow =
          .ofBool (StringOperator.contains.test "a\\%_[b" "\\%_[") :=
  stringPatterns_match textEngine_standard .contains rfl rfl

end QueryPlanAdapters.Go
