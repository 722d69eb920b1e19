import QueryPlanAdapters.Sql.Value
import Mathlib.Data.List.Infix

/-!
# LIKE

A LIKE pattern stands for a text with gaps: `%` for any run of characters, `_` for
one, and any other character, or any character after the escape, for itself.
-/

namespace QueryPlanAdapters.Sql

inductive LikePart where
  | run
  | one
  | char (c : Char)

/-- Whether a text has the shape of a pattern. -/
def likeParts : List LikePart → List Char → Bool
  | [], cs => cs.isEmpty
  | .run :: parts, cs => cs.tails.any (likeParts parts)
  | .one :: parts, cs => !cs.isEmpty && likeParts parts cs.tail
  | .char c :: parts, cs => cs.head? = some c && likeParts parts cs.tail

/-- The parts of a pattern, unless it ends in the middle of an escape. -/
def parseLike (escape : Char) : List Char → Option (List LikePart)
  | [] => some []
  | [c] =>
      if c = escape then none
      else some [if c = '%' then .run else if c = '_' then .one else .char c]
  | c :: d :: cs =>
      if c = escape then (parseLike escape cs).map (.char d :: ·)
      else (parseLike escape (d :: cs)).map
        ((if c = '%' then .run else if c = '_' then .one else .char c) :: ·)

/-- `text LIKE pattern ESCAPE escape`. -/
def likeMatches (escape : Char) (pattern text : String) : Bool :=
  (parseLike escape pattern.toList).elim false (likeParts · text.toList)

/-- What an engine whose LIKE is the standard one answers. -/
structure StandardLike (engine : Engine) (escape : Char) : Prop where
  null_left (pattern : SqlValue) : engine.like .null pattern = .unknown
  text (text pattern : String) :
    engine.like (.text text) (.text pattern) = .ofBool (likeMatches escape pattern text)

/-- What an engine answers for the patterns without an escape or a character class, which
are alike with any escape character and none. -/
structure PlainLike (engine : Engine) : Prop where
  text (text pattern : String) (h : ∀ c ∈ pattern.toList, c ≠ '\\' ∧ c ≠ '[') :
    engine.like (.text text) (.text pattern) = .ofBool (likeMatches '\\' pattern text)

theorem parseLike_escape (escape c : Char) (cs : List Char) :
    parseLike escape (escape :: c :: cs) = (parseLike escape cs).map (.char c :: ·) := by
  rw [parseLike, if_pos rfl]

theorem parseLike_plain {escape c : Char} (hescape : c ≠ escape) (hrun : c ≠ '%')
    (hone : c ≠ '_') (cs : List Char) :
    parseLike escape (c :: cs) = (parseLike escape cs).map (.char c :: ·) := by
  cases cs <;> simp [parseLike, hescape, hrun, hone]

/-- A text without special characters stands for itself. -/
theorem parseLike_chars {escape : Char} {needle : List Char}
    (h : ∀ c ∈ needle, c ≠ escape ∧ c ≠ '%' ∧ c ≠ '_') (rest : List Char) :
    parseLike escape (needle ++ rest) = (parseLike escape rest).map (needle.map .char ++ ·) := by
  induction needle with
  | nil => exact Option.map_id'.symm
  | cons c needle ih =>
      obtain ⟨⟨hescape, hrun, hone⟩, hneedle⟩ := List.forall_mem_cons.mp h
      rw [List.cons_append, parseLike_plain hescape hrun hone, ih hneedle, Option.map_map]
      rfl

theorem likeParts_chars (needle : List Char) (parts : List LikePart) (cs : List Char) :
    likeParts (needle.map .char ++ parts) cs =
      (needle.isPrefixOf cs && likeParts parts (cs.drop needle.length)) := by
  induction needle generalizing cs with
  | nil => simp
  | cons c needle ih =>
      cases cs with
      | nil => rfl
      | cons c' cs =>
          rw [List.map_cons, List.cons_append, likeParts, List.tail_cons, ih]
          have hhead : (decide (some c' = some c)) = (c == c') := by
            rw [Bool.eq_iff_iff, decide_eq_true_eq, Option.some_inj, beq_iff_eq]
            exact eq_comm
          rw [List.isPrefixOf_cons_cons, List.head?_cons, List.length_cons, List.drop_succ_cons,
            Bool.and_assoc, hhead]

theorem likeParts_run (cs : List Char) : likeParts [.run] cs = true := by
  rw [likeParts, List.any_eq_true]
  exact ⟨[], (List.mem_tails ..).mpr (List.nil_suffix ..), rfl⟩

/-- A text of plain characters and then `%` finds the texts that begin with it. -/
theorem likeMatches_plain_run {needle : String} (text : String)
    (h : ∀ c ∈ needle.toList, c ≠ '\\' ∧ c ≠ '%' ∧ c ≠ '_') :
    likeMatches '\\' (needle ++ "%") text = startsWithText text needle := by
  rw [likeMatches, String.toList_append, parseLike_chars h]
  show likeParts (needle.toList.map .char ++ [.run]) text.toList = startsWithText text needle
  rw [likeParts_chars, likeParts_run, Bool.and_true]
  rfl

/-- With `_` before it, those that go on after it. -/
theorem likeMatches_plain_one {needle : String} (text : String)
    (h : ∀ c ∈ needle.toList, c ≠ '\\' ∧ c ≠ '%' ∧ c ≠ '_') :
    likeMatches '\\' (needle ++ "_" ++ "%") text = true ↔
      ∃ c after, text.toList = needle.toList ++ c :: after := by
  rw [likeMatches, String.toList_append, String.toList_append, List.append_assoc, parseLike_chars h]
  show likeParts (needle.toList.map .char ++ [.one, .run]) text.toList = true ↔ _
  rw [likeParts_chars, likeParts, likeParts_run, Bool.and_true, Bool.and_eq_true,
    List.isPrefixOf_iff_prefix, Bool.not_eq_true', List.isEmpty_eq_false_iff]
  constructor
  · rintro ⟨⟨after, hafter⟩, hmore⟩
    rw [← hafter, List.drop_left] at hmore
    obtain ⟨c, rest, rfl⟩ := List.exists_cons_of_ne_nil hmore
    exact ⟨c, rest, hafter.symm⟩
  · rintro ⟨c, after, htext⟩
    rw [htext, List.drop_left]
    exact ⟨List.prefix_append .., List.cons_ne_nil c after⟩

end QueryPlanAdapters.Sql
