import Mathlib.Data.List.Infix

/-!
# Regular expressions

An expression matches a stretch of a text, between what stands before it and after it, so that
an assertion can look at either side. A dialect spells expressions; the part of its syntax
without groups, classes, alternatives and counted repetitions is read here, and a pattern that
leaves this part is not.
-/

inductive Regex where
  | empty
  | assertion (holds : (before after : List Char) → Bool)
  | one (accepts : Char → Bool)
  | cat (r s : Regex)
  | alt (r s : Regex)
  | star (r : Regex)

namespace Regex

inductive Matches : Regex → (before matched after : List Char) → Prop where
  | empty (before after) : Matches empty before [] after
  | assertion {holds} {before after : List Char} (h : holds before after = true) :
      Matches (assertion holds) before [] after
  | one {accepts} {c : Char} (before after) (h : accepts c = true) :
      Matches (one accepts) before [c] after
  | cat {r s before xs ys after} (first : Matches r before xs (ys ++ after))
      (second : Matches s (before ++ xs) ys after) : Matches (cat r s) before (xs ++ ys) after
  | left {r s before xs after} (h : Matches r before xs after) : Matches (alt r s) before xs after
  | right {r s before xs after} (h : Matches s before xs after) : Matches (alt r s) before xs after
  | done {r} (before after) : Matches (star r) before [] after
  | again {r before xs ys after} (first : Matches r before xs (ys ++ after))
      (more : Matches (star r) (before ++ xs) ys after) : Matches (star r) before (xs ++ ys) after

/-- An unanchored search. -/
def Searches (r : Regex) (text : List Char) : Prop :=
  ∃ before matched after, text = before ++ matched ++ after ∧ Matches r before matched after

/-! ## The expressions of the common syntax -/

/-- `.`, any character but a line feed. -/
def dot : Regex := one (· ≠ '\n')

/-- `^`, the beginning of the text. -/
def atStart : Regex := assertion fun before _ => before.isEmpty

/-- The end of the text. -/
def atEnd : Regex := assertion fun _ after => after.isEmpty

/-- The end of the text, or of its last line. -/
def atLastLineEnd : Regex := assertion fun _ after => after.isEmpty || after = ['\n']

def char (c : Char) : Regex := one (· = c)

/-- A repeated expression. How greedy a repetition is decides which match is found first, and
not whether there is one. -/
def repeated (quantifier : Char) (r : Regex) : Regex :=
  if quantifier = '*' then star r
  else if quantifier = '+' then cat r (star r)
  else alt empty r

/-! ## Reading a pattern -/

structure Dialect where
  /-- An unescaped `$`. -/
  dollar : Regex
  /-- A backslash and the character behind it. -/
  escape : Char → Option Regex

/-- The last atom of a pattern, to which a quantifier behind it applies. -/
inductive Last where
  | nothing
  | atom (r : Regex)
  /-- A repetition, which a `?` makes lazy. -/
  | repetition (r : Regex)
  | lazy (r : Regex)

def Last.regex : Last → Regex
  | nothing => .empty
  | atom r | repetition r | lazy r => r

def isQuantifier (c : Char) : Bool :=
  ['*', '+', '?'].contains c

section Matches

variable {r s : Regex} {before xs after : List Char}

@[simp] theorem matches_empty : Matches empty before xs after ↔ xs = [] := by
  constructor
  · rintro ⟨⟩
    rfl
  · rintro rfl
    exact .empty before after

@[simp] theorem matches_atStart : Matches atStart before xs after ↔ xs = [] ∧ before = [] := by
  constructor
  · intro h
    cases h with
    | assertion h => exact ⟨rfl, List.isEmpty_iff.mp h⟩
  · rintro ⟨rfl, rfl⟩
    exact .assertion rfl

@[simp] theorem matches_atEnd : Matches atEnd before xs after ↔ xs = [] ∧ after = [] := by
  constructor
  · intro h
    cases h with
    | assertion h => exact ⟨rfl, List.isEmpty_iff.mp h⟩
  · rintro ⟨rfl, rfl⟩
    exact .assertion rfl

@[simp] theorem matches_char {c : Char} : Matches (char c) before xs after ↔ xs = [c] := by
  constructor
  · intro h
    cases h with
    | one _ _ h => rw [of_decide_eq_true h]
  · rintro rfl
    exact .one before after (decide_eq_true rfl)

theorem matches_cat : Matches (cat r s) before xs after ↔
    ∃ ys zs, xs = ys ++ zs ∧ Matches r before ys (zs ++ after) ∧
      Matches s (before ++ ys) zs after := by
  constructor
  · rintro ⟨⟩
    exact ⟨_, _, rfl, ‹_›, ‹_›⟩
  · rintro ⟨ys, zs, rfl, hr, hs⟩
    exact .cat hr hs

end Matches

/-! ## A text that spells itself -/

/-- An expression, then the characters of a text, then a last step. -/
def spelled (last : Regex → Regex) : Regex → List Char → Regex
  | r, [] => last r
  | r, c :: cs => cat r (spelled last (char c) cs)

/-- A spelled text matches itself behind what its first expression matches. -/
theorem matches_spelled {last : Regex → Regex} (ends : List Char → Prop)
    (hlast : ∀ r before xs after, Matches (last r) before xs after ↔
      Matches r before xs after ∧ ends after)
    (r : Regex) (cs before xs after : List Char) :
    Matches (spelled last r cs) before xs after ↔
      ∃ ys, xs = ys ++ cs ∧ Matches r before ys (cs ++ after) ∧ ends after := by
  induction cs generalizing r before xs with
  | nil => simp [spelled, hlast]
  | cons c cs ih =>
      rw [spelled, matches_cat]
      constructor
      · rintro ⟨ys, zs, rfl, hr, hrest⟩
        obtain ⟨ws, rfl, hc, hends⟩ := (ih ..).mp hrest
        obtain rfl := matches_char.mp hc
        exact ⟨ys, rfl, hr, hends⟩
      · rintro ⟨ys, rfl, hr, hends⟩
        exact ⟨ys, c :: cs, rfl, hr, (ih ..).mpr ⟨[c], rfl, matches_char.mpr rfl, hends⟩⟩

namespace Dialect

variable (d : Dialect)

def atom (c : Char) : Regex :=
  if c = '.' then dot else if c = '^' then atStart else if c = '$' then d.dollar else char c

/-- The expression of a pattern behind its last atom, none for one that is not valid or not of
the common syntax. -/
def parseFrom : (last : Last) → List Char → Option Regex
  | last, [] => some last.regex
  | _, ['\\'] => none
  | last, '\\' :: c :: cs => do
      let r ← d.escape c
      return cat last.regex (← parseFrom (.atom r) cs)
  | last, c :: cs =>
      if isQuantifier c then
        match last with
        | .atom r => parseFrom (.repetition (repeated c r)) cs
        | .repetition r => if c = '?' then parseFrom (.lazy r) cs else none
        | .nothing | .lazy _ => none
      else if ['(', ')', '[', '\x7b', '|'].contains c then none
      else do return cat last.regex (← parseFrom (.atom (d.atom c)) cs)

def parse (pattern : List Char) : Option Regex :=
  d.parseFrom .nothing pattern

/-- A punctuation mark or other character of ASCII that is no letter and no digit. -/
def escapedLiteral (c : Char) : Option Regex :=
  if c.toNat < 128 && !c.isAlphanum then some (char c) else none

/-- RE2 without flags: `$` is the end of the text. -/
def re2 : Dialect where
  dollar := atEnd
  escape := escapedLiteral

/-- PCRE2 without options: `$` is also before a last line feed, and `\z` the end of the text. -/
def pcre2 : Dialect where
  dollar := atLastLineEnd
  escape c := if c = 'z' then some atEnd else escapedLiteral c

section Parse

variable {d} {last : Last} {c : Char} {r : Regex} {cs : List Char}

theorem parseFrom_escaped (hescape : d.escape c = some r) :
    d.parseFrom last ('\\' :: c :: cs) = (d.parseFrom (.atom r) cs).map (cat last.regex) := by
  rw [parseFrom, hescape]
  show (d.parseFrom (.atom r) cs).bind (fun rest => some (cat last.regex rest)) = _
  cases d.parseFrom (.atom r) cs <;> rfl

theorem parseFrom_atom (hbackslash : c ≠ '\\') (hquantifier : isQuantifier c = false)
    (hspelled : ['(', ')', '[', '\x7b', '|'].contains c = false) :
    d.parseFrom last (c :: cs) = (d.parseFrom (.atom (d.atom c)) cs).map (cat last.regex) := by
  rw [parseFrom.eq_def]
  split
  next h => cases h
  next h => exact (hbackslash (List.cons.inj h).1).elim
  next h => exact (hbackslash (List.cons.inj h).1).elim
  next c' cs' hnone hsome h =>
    obtain ⟨rfl, rfl⟩ := List.cons.inj h
    rw [hquantifier, hspelled]
    cases d.parseFrom (.atom (d.atom c)) cs <;> rfl

theorem parseFrom_quantifier (hquantifier : isQuantifier c = true) :
    d.parseFrom (.atom r) (c :: cs) = d.parseFrom (.repetition (repeated c r)) cs := by
  have hbackslash : c ≠ '\\' := by
    rintro rfl
    cases hquantifier
  rw [parseFrom.eq_def]
  split
  next h => cases h
  next h => exact (hbackslash (List.cons.inj h).1).elim
  next h => exact (hbackslash (List.cons.inj h).1).elim
  next c' cs' hnone hsome h =>
    obtain ⟨rfl, rfl⟩ := List.cons.inj h
    rw [hquantifier]
    rfl

end Parse

end Dialect

end Regex
