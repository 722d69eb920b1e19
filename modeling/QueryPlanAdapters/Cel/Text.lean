import QueryPlanAdapters.Plan

/-!
# Texts

A text is a sequence of Unicode code points. The string methods of the two
in-memory evaluators are stated over its characters, as are the regular
expressions a post-filter answers without a regex engine.
-/

namespace QueryPlanAdapters

/-- `receiver.includes(needle)`. -/
def includesText (receiver needle : String) : Bool :=
  receiver.toList.tails.any needle.toList.isPrefixOf

/-- `receiver.startsWith(start)`. -/
def startsWithText (receiver start : String) : Bool :=
  start.toList.isPrefixOf receiver.toList

/-- `receiver.endsWith(ending)`. -/
def endsWithText (receiver ending : String) : Bool :=
  ending.toList.isSuffixOf receiver.toList

/-- Fold the ASCII letters `a` to `z` and keep every other character. -/
def upperAscii (s : String) : String :=
  String.ofList <| s.toList.map fun c =>
    if 'a' ≤ c ∧ c ≤ 'z' then Char.ofNat (c.toNat - 32) else c

/-- Split at the non-overlapping occurrences of a nonempty separator, from the
left. `skip` characters of an occurrence just found are still to be dropped. -/
def splitOnText (separator : List Char) : (skip : Nat) → List Char → List (List Char)
  | _, [] => [[]]
  | skip + 1, _ :: cs => splitOnText separator skip cs
  | 0, c :: cs =>
      if separator.isPrefixOf (c :: cs) then
        [] :: splitOnText separator (separator.length - 1) cs
      else match splitOnText separator 0 cs with
        | [] => [[c]]
        | part :: parts => (c :: part) :: parts

/-- Split as Go's `strings.Split` does: an empty delimiter gives one part for
each code point. -/
def splitDelimited (value delimiter : String) : List String :=
  if delimiter = "" then value.toList.map fun c => String.ofList [c]
  else (splitOnText delimiter.toList 0 value.toList).map String.ofList

/-- Negative, zero or positive as `a` orders before, with or after `b` by
Unicode code point. -/
def compareCodePoints : (a b : List Char) → Int
  | [], [] => 0
  | [], _ :: _ => -1
  | _ :: _, [] => 1
  | x :: xs, y :: ys =>
      if x ≠ y then if x.val < y.val then -1 else 1 else compareCodePoints xs ys

theorem compareCodePoints_neg (as bs : List Char) :
    compareCodePoints bs as = -compareCodePoints as bs := by
  induction as generalizing bs with
  | nil => cases bs <;> simp [compareCodePoints]
  | cons a as ih =>
      cases bs with
      | nil => simp [compareCodePoints]
      | cons b bs =>
          by_cases hab : a = b
          · simp [compareCodePoints, hab, ih]
          · have hval : a.val ≠ b.val := fun h => hab (Char.ext h)
            have hba : b ≠ a := fun h => hab h.symm
            rcases UInt32.lt_or_lt_of_ne hval with h | h
            · simp [compareCodePoints, hab, hba, h, UInt32.lt_asymm h]
            · simp [compareCodePoints, hab, hba, h, UInt32.lt_asymm h]

theorem compareCodePoints_eq_zero_iff {as bs : List Char} :
    compareCodePoints as bs = 0 ↔ as = bs := by
  induction as generalizing bs with
  | nil => cases bs <;> simp [compareCodePoints]
  | cons a as ih =>
      cases bs with
      | nil => simp [compareCodePoints]
      | cons b bs =>
          by_cases hab : a = b
          · simp [compareCodePoints, hab, ih]
          · simp only [compareCodePoints, hab, ne_eq, not_false_eq_true, if_true, List.cons.injEq,
              false_and, iff_false]
            split <;> decide

def isDigit (c : Char) : Bool :=
  '0' ≤ c && c ≤ '9'

def digitValue (c : Char) : Nat :=
  c.toNat - 48

/-- The number a sequence of decimal digits spells. -/
def decimalValue (cs : List Char) : Nat :=
  cs.foldl (fun n c => n * 10 + digitValue c) 0

/-! ## The supported regular expressions -/

/-- A literal of plain characters, optionally anchored at either end or followed
by a trailing `.*`. -/
structure SafeRegexPattern where
  literal : String
  anchoredStart : Bool
  anchoredEnd : Bool
  trailingWildcard : Bool
  deriving DecidableEq, Repr

def isPlainCharacter (c : Char) : Bool :=
  ('A' ≤ c && c ≤ 'Z') || ('a' ≤ c && c ≤ 'z') || isDigit c || [' ', '_', ':', '/', '-'].contains c

/-- Drop a fixed text from the front of another, reporting whether it was there. -/
def takeOptional (text cs : List Char) : Bool × List Char :=
  if text.isPrefixOf cs then (true, cs.drop text.length) else (false, cs)

def parseSafeRegexPattern (pattern : String) : Option SafeRegexPattern :=
  let (anchoredStart, rest) := takeOptional ['^'] pattern.toList
  let literal := rest.takeWhile isPlainCharacter
  let (trailingWildcard, rest) := takeOptional ['.', '*'] (rest.dropWhile isPlainCharacter)
  let (anchoredEnd, rest) := takeOptional ['$'] rest
  if literal.isEmpty || !rest.isEmpty || (trailingWildcard && anchoredEnd) then none
  else some { literal := String.ofList literal, anchoredStart, anchoredEnd, trailingWildcard }

def matchesSafeRegexPattern (receiver : String) (pattern : SafeRegexPattern) : Bool :=
  if pattern.anchoredStart && pattern.anchoredEnd then receiver = pattern.literal
  else if pattern.anchoredStart then startsWithText receiver pattern.literal
  else if pattern.anchoredEnd then endsWithText receiver pattern.literal
  else includesText receiver pattern.literal

example : (parseSafeRegexPattern "^ab.*").map (·.literal) = some "ab" := by decide

example : splitDelimited "a::b" "::" = ["a", "b"] := by decide

end QueryPlanAdapters
