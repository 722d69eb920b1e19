import QueryPlanAdapters.Elasticsearch.PlanValues

/-!
# Elasticsearch: regular expressions

`matches()` becomes a `prefix` query for a plain `^literal`, and otherwise a `regexp`
query over a fully anchored pattern. One scan of the body checks its syntax, writes it in
Lucene's, and counts the copies its repetitions make against RE2's bound.
-/

namespace QueryPlanAdapters.Elasticsearch

/-- The JDK's Unicode tables, of which only the ASCII part is fixed here. -/
class JavaCharacter where
  isLetterOrDigit : Char → Bool
  isDigit : Char → Bool
  isLetterOrDigit_ascii : ∀ c : Char, c.toNat < 128 → isLetterOrDigit c = c.isAlphanum
  isDigit_ascii : ∀ c : Char, c.toNat < 128 → isDigit c = c.isDigit

/-- RE2's bound on the copies a counted repetition, nested ones included, may make. -/
def maxRepeat : Nat := 1000

def isEscaped (value : List Char) (index : Nat) : Bool :=
  ((value.take index).reverse.takeWhile (· = '\\')).length % 2 ≠ 0

def isPlainRegexLiteral (pattern : List Char) : Bool :=
  pattern.all fun c => !(['\\', '.', '[', ']', '(', ')', '{', '}', '?', '*', '+', '|', '^', '$'].contains c)

def unsupportedRegexSyntax {α : Type} (pattern : String) (index : Nat) : Translation α :=
  unsupported ("matches regex uses syntax outside the supported RE2/Lucene subset at index " ++
    toString index ++ ": " ++ pattern)

/-! ## Intervals -/

section Intervals

variable [JavaCharacter]

/-- What stands between the brace before `cs` and the one that closes a `{n}`, `{n,}` or
`{n,m}`. -/
def intervalText (cs : List Char) : Option (List Char) :=
  let first := cs.takeWhile JavaCharacter.isDigit
  if first.isEmpty then none
  else match cs.dropWhile JavaCharacter.isDigit with
    | '}' :: _ => some first
    | ',' :: cs =>
        let second := cs.takeWhile JavaCharacter.isDigit
        match cs.dropWhile JavaCharacter.isDigit with
        | '}' :: _ => some (first ++ ',' :: second)
        | _ => none
    | _ => none

end Intervals

/-- `0|[1-9][0-9]*` -/
def isCount : List Char → Bool
  | ['0'] => true
  | c :: cs => '1' ≤ c && c ≤ '9' && cs.all isDigit
  | [] => false

/-- `(0|[1-9][0-9]*)(,(0|[1-9][0-9]*)?)?` -/
def isInterval (interval : List Char) : Bool :=
  isCount (interval.takeWhile (· ≠ ',')) &&
    match interval.dropWhile (· ≠ ',') with
    | [] => true
    | _ :: second => second.isEmpty || isCount second

/-- The count charged for an interval's body: its maximum, or its minimum when unbounded. -/
def repeatCount (interval : List Char) : Nat :=
  let count := match interval.dropWhile (· ≠ ',') with
    | [] | [_] => interval.takeWhile (· ≠ ',')
    | _ :: second => second
  if 4 < count.length then maxRepeat + 1 else decimalValue count

/-! ## The scan -/

structure Scan where
  translated : List Char
  escaped : Bool
  inCharacterClass : Bool
  depth : Nat
  /-- The copies of the enclosing groups, the innermost first. -/
  enclosingCopies : List Nat
  /-- The most copies any atom of the current group makes. -/
  groupCopies : Nat
  /-- The copies of the last atom. -/
  atomCopies : Nat
  /-- The group's copies before its last atom, when that atom is a group. -/
  copiesBeforeLastGroup : Option Nat

namespace Scan

def start : Scan where
  translated := []
  escaped := false
  inCharacterClass := false
  depth := 0
  enclosingCopies := []
  groupCopies := 1
  atomCopies := 1
  copiesBeforeLastGroup := none

/-- Write characters out. -/
def append (s : Scan) (cs : List Char) : Scan :=
  { s with translated := s.translated ++ cs }

/-- The last atom is one character or class. -/
def singleAtom (s : Scan) : Scan :=
  { s with atomCopies := 1, copiesBeforeLastGroup := none }

/-- A quote is an operator of Lucene's, and a literal of RE2's. -/
def quoted (c : Char) : List Char :=
  if c = '"' then ['\\', '"'] else [c]

section Step

variable [JavaCharacter] (pattern : String) (index : Nat)

/-- A repetition, with how many characters behind its brace it takes. -/
def interval (s : Scan) (cs : List Char) : Translation (Scan × Nat) :=
  match intervalText cs with
  | none =>
      unsupported ("matches regex has a brace at index " ++ toString index ++ " that does not begin " ++
        "a \x7bn\x7d, \x7bn,\x7d or \x7bn,m\x7d repetition, which Lucene rejects at query time: " ++ pattern)
  | some text =>
      let written := s.append ('{' :: (text ++ ['}']))
      if !isInterval text then
        unsupported ("matches regex has a brace at index " ++ toString index ++ " whose count has a " ++
          "leading zero, which RE2 reads as literal text and Lucene as a repetition: " ++ pattern)
      else if text = ['0'] || text = ['0', ',', '0'] then
        -- Nothing is copied, so the group before it does not count either.
        .ok ({ written with
          groupCopies := s.copiesBeforeLastGroup.getD s.groupCopies
          atomCopies := 0 }, text.length + 1)
      else
        let atomCopies := s.atomCopies * repeatCount text
        if maxRepeat < atomCopies then
          unsupported ("matches regex has a repetition at index " ++ toString index ++ " whose nested " ++
            "copies exceed RE2's bound of " ++ toString maxRepeat ++ ", so RE2 rejects the pattern " ++
            "and CEL's matches() errors; Lucene would accept it: " ++ pattern)
        else
          .ok ({ written with
            groupCopies := max s.groupCopies atomCopies
            atomCopies }, text.length + 1)

/-- One character, with how many behind it are taken too. -/
def step (s : Scan) (c : Char) (cs : List Char) : Translation (Scan × Nat) :=
  if s.escaped then
    if JavaCharacter.isLetterOrDigit c then unsupportedRegexSyntax pattern (index - 1)
    else .ok ({ (s.append ['\\', c]).singleAtom with escaped := false }, 0)
  else if c = '\\' then .ok ({ s with escaped := true }, 0)
  else if c = '[' then
    if s.inCharacterClass then unsupportedRegexSyntax pattern index
    else .ok ({ s.append [c] with inCharacterClass := true }, 0)
  else if c = ']' then
    if !s.inCharacterClass then unsupportedRegexSyntax pattern index
    else .ok ({ (s.append [c]).singleAtom with inCharacterClass := false }, 0)
  else if s.inCharacterClass then .ok (s.append (quoted c), 0)
  else if c = '^' || c = '$' || c = '.' then unsupportedRegexSyntax pattern index
  else if c = '(' then
    if cs.head? = some '?' then unsupportedRegexSyntax pattern index
    else
      .ok ({ (s.append [c]).singleAtom with
        depth := s.depth + 1
        enclosingCopies := s.groupCopies :: s.enclosingCopies
        groupCopies := 1 }, 0)
  else if c = ')' then
    match s.depth, s.enclosingCopies with
    | depth + 1, outer :: enclosing =>
        .ok ({ s.append [c] with
          depth
          enclosingCopies := enclosing
          groupCopies := max outer s.groupCopies
          atomCopies := s.groupCopies
          copiesBeforeLastGroup := some outer }, 0)
    | _, _ => unsupportedRegexSyntax pattern index
  else if c = '|' && s.depth = 0 then
    unsupported ("matches regex has a top-level alternation at index " ++ toString index ++
      ": RE2 reads ^a|b$ as two separately anchored alternatives, while Lucene matches the whole " ++
      "field against a|b, so the alternation must be parenthesised as ^(a|b)$: " ++ pattern)
  else if c = '{' then s.interval pattern index cs
  else
    let written := s.append (quoted c)
    .ok (if c = '*' || c = '+' || c = '?' then written else written.singleAtom, 0)

end Step

end Scan

section Translate

variable [JavaCharacter]

/-- The loop over the pattern; `skip` characters of a repetition are already written. -/
def scanRegexBody (pattern : String) : (index skip : Nat) → Scan → List Char →
    Translation (List Char)
  | _, _, s, [] =>
      if s.escaped || s.inCharacterClass || s.depth ≠ 0 then
        unsupportedRegexSyntax pattern pattern.length
      else .ok s.translated
  | index, skip + 1, s, _ :: cs => scanRegexBody pattern (index + 1) skip s cs
  | index, 0, s, c :: cs => do
      let (s, skip) ← s.step pattern index c cs
      scanRegexBody pattern (index + 1) skip s cs

def validateAndEscapeLuceneRegexBody (pattern : List Char) : Translation (List Char) :=
  scanRegexBody (String.ofList pattern) 0 0 Scan.start pattern

def matchesQuery (field : String) (value : String) : Translation Query := do
  let anchoredStart := value.toList.head? = some '^'
  let body := if anchoredStart then value.toList.tail else value.toList
  let anchoredEnd := body.getLast? = some '$' && !isEscaped body (body.length - 1)
  if anchoredStart && !anchoredEnd && !body.isEmpty && isPlainRegexLiteral body then
    return .prefixQuery field (.string (String.ofList body))
  else
    -- Syntax is checked before anchoring, so an unanchored bad pattern reports its syntax.
    let luceneBody ← validateAndEscapeLuceneRegexBody (if anchoredEnd then body.dropLast else body)
    if !anchoredStart || !anchoredEnd then
      unsupported ("matches regex patterns must be fully anchored unless they are a simple literal " ++
        "prefix")
    else if luceneBody.isEmpty then
      unsupported "matches regex for only the empty string is not supported by Elasticsearch"
    else return .regexp field (String.ofList luceneBody) "NONE"

end Translate

end QueryPlanAdapters.Elasticsearch
