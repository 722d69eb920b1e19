import QueryPlanAdapters.Mongoose.Hierarchies
import QueryPlanAdapters.Logic.Regex

/-!
# Mongoose: patterns

MongoDB matches with PCRE2 and CEL with RE2. A pattern of CEL's is scanned once and kept to
what both read alike; a text to be found is escaped, and anchored where it begins or ends the
subject.
-/

namespace QueryPlanAdapters.Mongoose

open Regex

/-! ## The adapter -/

def escapedLiterals : List Char :=
  ['\\', '.', '^', '$', '*', '+', '?', '(', ')', '[', ']', '\x7b', '\x7d', '|']

def unsupportedSyntax : List Char :=
  ['(', ')', '[', ']', '\x7b', '\x7d', '|']

/-- The scan of `normalizeRe2PatternForMongo`, from the first character or behind it. -/
def normalizeFrom : (atFirst canQuantify : Bool) → List Char → Translation (List Char)
  | _, _, [] => .ok []
  | _, _, ['\\'] => unsupported "matches supports only literal escapes in the common RE2/PCRE2 subset"
  | _, _, '\\' :: escaped :: cs =>
      if !escapedLiterals.contains escaped then
        unsupported "matches supports only literal escapes in the common RE2/PCRE2 subset"
      else (['\\', escaped] ++ ·) <$> normalizeFrom false true cs
  | atFirst, canQuantify, c :: cs =>
      if c = '^' then
        if !atFirst then unsupported "matches supports ^ only at the start of the pattern"
        else (c :: ·) <$> normalizeFrom false false cs
      else if c = '$' then
        if !cs.isEmpty then unsupported "matches supports $ only at the end of the pattern"
        else (['\\', 'z'] ++ ·) <$> normalizeFrom false false cs
      else if isQuantifier c then
        if !canQuantify then
          unsupported ("matches has an invalid " ++ c.toString ++ " quantifier")
        else (c :: ·) <$> normalizeFrom false false cs
      else if unsupportedSyntax.contains c || c.toNat < 0x20 then
        unsupported "matches pattern is outside the supported common RE2/PCRE2 subset"
      else (c :: ·) <$> normalizeFrom false true cs

def normalizeRe2PatternForMongo (pattern : String) : Translation String :=
  String.ofList <$> normalizeFrom true false pattern.toList

/-- The receiver-style string functions. -/
inductive StringPredicate where
  | contains
  | startsWith
  | endsWith
  deriving DecidableEq, Repr

/-- `regexStr` of `translateStringPredicate`. -/
def StringPredicate.regexStr (needle : String) : StringPredicate → String
  | contains => escapeRegexValue needle
  | startsWith => "^" ++ escapeRegexValue needle
  | endsWith => escapeRegexValue needle ++ "\\z"

/-- CEL's answer. -/
def StringPredicate.holds (subject needle : String) : StringPredicate → Bool
  | contains => includesText subject needle
  | startsWith => startsWithText subject needle
  | endsWith => endsWithText subject needle

/-! ## Patterns -/

section Scan

variable {c : Char} {last : Last} {cs out : List Char}

theorem escape_of_escapedLiteral (h : c ∈ escapedLiterals) :
    Dialect.re2.escape c = some (char c) ∧ Dialect.pcre2.escape c = some (char c) := by
  have hall : escapedLiterals.all (fun c =>
      decide ((c.toNat < 128 && !c.isAlphanum) = true ∧ c ≠ 'z')) = true := by
    decide
  obtain ⟨hliteral, hne⟩ := of_decide_eq_true (List.all_eq_true.mp hall c h)
  have hescaped : Dialect.escapedLiteral c = some (char c) := if_pos hliteral
  exact ⟨hescaped, (if_neg hne).trans hescaped⟩

/-- Apart from `$`, an atom is the same in both dialects. -/
theorem atom_eq (h : c ≠ '$') : Dialect.re2.atom c = Dialect.pcre2.atom c := by
  rw [Dialect.atom, Dialect.atom, if_neg h, if_neg h]

/-- Where the scan allows a quantifier, the last atom can have one, and both dialects read what
is left as one expression. -/
theorem parseFrom_normalizeFrom {atFirst canQuantify : Bool}
    (h : normalizeFrom atFirst canQuantify cs = .ok out)
    (hlast : canQuantify = true → ∃ r, last = .atom r) :
    ∃ r, Dialect.re2.parseFrom last cs = some r ∧ Dialect.pcre2.parseFrom last out = some r := by
  induction atFirst, canQuantify, cs using normalizeFrom.induct generalizing out last with
  | case1 =>
      obtain rfl := Except.ok.inj h
      exact ⟨_, rfl, rfl⟩
  | case2 => cases h
  | case3 _ _ escaped cs hnot =>
      rw [normalizeFrom, if_pos hnot] at h
      cases h
  | case4 _ _ escaped cs hliteral ih =>
      rw [normalizeFrom, if_neg hliteral] at h
      obtain ⟨rest, hrest, rfl⟩ := Except.map_eq_ok_iff.mp h
      have hmem : escaped ∈ escapedLiterals := by simpa using hliteral
      obtain ⟨hre2, hpcre2⟩ := escape_of_escapedLiteral hmem
      have hnext : true = true → ∃ r, Last.atom (char escaped) = .atom r := fun _ => ⟨_, rfl⟩
      obtain ⟨r, hleft, hright⟩ := ih hrest hnext
      refine ⟨.cat last.regex r, ?_, ?_⟩
      · rw [Dialect.parseFrom_escaped hre2, hleft]
        rfl
      · show Dialect.pcre2.parseFrom last ('\\' :: escaped :: rest) = _
        rw [Dialect.parseFrom_escaped hpcre2, hright]
        rfl
  | case5 _ _ cs hlater hnil hcons =>
      rw [normalizeFrom.eq_4 _ _ _ _ hnil hcons, if_pos rfl, if_pos hlater] at h
      cases h
  | case6 _ _ cs hfirst hnil hcons ih =>
      rw [normalizeFrom.eq_4 _ _ _ _ hnil hcons, if_pos rfl, if_neg hfirst] at h
      obtain ⟨rest, hrest, rfl⟩ := Except.map_eq_ok_iff.mp h
      have hnext : false = true → ∃ r, Last.atom atStart = .atom r := fun _ => ⟨_, rfl⟩
      obtain ⟨r, hleft, hright⟩ := ih hrest hnext
      refine ⟨.cat last.regex r, ?_, ?_⟩
      · rw [Dialect.parseFrom_atom (by decide) rfl rfl]
        exact congrArg _ hleft
      · rw [Dialect.parseFrom_atom (by decide) rfl rfl]
        exact congrArg _ hright
  | case7 _ _ cs hmore hnil hcons hcaret =>
      rw [normalizeFrom.eq_4 _ _ _ _ hnil hcons, if_neg hcaret, if_pos rfl, if_pos hmore] at h
      cases h
  | case8 _ _ cs hend hnil hcons hcaret ih =>
      obtain rfl : cs = [] := by simpa using hend
      rw [normalizeFrom.eq_4 _ _ _ _ hnil hcons, if_neg hcaret, if_pos rfl, if_neg hend] at h
      obtain rfl := Except.ok.inj h
      exact ⟨.cat last.regex atEnd, rfl, rfl⟩
  | case9 _ _ c cs hnil hcons hcaret hdollar hquantifier hnot =>
      rw [normalizeFrom.eq_4 _ _ _ _ hnil hcons, if_neg hcaret, if_neg hdollar, if_pos hquantifier,
        if_pos hnot] at h
      cases h
  | case10 _ canQuantify c cs hnil hcons hcaret hdollar hquantifier hcan ih =>
      rw [normalizeFrom.eq_4 _ _ _ _ hnil hcons, if_neg hcaret, if_neg hdollar, if_pos hquantifier,
        if_neg hcan] at h
      obtain ⟨rest, hrest, rfl⟩ := Except.map_eq_ok_iff.mp h
      obtain ⟨a, rfl⟩ := hlast (by simpa using hcan)
      have hnext : false = true → ∃ r, Last.repetition (repeated c a) = .atom r :=
        fun h => (Bool.noConfusion h)
      obtain ⟨r, hleft, hright⟩ := ih hrest hnext
      refine ⟨r, ?_, ?_⟩
      · rw [Dialect.parseFrom_quantifier hquantifier, hleft]
      · rw [Dialect.parseFrom_quantifier hquantifier, hright]
  | case11 _ _ c cs hnil hcons hcaret hdollar hquantifier hspelled =>
      rw [normalizeFrom.eq_4 _ _ _ _ hnil hcons, if_neg hcaret, if_neg hdollar, if_neg hquantifier,
        if_pos hspelled] at h
      cases h
  | case12 _ _ c cs hnil hcons hcaret hdollar hquantifier hspelled ih =>
      rw [normalizeFrom.eq_4 _ _ _ _ hnil hcons, if_neg hcaret, if_neg hdollar, if_neg hquantifier,
        if_neg hspelled] at h
      obtain ⟨rest, hrest, rfl⟩ := Except.map_eq_ok_iff.mp h
      have hbackslash : c ≠ '\\' := by
        rintro rfl
        cases cs with
        | nil => exact hnil rfl rfl
        | cons d cs => exact hcons d cs rfl rfl
      have hplain : ['(', ')', '[', '\x7b', '|'].contains c = false := by
        rw [Bool.eq_false_iff]
        intro hmem
        apply hspelled
        have hall : ['(', ')', '[', '\x7b', '|'].all unsupportedSyntax.contains = true := by decide
        rw [List.all_eq_true.mp hall c (List.contains_iff_mem.mp hmem), Bool.true_or]
      have hnot : isQuantifier c = false := Bool.eq_false_iff.mpr hquantifier
      have hnext : true = true → ∃ r, Last.atom (Dialect.re2.atom c) = .atom r := fun _ => ⟨_, rfl⟩
      obtain ⟨r, hleft, hright⟩ := ih hrest hnext
      refine ⟨.cat last.regex r, ?_, ?_⟩
      · rw [Dialect.parseFrom_atom hbackslash hnot hplain, hleft]
        rfl
      · rw [Dialect.parseFrom_atom hbackslash hnot hplain, ← atom_eq hdollar, hright]
        rfl

/-! ## Texts -/

/-- An escaped text spells itself, and what is left of the pattern comes behind it. -/
theorem parseFrom_escape {ends : List Char} {step : Regex → Regex}
    (hends : ∀ last : Last, Dialect.pcre2.parseFrom last ends = some (step last.regex))
    (last : Last) (cs : List Char) :
    Dialect.pcre2.parseFrom last
        ((cs.flatMap fun c => if isEscaped c then ['\\', c] else [c]) ++ ends) =
      some (spelled step last.regex cs) := by
  induction cs generalizing last with
  | nil => exact hends last
  | cons c cs ih =>
      rw [List.flatMap_cons, List.append_assoc, spelled]
      by_cases hescaped : isEscaped c = true
      · have hmem : c ∈ escapedLiterals := by
          have hall : ['.', '*', '+', '?', '^', '$', '\x7b', '\x7d', '(', ')', '|', '[', ']',
              '\\'].all (· ∈ escapedLiterals) = true := by decide
          exact of_decide_eq_true (List.all_eq_true.mp hall c (of_decide_eq_true hescaped))
        rw [if_pos hescaped, List.cons_append, List.singleton_append,
          Dialect.parseFrom_escaped (escape_of_escapedLiteral hmem).2, ih]
        rfl
      · have hall : ['\\', '*', '+', '?', '(', ')', '[', '\x7b', '|', '.', '^', '$'].all isEscaped =
            true := by decide
        have hne : ∀ d ∈ ['\\', '*', '+', '?', '(', ')', '[', '\x7b', '|', '.', '^', '$'], c ≠ d := by
          rintro d hd rfl
          exact hescaped (List.all_eq_true.mp hall c hd)
        have hatom : Dialect.pcre2.atom c = char c := by
          rw [Dialect.atom, if_neg (hne _ (by decide)), if_neg (hne _ (by decide)),
            if_neg (hne _ (by decide))]
        have hquantifier : isQuantifier c = false := by
          simp [isQuantifier, hne]
        have hspelled : ['(', ')', '[', '\x7b', '|'].contains c = false := by
          simp [hne]
        rw [if_neg hescaped, List.singleton_append,
          Dialect.parseFrom_atom (hne _ (by decide)) hquantifier hspelled, hatom, ih]
        rfl

end Scan

/-- The expression that PCRE2 reads. -/
def StringPredicate.regex (needle : String) : StringPredicate → Regex
  | contains => spelled id .empty needle.toList
  | startsWith => .cat .empty (spelled id atStart needle.toList)
  | endsWith => spelled (.cat · atEnd) .empty needle.toList

theorem parse_regexStr (needle : String) (predicate : StringPredicate) :
    Dialect.pcre2.parse (predicate.regexStr needle).toList = some (predicate.regex needle) := by
  have hplain : ∀ last, Dialect.pcre2.parseFrom last (escapeRegexValue needle).toList =
      some (spelled id last.regex needle.toList) := by
    intro last
    have h := @parseFrom_escape [] id (fun _ => rfl) last needle.toList
    rw [List.append_nil] at h
    rw [escapeRegexValue, String.toList_ofList, h]
  cases predicate with
  | contains => exact hplain .nothing
  | startsWith =>
      have hcaret : ("^" ++ escapeRegexValue needle).toList =
          '^' :: (escapeRegexValue needle).toList := by
        rw [String.toList_append]
        rfl
      rw [StringPredicate.regexStr, hcaret, Dialect.parse,
        Dialect.parseFrom_atom (by decide) rfl rfl, hplain]
      rfl
  | endsWith =>
      have hlast : (escapeRegexValue needle ++ "\\z").toList =
          (escapeRegexValue needle).toList ++ ['\\', 'z'] := by
        rw [String.toList_append]
        rfl
      rw [StringPredicate.regexStr, hlast, escapeRegexValue, String.toList_ofList]
      exact @parseFrom_escape ['\\', 'z'] (.cat · atEnd) (fun _ => rfl) .nothing needle.toList

theorem includesText_iff {subject needle : String} : includesText subject needle = true ↔
    ∃ before after, subject.toList = before ++ needle.toList ++ after := by
  rw [includesText, List.any_eq_true]
  constructor
  · rintro ⟨tail, htail, hstart⟩
    obtain ⟨before, hbefore⟩ := (List.mem_tails ..).mp htail
    obtain ⟨after, hafter⟩ := List.isPrefixOf_iff_prefix.mp hstart
    exact ⟨before, after, by rw [List.append_assoc, hafter, hbefore]⟩
  · rintro ⟨before, after, h⟩
    refine ⟨needle.toList ++ after, (List.mem_tails ..).mpr ⟨before, ?_⟩,
      List.isPrefixOf_iff_prefix.mpr ⟨after, rfl⟩⟩
    rw [h, List.append_assoc]

/-- Each finds the texts that CEL's function holds of. -/
theorem searches_regex {subject needle : String} (predicate : StringPredicate) :
    Searches (predicate.regex needle) subject.toList ↔ predicate.holds subject needle = true := by
  have hplain : ∀ r before xs after, Matches (id r) before xs after ↔
      Matches r before xs after ∧ True := by simp
  have hends : ∀ r before xs after, Matches (.cat r atEnd) before xs after ↔
      Matches r before xs after ∧ after = [] := by
    intro r before xs after
    rw [matches_cat]
    constructor
    · rintro ⟨ys, zs, rfl, hr, hend⟩
      obtain ⟨rfl, rfl⟩ := matches_atEnd.mp hend
      rw [List.append_nil]
      exact ⟨hr, rfl⟩
    · rintro ⟨hr, rfl⟩
      exact ⟨xs, [], (List.append_nil _).symm, hr, matches_atEnd.mpr ⟨rfl, rfl⟩⟩
  cases predicate with
  | contains =>
      rw [StringPredicate.holds, includesText_iff]
      constructor
      · rintro ⟨before, xs, after, htext, h⟩
        obtain ⟨ys, rfl, hys, -⟩ := (matches_spelled (fun _ => True) hplain ..).mp h
        obtain rfl := matches_empty.mp hys
        exact ⟨before, after, htext⟩
      · rintro ⟨before, after, htext⟩
        exact ⟨before, needle.toList, after, htext,
          (matches_spelled (fun _ => True) hplain ..).mpr
            ⟨[], rfl, matches_empty.mpr rfl, trivial⟩⟩
  | startsWith =>
      rw [StringPredicate.holds, startsWithText, List.isPrefixOf_iff_prefix]
      constructor
      · rintro ⟨before, xs, after, htext, h⟩
        obtain ⟨ys, zs, rfl, hys, hzs⟩ := matches_cat.mp h
        obtain rfl := matches_empty.mp hys
        obtain ⟨ws, rfl, hws, -⟩ := (matches_spelled (fun _ => True) hplain ..).mp hzs
        obtain ⟨rfl, hbefore⟩ := matches_atStart.mp hws
        obtain rfl : before = [] := by simpa using hbefore
        exact ⟨after, htext.symm⟩
      · rintro ⟨after, htext⟩
        refine ⟨[], needle.toList, after, htext.symm, ?_⟩
        refine matches_cat.mpr ⟨[], needle.toList, rfl, matches_empty.mpr rfl, ?_⟩
        exact (matches_spelled (fun _ => True) hplain ..).mpr
          ⟨[], rfl, matches_atStart.mpr ⟨rfl, rfl⟩, trivial⟩
  | endsWith =>
      rw [StringPredicate.holds, endsWithText, List.isSuffixOf_iff_suffix]
      constructor
      · rintro ⟨before, xs, after, htext, h⟩
        obtain ⟨ys, rfl, hys, rfl⟩ := (matches_spelled (· = []) hends ..).mp h
        obtain rfl := matches_empty.mp hys
        rw [List.append_nil] at htext
        exact ⟨before, htext.symm⟩
      · rintro ⟨before, htext⟩
        refine ⟨before, needle.toList, [], ?_, (matches_spelled (· = []) hends ..).mpr
          ⟨[], rfl, matches_empty.mpr rfl, rfl⟩⟩
        rw [List.append_nil, htext]

/-- A pattern that is accepted is one of RE2's, and PCRE2 searches for its rewritten form where
RE2 searches for it; and the expression of each string predicate finds what the predicate holds
of. -/
theorem patterns_exact :
    (∀ pattern text, normalizeRe2PatternForMongo pattern = .ok text →
      ∃ r s, Dialect.re2.parse pattern.toList = some r ∧ Dialect.pcre2.parse text.toList = some s ∧
        ∀ subject, Searches s subject ↔ Searches r subject) ∧
      ∀ (needle : String) (predicate : StringPredicate),
        ∃ r, Dialect.pcre2.parse (predicate.regexStr needle).toList = some r ∧
          ∀ subject : String,
            Searches r subject.toList ↔ predicate.holds subject needle = true := by
  refine ⟨fun pattern text h => ?_, fun needle predicate =>
    ⟨_, parse_regexStr needle predicate, fun _ => searches_regex predicate⟩⟩
  obtain ⟨out, hout, rfl⟩ := Except.map_eq_ok_iff.mp h
  have hnothing : false = true → ∃ r, Last.nothing = .atom r := fun h => (Bool.noConfusion h)
  obtain ⟨r, hre2, hpcre2⟩ := parseFrom_normalizeFrom hout hnothing
  refine ⟨r, r, hre2, ?_, fun _ => Iff.rfl⟩
  rw [String.toList_ofList]
  exact hpcre2

/-- `^a.*\.b$` is read alike, with `\z` at its end. -/
theorem patterns_exact_anchored :
    normalizeRe2PatternForMongo "^a.*\\.b$" = .ok "^a.*\\.b\\z" ∧
      ∃ r s, Dialect.re2.parse "^a.*\\.b$".toList = some r ∧
        Dialect.pcre2.parse "^a.*\\.b\\z".toList = some s ∧
          ∀ subject, Searches s subject ↔ Searches r subject :=
  ⟨rfl, patterns_exact.1 _ _ rfl⟩

end QueryPlanAdapters.Mongoose
