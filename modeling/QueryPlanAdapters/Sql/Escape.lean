import QueryPlanAdapters.Sql.Like

/-!
# Escaped patterns

A text is escaped by one pass that puts the escape character before every special
one, or by one replacement for each special character in turn. The two agree when
the escape character comes first and no character comes twice. An escaped text
stands for itself in a pattern, whatever follows it.
-/

namespace QueryPlanAdapters.Sql

/-! ## Replacement -/

/-- Replace the non-overlapping occurrences of a nonempty source, from the left. `skip`
characters of an occurrence just replaced are still to be dropped. -/
def replaceOccurrences (source target : List Char) : (skip : Nat) → List Char → List Char
  | _, [] => []
  | skip + 1, _ :: cs => replaceOccurrences source target skip cs
  | 0, c :: cs =>
      if source.isPrefixOf (c :: cs) then
        target ++ replaceOccurrences source target (source.length - 1) cs
      else c :: replaceOccurrences source target 0 cs

/-- `REPLACE(text, source, target)`. -/
def replaceText (text source target : String) : String :=
  String.ofList (replaceOccurrences source.toList target.toList 0 text.toList)

/-- A source of one character is replaced wherever it stands. -/
theorem replaceOccurrences_char (c : Char) (target cs : List Char) :
    replaceOccurrences [c] target 0 cs = cs.flatMap fun d => if d = c then target else [d] := by
  induction cs with
  | nil => rfl
  | cons d cs ih =>
      rw [replaceOccurrences, List.isPrefixOf_cons_cons, List.isPrefixOf_nil_left, Bool.and_true,
        List.flatMap_cons, List.length_singleton, Nat.sub_self, ih]
      by_cases h : d = c
      · rw [if_pos (beq_iff_eq.mpr h.symm), if_pos h]
      · rw [if_neg (fun hc => h (beq_iff_eq.mp hc).symm), if_neg h, List.singleton_append]

/-- A character replaced by nothing is dropped. -/
theorem replaceOccurrences_drop (c : Char) (cs : List Char) :
    replaceOccurrences [c] [] 0 cs = cs.filter (· ≠ c) := by
  rw [replaceOccurrences_char]
  induction cs with
  | nil => rfl
  | cons d cs ih =>
      rw [List.flatMap_cons, ih, List.filter_cons]
      by_cases h : d = c
      · simp [h]
      · simp [h]

/-! ## Escaping -/

section Escape

variable (escape : Char)

/-- A text with the escape character before each of its special characters. -/
def escapeEach (special : List Char) (cs : List Char) : List Char :=
  cs.flatMap fun c => if c ∈ special then [escape, c] else [c]

/-- One replacement for each special character in turn. -/
def escapeInTurn (special : List Char) (cs : List Char) : List Char :=
  special.foldl (fun text c => text.flatMap fun d => if d = c then [escape, c] else [d]) cs

variable {escape}

/-- Escaping one more character leaves every escape that stands there. -/
theorem escape_next {special : List Char} {c : Char} (hescape : c ≠ escape) (hfresh : c ∉ special)
    (cs : List Char) :
    (escapeEach escape special cs).flatMap (fun d => if d = c then [escape, c] else [d]) =
      escapeEach escape (special ++ [c]) cs := by
  rw [escapeEach, List.flatMap_assoc, escapeEach]
  refine List.flatMap_congr fun d _ => ?_
  by_cases hspecial : d ∈ special
  · have hne : d ≠ c := fun h => hfresh (h ▸ hspecial)
    rw [if_pos hspecial, if_pos (List.mem_append_left _ hspecial)]
    simp [hne, hescape.symm]
  · by_cases hc : d = c
    · simp [hc, hfresh]
    · simp [hspecial, hc]

/-- Fresh characters escaped in turn join those already escaped in one pass. -/
theorem escapeInTurn_escapeEach {rest done : List Char} (hnodup : (done ++ rest).Nodup)
    (hdone : escape ∈ done) (cs : List Char) :
    escapeInTurn escape rest (escapeEach escape done cs) = escapeEach escape (done ++ rest) cs := by
  induction rest generalizing done with
  | nil =>
      rw [List.append_nil]
      rfl
  | cons c rest ih =>
      have hfresh : c ∉ done := fun hmem =>
        (List.nodup_append.mp hnodup).2.2 c hmem c List.mem_cons_self rfl
      have hescape : c ≠ escape := fun h => hfresh (h ▸ hdone)
      rw [List.append_cons] at hnodup
      rw [escapeInTurn, List.foldl_cons, escape_next hescape hfresh, List.append_cons done c rest]
      exact ih hnodup (List.mem_append_left _ hdone)

/-- In turn, the escape character first, is in one pass. -/
theorem escapeInTurn_eq_escapeEach {special : List Char} (hnodup : (escape :: special).Nodup)
    (cs : List Char) :
    escapeInTurn escape (escape :: special) cs = escapeEach escape (escape :: special) cs := by
  have hfirst : cs.flatMap (fun d => if d = escape then [escape, escape] else [d]) =
      escapeEach escape [escape] cs := by
    refine List.flatMap_congr fun d _ => ?_
    by_cases h : d = escape
    · simp [h]
    · simp [h]
  rw [escapeInTurn, List.foldl_cons, hfirst]
  exact @escapeInTurn_escapeEach escape special [escape] hnodup List.mem_cons_self cs

end Escape

/-! ## Escaped texts in a pattern -/

section Patterns

variable {escape : Char} {special : List Char}

/-- An escaped text stands for itself. -/
theorem parseLike_escapeEach (hescape : escape ∈ special) (hrun : '%' ∈ special)
    (hone : '_' ∈ special) (cs rest : List Char) :
    parseLike escape (escapeEach escape special cs ++ rest) =
      (parseLike escape rest).map (cs.map .char ++ ·) := by
  induction cs with
  | nil =>
      rw [escapeEach, List.flatMap_nil, List.nil_append]
      exact Option.map_id'.symm
  | cons c cs ih =>
      rw [escapeEach, List.flatMap_cons, List.append_assoc, ← escapeEach]
      split
      next =>
        rw [List.cons_append, List.cons_append, List.nil_append, parseLike_escape, ih,
          Option.map_map]
        rfl
      next hplain =>
        have hne : ∀ d ∈ special, c ≠ d := fun d hd h => hplain (h ▸ hd)
        rw [List.cons_append, List.nil_append,
          parseLike_plain (hne _ hescape) (hne _ hrun) (hne _ hone), ih, Option.map_map]
        rfl

/-- Whether every bracket of a pattern is escaped, so that none opens a character class. -/
def bracketsEscaped (escape : Char) : List Char → Bool
  | [] => true
  | [c] => c ≠ '['
  | c :: d :: cs =>
      if c = escape then bracketsEscaped escape cs
      else c ≠ '[' && bracketsEscaped escape (d :: cs)

theorem bracketsEscaped_escape (c : Char) (cs : List Char) :
    bracketsEscaped escape (escape :: c :: cs) = bracketsEscaped escape cs := by
  rw [bracketsEscaped, if_pos rfl]

theorem bracketsEscaped_plain {c : Char} (hescape : c ≠ escape) (hbracket : c ≠ '[')
    (cs : List Char) : bracketsEscaped escape (c :: cs) = bracketsEscaped escape cs := by
  cases cs <;> simp [bracketsEscaped, hescape, hbracket]

theorem bracketsEscaped_escapeEach (hescape : escape ∈ special) (hbracket : '[' ∈ special)
    (cs rest : List Char) :
    bracketsEscaped escape (escapeEach escape special cs ++ rest) =
      bracketsEscaped escape rest := by
  induction cs with
  | nil => rfl
  | cons c cs ih =>
      rw [escapeEach, List.flatMap_cons, List.append_assoc, ← escapeEach]
      split
      next => exact (bracketsEscaped_escape _ _).trans ih
      next hplain =>
        have hne : ∀ d ∈ special, c ≠ d := fun d hd h => hplain (h ▸ hd)
        exact (bracketsEscaped_plain (hne _ hescape) (hne _ hbracket) _).trans ih

/-- A text between gaps is found wherever the gaps leave it. -/
theorem likeParts_run_chars (needle : List Char) (parts : List LikePart) (cs : List Char) :
    likeParts (.run :: (needle.map .char ++ parts)) cs =
      cs.tails.any fun tail => needle.isPrefixOf tail && likeParts parts (tail.drop needle.length) := by
  rw [likeParts]
  congr 1
  funext tail
  exact likeParts_chars needle parts tail

/-- A text and the end of the pattern after a gap: the text is an ending. -/
theorem likeParts_run_ending (needle cs : List Char) :
    likeParts (.run :: needle.map .char) cs = needle.isSuffixOf cs := by
  have h := likeParts_run_chars needle [] cs
  rw [List.append_nil] at h
  rw [h, Bool.eq_iff_iff, List.any_eq_true, List.isSuffixOf_iff_suffix]
  constructor
  · rintro ⟨tail, hmem, htail⟩
    obtain ⟨hstart, hend⟩ := Bool.and_eq_true_iff.mp htail
    obtain ⟨rest, rfl⟩ := List.isPrefixOf_iff_prefix.mp hstart
    rw [List.drop_left, likeParts, List.isEmpty_iff] at hend
    rw [hend, List.append_nil] at hmem
    exact (List.mem_tails ..).mp hmem
  · intro hsuffix
    refine ⟨needle, (List.mem_tails ..).mpr hsuffix, Bool.and_eq_true_iff.mpr ⟨?_, ?_⟩⟩
    · exact List.isPrefixOf_iff_prefix.mpr (List.prefix_refl _)
    · rw [List.drop_length]
      rfl

end Patterns

/-! ## Engines -/

/-- The parts of a text engine that patterns use: LIKE on patterns without character
classes, REPLACE of a nonempty source, and concatenation. -/
structure TextEngine (engine : Engine) (escape : Char) : Prop where
  like_text (text pattern : String) (h : bracketsEscaped escape pattern.toList = true) :
    engine.like (.text text) (.text pattern) = .ofBool (likeMatches escape pattern text)
  replace_text (text source target : String) (h : source ≠ "") :
    engine.replace (.text text) (.text source) (.text target) =
      .text (replaceText text source target)
  concat_text (a b : String) : engine.concat (.text a) (.text b) = .text (a ++ b)

end QueryPlanAdapters.Sql
