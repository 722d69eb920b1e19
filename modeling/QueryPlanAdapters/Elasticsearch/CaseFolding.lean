import QueryPlanAdapters.Elasticsearch.Leaves

/-!
# Elasticsearch: the case variants of a literal

The list of the case variants counts through the subsets of the literal's letters. It is
shown to enumerate the texts that the fold takes to the literal; the leaf over the list
then answers the comparison of the fold under both polarities.
-/

namespace QueryPlanAdapters.Elasticsearch

open AsciiCase

/-! ## The variant of a mask -/

/-- The literal with the letters of the set bits in the other case, the lowest bit first. -/
def variantOf (upper : Bool) : (mask : Nat) → List Char → List Char
  | _, [] => []
  | mask, c :: cs =>
      if isFolded upper c then
        (if mask.testBit 0 then switch upper c else c) :: variantOf upper (mask / 2) cs
      else c :: variantOf upper mask cs

variable {upper : Bool} {letters : List Nat} {cs : List Char}

variable {position : Nat}

/-- What a literal with a first letter, and the rest of it, have for positions. -/
theorem letterPositions_cons {c : Char}
    (h : letterPositions upper position (c :: cs) = some letters) :
    isFolded (!upper) c = false ∧ ∃ rest, letterPositions upper (position + 1) cs = some rest ∧
      letters = if isFolded upper c then position :: rest else rest := by
  rw [letterPositions] at h
  split at h
  next => cases h
  next hreached =>
    obtain ⟨rest, hrest, hletters⟩ := Option.bind_eq_some_iff.mp h
    exact ⟨by simpa using hreached, rest, hrest, (Option.some.inj hletters).symm⟩

theorem modify_append_cons {done : List Char} {c : Char} (f : Char → Char) :
    (done ++ c :: cs).modify done.length f = done ++ f c :: cs := by
  induction done with
  | nil => rfl
  | cons d done ih => rw [List.length_cons, List.cons_append, List.modify_succ_cons, ih]; rfl

/-- The changes at the positions of a literal's end leave its beginning, and are those of
the bits from the first position's on. -/
theorem foldl_variant {mask : Nat} {done : List Char} {bit : Nat}
    (h : letterPositions upper done.length cs = some letters) :
    (letters.zipIdx bit).foldl (fun chars letter =>
        if mask.testBit letter.2 then chars.modify letter.1 (switch upper) else chars)
      (done ++ cs) = done ++ variantOf upper (mask / 2 ^ bit) cs := by
  induction cs generalizing done bit letters with
  | nil =>
      obtain rfl : letters = [] := (Option.some.inj h).symm
      rfl
  | cons c cs ih =>
      obtain ⟨-, rest, hrest, rfl⟩ := letterPositions_cons h
      have hstep : ∀ d : Char, done ++ d :: cs = (done ++ [d]) ++ cs := by simp
      have hlength : ∀ d : Char, letterPositions upper (done ++ [d]).length cs = some rest := by
        simpa using hrest
      by_cases hfolded : isFolded upper c = true
      · have hbit : (mask / 2 ^ bit).testBit 0 = mask.testBit bit := by
          rw [Nat.testBit_div_two_pow, Nat.zero_add]
        have hnext : mask / 2 ^ bit / 2 = mask / 2 ^ (bit + 1) := by
          rw [Nat.div_div_eq_div_mul, pow_succ]
        rw [if_pos hfolded, List.zipIdx_cons, List.foldl_cons, variantOf, if_pos hfolded, hbit,
          hnext, modify_append_cons]
        by_cases hset : mask.testBit bit = true
        · rw [if_pos hset, if_pos hset, hstep, ih (hlength _), List.append_assoc]
          rfl
        · rw [if_neg hset, if_neg hset, hstep, ih (hlength _), List.append_assoc]
          rfl
      · rw [if_neg hfolded, hstep, ih (hlength _), variantOf, if_neg hfolded, List.append_assoc]
        rfl

theorem caseVariant_eq {mask : Nat} {literal : List Char}
    (h : letterPositions upper 0 literal = some letters) :
    caseVariant upper letters mask literal = variantOf upper mask literal := by
  have hvariant := @foldl_variant upper letters literal mask [] 0 h
  rwa [pow_zero, Nat.div_one] at hvariant

/-! ## The variants -/

/-- A mask that is taken to a spelling is one for each letter. -/
theorem spells_variantOf (h : letterPositions upper position cs = some letters) (mask : Nat) :
    Spells upper cs (variantOf upper mask cs) := by
  induction cs generalizing position letters mask with
  | nil => exact .nil
  | cons c cs ih =>
      obtain ⟨hreached, rest, hrest, -⟩ := letterPositions_cons h
      rw [variantOf]
      by_cases hfolded : isFolded upper c = true
      · rw [if_pos hfolded]
        refine .cons ?_ (ih hrest _)
        rw [spellingsOf, hreached, if_neg Bool.false_ne_true, if_pos hfolded]
        split <;> simp
      · rw [if_neg hfolded]
        refine .cons ?_ (ih hrest _)
        rw [spellingsOf, hreached, if_neg Bool.false_ne_true, if_neg hfolded]
        exact List.mem_singleton_self c

/-- Every spelling is the variant of a mask of as many bits as there are letters. -/
theorem exists_variantOf {ds : List Char}
    (h : letterPositions upper position cs = some letters) (hds : Spells upper cs ds) :
    ∃ mask < 2 ^ letters.length, variantOf upper mask cs = ds := by
  induction hds generalizing position letters with
  | nil =>
      obtain rfl : letters = [] := (Option.some.inj h).symm
      exact ⟨0, Nat.one_pos, rfl⟩
  | @cons c d cs ds hd _ ih =>
      obtain ⟨hreached, rest, hrest, rfl⟩ := letterPositions_cons h
      obtain ⟨mask, hmask, hvariant⟩ := ih hrest
      rw [spellingsOf, hreached, if_neg Bool.false_ne_true] at hd
      by_cases hfolded : isFolded upper c = true
      · rw [if_pos hfolded, List.mem_pair] at hd
        rw [if_pos hfolded, List.length_cons, pow_succ]
        obtain rfl | rfl := hd
        · refine ⟨2 * mask, by omega, ?_⟩
          have hbit : (2 * mask).testBit 0 = false := by simp
          have hhalf : 2 * mask / 2 = mask := by omega
          rw [variantOf, if_pos hfolded, hbit, if_neg Bool.false_ne_true, hhalf, hvariant]
        · refine ⟨2 * mask + 1, by omega, ?_⟩
          have hbit : (2 * mask + 1).testBit 0 = true := by simp
          have hhalf : (2 * mask + 1) / 2 = mask := by omega
          rw [variantOf, if_pos hfolded, hbit, if_pos rfl, hhalf, hvariant]
      · rw [if_neg hfolded, List.mem_singleton] at hd
        refine ⟨mask, by rwa [if_neg hfolded], ?_⟩
        rw [variantOf, if_neg hfolded, hvariant, hd]

/-- Different masks have different variants. -/
theorem variantOf_inj {mask mask' : Nat}
    (h : letterPositions upper position cs = some letters) (hmask : mask < 2 ^ letters.length)
    (hmask' : mask' < 2 ^ letters.length)
    (heq : variantOf upper mask cs = variantOf upper mask' cs) : mask = mask' := by
  induction cs generalizing position letters mask mask' with
  | nil =>
      obtain rfl : letters = [] := (Option.some.inj h).symm
      rw [List.length_nil, pow_zero] at hmask hmask'
      omega
  | cons c cs ih =>
      obtain ⟨-, rest, hrest, rfl⟩ := letterPositions_cons h
      rw [variantOf, variantOf] at heq
      by_cases hfolded : isFolded upper c = true
      · rw [if_pos hfolded, if_pos hfolded, List.cons.injEq] at heq
        rw [if_pos hfolded, List.length_cons, pow_succ] at hmask hmask'
        have hhalves : mask / 2 = mask' / 2 := ih hrest (by omega) (by omega) heq.2
        have hne := switch_ne hfolded
        have hbits : mask.testBit 0 = mask'.testBit 0 := by
          cases hbit : mask.testBit 0 <;> cases hbit' : mask'.testBit 0 <;>
            simp [hbit, hbit', hne, hne.symm] at heq ⊢
        rw [Nat.testBit_zero, Nat.testBit_zero, decide_eq_decide] at hbits
        omega
      · rw [if_neg hfolded, if_neg hfolded, List.cons.injEq] at heq
        rw [if_neg hfolded] at hmask hmask'
        exact ih hrest hmask hmask' heq.2

/-- A literal without positions for its letters holds one that nothing folds to. -/
theorem letterPositions_eq_none (h : letterPositions upper position cs = none) :
    ∃ c ∈ cs, isFolded (!upper) c = true := by
  induction cs generalizing position with
  | nil => cases h
  | cons c cs ih =>
      rw [letterPositions] at h
      split at h
      next hfolded => exact ⟨c, List.mem_cons_self, hfolded⟩
      next =>
        rw [Option.bind_eq_bind, Option.bind_eq_none_iff] at h
        have hrest : letterPositions upper (position + 1) cs = none := by
          cases hpositions : letterPositions upper (position + 1) cs with
          | none => rfl
          | some letters => exact absurd (h letters hpositions) (Option.some_ne_none _)
        obtain ⟨d, hd, hfolded⟩ := ih hrest
        exact ⟨d, List.mem_cons_of_mem c hd, hfolded⟩

/-- The variants of a literal are the texts that fold to it, each once. -/
theorem asciiCaseVariants_enumerates {literal : String} {texts : List String}
    (h : asciiCaseVariants literal upper = .ok texts) : Enumerates upper literal texts := by
  rw [asciiCaseVariants] at h
  cases hpositions : letterPositions upper 0 literal.toList with
  | none =>
      simp only [hpositions] at h
      obtain rfl := Except.ok.inj h
      obtain ⟨c, hc, hfolded⟩ := letterPositions_eq_none hpositions
      refine ⟨List.nodup_nil, fun s => iff_of_false List.not_mem_nil ?_⟩
      exact fold_ne_of_mem hc hfolded s
  | some letters =>
      simp only [hpositions] at h
      split at h
      next => cases h
      next =>
        obtain rfl := Except.ok.inj h
        have hvariant : ∀ mask, String.ofList (caseVariant upper letters mask literal.toList) =
            String.ofList (variantOf upper mask literal.toList) := fun mask => by
          rw [caseVariant_eq hpositions]
        simp only [hvariant]
        constructor
        · refine List.Nodup.map_on ?_ List.nodup_range
          intro mask hmask mask' hmask' heq
          rw [List.mem_range] at hmask hmask'
          exact variantOf_inj hpositions hmask hmask' (String.ofList_injective heq)
        · intro s
          rw [List.mem_map, fold_eq_iff_spells]
          constructor
          · rintro ⟨mask, -, rfl⟩
            rw [String.toList_ofList]
            exact spells_variantOf hpositions mask
          · intro hs
            obtain ⟨mask, hmask, heq⟩ := exists_variantOf hpositions hs
            exact ⟨mask, List.mem_range.mpr hmask, by rw [heq, String.ofList_toList]⟩

/-- There is a position for each letter of the folded case. -/
theorem length_letterPositions (h : letterPositions upper position cs = some letters) :
    letters.length = cs.countP (isFolded upper) := by
  induction cs generalizing position letters with
  | nil =>
      obtain rfl : letters = [] := (Option.some.inj h).symm
      rfl
  | cons c cs ih =>
      obtain ⟨-, rest, hrest, rfl⟩ := letterPositions_cons h
      rw [List.countP_cons, ← ih hrest]
      by_cases hfolded : isFolded upper c = true
      · rw [if_pos hfolded, if_pos hfolded, List.length_cons]
      · rw [if_neg hfolded, if_neg hfolded, add_zero]

/-- A literal of ten letters of the folded case or fewer is within the limit. -/
theorem asciiCaseVariants_accepted {literal : String}
    (h : literal.toList.countP (isFolded upper) ≤ 10) :
    ∃ texts, asciiCaseVariants literal upper = .ok texts := by
  rw [asciiCaseVariants]
  cases hpositions : letterPositions upper 0 literal.toList with
  | none => exact ⟨[], rfl⟩
  | some letters =>
      rw [← length_letterPositions hpositions] at h
      exact ⟨_, if_neg (not_lt.mpr h)⟩

/-! ## The leaf -/

/-- A text attribute in the index: no term when it is missing. -/
def textTerms (x : Option String) : List Term :=
  x.toList.map .string

theorem Term.test_eq_string (s t : String) :
    (Term.string s).test .eq (.string t) = decide (s = t) := by
  rw [Term.test, ComparisonOperator.test, Double.eq_finite, decide_eq_decide, Int.cast_eq_zero,
    compareCodePoints_eq_zero_iff, String.toList_inj]

/-- The texts that a list of text members lists. -/
theorem matches_terms_texts {regexpMatches : String → String → Bool} {d : Document}
    {field : String} {x : Option String} (hx : d.terms field = textTerms x) (texts : List String) :
    (Query.terms field (texts.map .string)).matches regexpMatches d = x.any fun s => s ∈ texts := by
  rw [Query.matches, hx, textTerms]
  cases x with
  | none => rfl
  | some s =>
      simp [Term.test_eq_string, List.any_eq]

/-- The membership of a text attribute in a list, or a present one's absence from it. -/
theorem matches_membership {regexpMatches : String → String → Bool} {d : Document}
    {field : String} {x : Option String} (hx : d.terms field = textTerms x) (texts : List String)
    (whenTrue : Bool) :
    (membershipQuery field (texts.map .string) whenTrue).matches regexpMatches d =
      x.any fun s => decide (s ∈ texts) == whenTrue := by
  have hterms : d.terms field = (x.map Term.string).toList := by
    rw [hx, textTerms]
    cases x <;> rfl
  rw [membershipQuery_matches hterms]
  cases x with
  | none => rfl
  | some s => simp [Term.test_eq_string, List.any_eq]

theorem Polarity.holds_ofBool (b : Bool) : (Polarity.ofBool b).holds = b := by
  cases b <;> rfl

section Membership

variable [JavaCharacter] {options : Options} {scope : Scope} {name field : String}

variable {polarity : Polarity}

/-- The membership of a text field in a list of texts. -/
theorem plainLeaf_texts {texts : List String} {query : Query}
    (hfield : scope.field name = .ok field) (hdeclared : options.scalarTypes.lookup field = some .string)
    (hin : options.operatorOverrides .in = none)
    (h : options.plainLeaf .in [.var name, .value (.array (texts.map .string))] scope polarity =
      .ok query) : query = membershipQuery field (texts.map .string) polarity.holds := by
  have hjava : protoValueToJava (.array (texts.map .string)) = .array (texts.map .string) := by
    rw [protoValueToJava, protoValuesToJava_eq_map, List.map_map]
    rfl
  obtain ⟨-, -, h⟩ := @plainLeaf_eq_ok _ options scope name field polarity query
    (.array (texts.map .string)) .in .in true hfield rfl (fun _ => rfl) h
  rw [hjava] at h
  have hkept : (texts.map PlanValue.string).filter (inhabits .string) = texts.map .string := by
    simp [inhabits]
  obtain ⟨-, hquery⟩ := settledLeaf_membership hdeclared hin rfl h
  rw [hquery, hkept]

omit [JavaCharacter] in
theorem declaredType_eq_ok_iff {operator : PlanOperator} {type : ScalarType} :
    options.declaredType field operator = .ok type ↔ options.scalarTypes.lookup field = some type := by
  rw [Options.declaredType]
  cases options.scalarTypes.lookup field with
  | none => simp [unmapped]
  | some declared => rw [Except.ok.injEq, Option.some.injEq]

theorem applyResolvedLeaf_fold (c : FoldComparison) (polarity : Polarity) :
    options.applyResolvedLeaf c.operator c.operands scope polarity =
      options.asciiCaseFold c.operator c.upper [.var c.name] (.value (.string c.literal)) scope
        polarity := by
  obtain ⟨upper, isEqual, foldFirst, name, literal⟩ := c
  cases foldFirst <;> cases upper <;> rfl

/-- The membership that a comparison of a fold becomes. -/
theorem asciiCaseFold_eq_ok {c : FoldComparison} {query : Query}
    (h : options.asciiCaseFold c.operator c.upper [.var c.name] (.value (.string c.literal)) scope
      polarity = .ok query) (hfield : scope.field c.name = .ok field) :
    options.scalarTypes.lookup field = some .string ∧
      ∃ texts, asciiCaseVariants c.literal c.upper = .ok texts ∧
        options.plainLeaf .in [.var c.name, .value (.array (texts.map .string))] scope
          (.ofBool (c.isEqual == polarity.holds)) = .ok query := by
  have hoperator : (c.operator = .eq) = (c.isEqual = true) := by
    rw [FoldComparison.operator]
    cases c.isEqual <;> simp
  have hequality : ¬ (c.operator ≠ .eq && c.operator ≠ .ne) = true := by
    rw [FoldComparison.operator]
    cases c.isEqual <;> simp
  rw [Options.asciiCaseFold, if_neg hequality, hfield] at h
  obtain ⟨_, hsame, h⟩ := Except.bind_eq_ok_iff.mp h
  obtain rfl := Except.ok.inj hsame
  obtain ⟨type, htype, h⟩ := Except.bind_eq_ok_iff.mp h
  split at h
  next => cases h
  next hstring =>
    obtain rfl := not_not.mp hstring
    obtain ⟨texts, htexts, h⟩ := Except.bind_eq_ok_iff.mp h
    refine ⟨declaredType_eq_ok_iff.mp htype, texts, htexts, ?_⟩
    simpa only [hoperator, Bool.decide_eq_true] using h

/-- The query of a comparison of a fold matches the documents on which the comparison has
the value that is asked for. -/
theorem foldComparison_matches {regexpMatches : String → String → Bool} {c : FoldComparison}
    {query : Query} {d : Document} {x : Option String}
    (h : options.applyResolvedLeaf c.operator c.operands scope polarity = .ok query)
    (hfield : scope.field c.name = .ok field) (hin : options.operatorOverrides .in = none)
    (hx : d.terms field = textTerms x) :
    query.matches regexpMatches d = decide ((c.truth x).polarised (!polarity.holds) = .yes) := by
  rw [applyResolvedLeaf_fold] at h
  obtain ⟨hdeclared, texts, htexts, h⟩ := asciiCaseFold_eq_ok h hfield
  have henumerates := asciiCaseVariants_enumerates htexts
  obtain rfl := plainLeaf_texts hfield hdeclared hin h
  rw [matches_membership hx, Polarity.holds_ofBool]
  cases x with
  | none => cases polarity <;> rfl
  | some s =>
      rw [Option.any_some, FoldComparison.truth]
      simp only [henumerates.mem_iff s]
      cases c.isEqual <;> cases polarity <;> simp [Polarity.holds]

end Membership

end QueryPlanAdapters.Elasticsearch
