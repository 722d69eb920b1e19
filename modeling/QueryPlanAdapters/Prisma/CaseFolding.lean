import QueryPlanAdapters.Prisma.Quantifiers
import QueryPlanAdapters.Elasticsearch.CaseFolding

/-!
# Prisma: the spellings of a literal

A comparison of `upperAscii` with a literal is an IN over the literal's spellings, which
are built up one character after the other. The value it has on a record is compared with
CEL's, which is an error when the column is NULL or a hop on the way to it is absent.
-/

namespace QueryPlanAdapters.Prisma

open AsciiCase Sql

/-! ## Spellings -/

/-- One character of `JSON.stringify(text)`. -/
def jsonCharacter (c : Char) : List Char :=
  match c with
  | '"' => ['\\', '"']
  | '\\' => ['\\', '\\']
  | '\n' => ['\\', 'n']
  | '\r' => ['\\', 'r']
  | '\t' => ['\\', 't']
  | c =>
      if c.toNat = 8 then ['\\', 'b']
      else if c.toNat = 12 then ['\\', 'f']
      else if c.toNat < 32 then
        ['\\', 'u', '0', '0', Nat.digitChar (c.toNat / 16), Nat.digitChar (c.toNat % 16)]
      else [c]

/-- `JSON.stringify(text)`, of a well-formed text. -/
def jsonString (text : String) : String :=
  String.ofList ('"' :: (text.toList.flatMap jsonCharacter ++ ['"']))

/-- Past this many spellings, `upperAscii(x) == "LIT"` is refused. -/
def maxUpperAsciiSpellings : Nat := 1024

/-- Each spelling so far with the character in either case. -/
def withCharacter (character : Char) (spellings : List String) : List String :=
  let cases := if isFolded true character then [character, switch true character] else [character]
  spellings.flatMap fun start => cases.map start.push

/-- The spellings of a literal whose remaining characters are given. -/
def spellingsFrom (literal : String) : (spellings : List String) → List Char →
    Except Refusal (List String)
  | spellings, [] => .ok spellings
  | spellings, character :: characters =>
      if isFolded false character then .ok []
      else if maxUpperAsciiSpellings < (withCharacter character spellings).length then
        unsupported ("Cannot translate upperAscii() == " ++ jsonString literal ++
          ": its spellings exceed the " ++ toString maxUpperAsciiSpellings ++ "-entry limit")
      else spellingsFrom literal (withCharacter character spellings) characters

def upperAsciiSpellings (literal : String) : Except Refusal (List String) :=
  spellingsFrom literal [""] literal.toList

example : upperAsciiSpellings "A1b" = .ok [] := rfl

/-! ## The comparison -/

def assertStringField (fieldRef : ResolvedFieldReference) (operator : String) :
    Except Refusal Unit :=
  match fieldRef.valueType with
  | none | some .string => .ok ()
  | some type => unsupported (operator ++ " requires a string field, got " ++ type.name)

/-- Record that a reference, the variable of a projected list, is read by a function that
raises an error on a null element. -/
def recordErroringNullElement (context : TranslationContext) (name : String)
    (resolved : ResolvedFieldReference) : Translation Unit :=
  if resolved.nullable = some false || !(resolved.relations.getD []).isEmpty then pure ()
  else match context.scopes.reverse.findIdx? (·.variableName = name) with
    | none => pure ()
    | some inner => do
        let field ← getLeafField resolved.path
        modify (·.modify (context.scopes.length - 1 - inner) (·.addNullable field))

/-- `x.upperAscii() == "LIT"` and `!=`, as an IN over the spellings. -/
def tryHandleUpperAsciiComparison (operator : PlanOperator) (operands : List Node)
    (context : TranslationContext) : Translation PrismaFilter :=
  let compared := match operands with
    | [first, second] => if isUpperAscii first then some (first, second) else some (second, first)
    | _ => none
  match compared with
  | some (.expression _ [.var name], .value (.string literal)) => do
      let fieldRef ← reading (resolveFieldReference name context)
      assertStringField fieldRef "upperAscii"
      recordErroringNullElement context name fieldRef
      let spellings ← upperAsciiSpellings literal
      let filter ← buildFieldFilter fieldRef .in (.array (spellings.map .string))
      return if operator = .eq then filter else .NOT filter
  | _ =>
      unsupported ("upperAscii() is translated only as a column compared with a string literal: " ++
        "a Prisma filter has no ASCII-only case mapping")

/-- The handlers with the comparison of a fold. -/
def Builder.withUpperAscii (handlers : Builder) : Builder :=
  { handlers with upperAsciiComparison := tryHandleUpperAsciiComparison }

/-! ## The spellings are those of the texts that fold to the literal -/

variable {spellings : List String}

theorem mem_withCharacter {c : Char} {s : String} (hreached : ¬ isFolded false c = true) :
    s ∈ withCharacter c spellings ↔
      ∃ start ∈ spellings, ∃ d ∈ spellingsOf true c, s = start.push d := by
  simp only [withCharacter, spellingsOf, Bool.not_true, if_neg hreached, List.mem_flatMap,
    List.mem_map, @eq_comm _ s]

theorem nodup_withCharacter {c : Char}
    (hreached : ¬ isFolded false c = true) (h : spellings.Nodup) :
    (withCharacter c spellings).Nodup := by
  have hpush : ∀ {s t : String} {d e : Char}, s.push d = t.push e → s = t ∧ d = e := by
    intro s t d e heq
    have hlists := congrArg String.toList heq
    rw [String.toList_push, String.toList_push] at hlists
    obtain ⟨hs, hd⟩ := List.append_inj' hlists rfl
    exact ⟨String.toList_inj.mp hs, List.singleton_inj.mp hd⟩
  have hcases := nodup_spellingsOf true c
  rw [spellingsOf, Bool.not_true, if_neg hreached] at hcases
  rw [withCharacter, List.nodup_flatMap]
  constructor
  · intro start _
    exact hcases.map fun d e heq => (hpush heq).2
  · refine h.imp ?_
    intro s t hne u hs ht
    obtain ⟨d, -, rfl⟩ := List.mem_map.mp hs
    obtain ⟨e, -, heq⟩ := List.mem_map.mp ht
    exact hne (hpush heq).1.symm

/-- The result is the spellings so far, each with every spelling of what is left. -/
theorem spellingsFrom_eq_ok {literal : String} {texts : List String}
    {characters : List Char} (h : spellingsFrom literal spellings characters = .ok texts)
    (hnodup : spellings.Nodup) :
    texts.Nodup ∧ ∀ s, s ∈ texts ↔
      ∃ start ∈ spellings, ∃ rest, Spells true characters rest ∧ s.toList = start.toList ++ rest := by
  induction characters generalizing spellings with
  | nil =>
      obtain rfl := Except.ok.inj h
      refine ⟨hnodup, fun s => ⟨fun hs => ⟨s, hs, [], .nil, by simp⟩, ?_⟩⟩
      rintro ⟨start, hstart, rest, hrest, hs⟩
      obtain rfl := List.forall₂_nil_left_iff.mp hrest
      rw [List.append_nil, String.toList_inj] at hs
      rwa [hs]
  | cons c characters ih =>
      rw [spellingsFrom] at h
      split at h
      next hreached =>
        obtain rfl := Except.ok.inj h
        refine ⟨List.nodup_nil, fun s => iff_of_false List.not_mem_nil ?_⟩
        rintro ⟨start, -, rest, hrest, -⟩
        obtain ⟨d, -, hd, -, -⟩ := List.forall₂_cons_left_iff.mp hrest
        have hnone : spellingsOf true c = [] := spellingsOf_eq_nil_iff.mpr hreached
        rw [hnone] at hd
        cases hd
      next hreached =>
        split at h
        next => cases h
        next =>
          obtain ⟨htexts, hmem⟩ := ih h (nodup_withCharacter hreached hnodup)
          refine ⟨htexts, fun s => (hmem s).trans ?_⟩
          simp only [mem_withCharacter hreached]
          constructor
          · rintro ⟨_, ⟨start, hstart, d, hd, rfl⟩, rest, hrest, hs⟩
            refine ⟨start, hstart, d :: rest, .cons hd hrest, ?_⟩
            rw [hs, String.toList_push, List.append_assoc, List.singleton_append]
          · rintro ⟨start, hstart, _, hspells, hs⟩
            obtain ⟨d, rest, hd, hrest, rfl⟩ := List.forall₂_cons_left_iff.mp hspells
            refine ⟨start.push d, ⟨start, hstart, d, hd, rfl⟩, rest, hrest, ?_⟩
            rw [hs, String.toList_push, List.append_assoc, List.singleton_append]

theorem upperAsciiSpellings_enumerates {literal : String} {texts : List String}
    (h : upperAsciiSpellings literal = .ok texts) : Enumerates true literal texts := by
  obtain ⟨hnodup, hmem⟩ := spellingsFrom_eq_ok h (List.nodup_singleton "")
  refine ⟨hnodup, fun s => (hmem s).trans ?_⟩
  rw [fold_eq_iff_spells]
  simp

/-- A literal of ten capitals or fewer is within the limit. -/
theorem upperAsciiSpellings_accepted {literal : String}
    (h : literal.toList.countP (isFolded true) ≤ 10) :
    ∃ texts, upperAsciiSpellings literal = .ok texts := by
  have hlength : ∀ c (spellings : List String), (withCharacter c spellings).length =
      spellings.length * if isFolded true c then 2 else 1 := by
    intro c spellings
    rw [withCharacter, List.length_flatMap]
    by_cases hfolded : isFolded true c = true <;> simp [hfolded]
  have hrun : ∀ characters (spellings : List String),
      spellings.length * 2 ^ characters.countP (isFolded true) ≤ 1024 →
        ∃ texts, spellingsFrom literal spellings characters = .ok texts := by
    intro characters
    induction characters with
    | nil => exact fun spellings _ => ⟨spellings, rfl⟩
    | cons c characters ih =>
        intro spellings hcount
        have hnext : (withCharacter c spellings).length *
            2 ^ characters.countP (isFolded true) ≤ 1024 := by
          refine le_of_eq_of_le ?_ hcount
          rw [hlength, List.countP_cons]
          by_cases hfolded : isFolded true c = true
          · rw [if_pos hfolded, if_pos hfolded, pow_succ, mul_assoc, mul_comm 2]
          · rw [if_neg hfolded, if_neg hfolded, mul_one, add_zero]
        have hlimit : (withCharacter c spellings).length ≤ 1024 :=
          (Nat.le_mul_of_pos_right _ (Nat.two_pow_pos _)).trans hnext
        rw [spellingsFrom]
        split
        next => exact ⟨[], rfl⟩
        next =>
          rw [maxUpperAsciiSpellings, if_neg (not_lt.mpr hlimit)]
          exact ih _ hnext
  refine hrun literal.toList [""] ?_
  rw [List.length_singleton, one_mul]
  exact Nat.pow_le_pow_right (by omega) h

/-! ## The IN on a record -/

section Record

variable {ρ : Type} (engine : Engine) (store : Store ρ)

/-- The records that a chain of relations leads to. -/
def reached : (relations : List RelationConfig) → ρ → List ρ
  | [], r => [r]
  | relation :: relations, r =>
      (Condition.visible engine store relation r).flatMap (reached relations)

/-- A text column that to-one relations lead to, with its value on a record: none when a
record on the way is absent, and none of a NULL. -/
structure TextAttribute (relations : List RelationConfig) (column : String) (r : ρ)
    (x : Option String) : Prop where
  toOne : ∀ relation ∈ relations, relation.type = .one
  value : (reached engine store relations r = [] ∧ x = none) ∨
    ∃ e, reached engine store relations r = [e] ∧ store.column e column = x.elim .null .text

variable {engine store}

/-- An existence test through a relation is TRUE or FALSE. -/
theorem truth_relationFilter_exists {relation : RelationConfig} {inner : PrismaFilter} {r : ρ} :
    (relationFilter relation (relationOperator relation) inner).truth engine store r =
      .ofBool ((Condition.visible engine store relation r).any (inner.matches engine store)) := by
  have hoperator : relationOperator relation ≠ .every := by
    rw [relationOperator]
    split <;> exact RelationOperator.noConfusion
  have hexists : ∀ filter, (PrismaFilter.relation relation.name (relationOperator relation)
      filter).truth engine store r =
        .ofBool ((store.related r relation.name).any (filter.matches engine store)) := by
    intro filter
    rw [relationOperator]
    cases relation.type <;> rfl
  rw [relationFilter, Condition.visible]
  cases relation.subqueryFilter with
  | none => simp only [hexists, Option.all_none, List.filter_true]
  | some declared =>
      simp only [if_neg hoperator, hexists, List.any_filter, Option.all_some]
      congr 2
      funext e
      cases hinner : inner.isEmpty with
      | true =>
          have hmatches : inner.matches engine store e = true := by
            cases inner <;> first | rfl | cases hinner
          rw [if_pos rfl, hmatches, Bool.and_true]
          rfl
      | false => simp [PrismaFilter.matches]

/-- Through relations a filter is an existence test on the records that they lead to. -/
theorem truth_wrapInRelations {relations : List RelationConfig} {filter : PrismaFilter} {r : ρ}
    (h : relations ≠ []) :
    (wrapInRelations relations filter).truth engine store r =
      .ofBool ((reached engine store relations r).any (filter.matches engine store)) := by
  induction relations generalizing r with
  | nil => exact absurd rfl h
  | cons relation relations ih =>
      rw [wrapInRelations, List.foldr_cons, truth_relationFilter_exists, reached, List.any_flatMap]
      congr 2
      funext e
      by_cases hlast : relations = []
      · subst hlast
        rw [reached, List.any_cons, List.any_nil, Bool.or_false]
        rfl
      · have hrest := ih (r := e) hlast
        rw [wrapInRelations] at hrest
        rw [PrismaFilter.matches, hrest]
        cases (reached engine store relations e).any (filter.matches engine store) <;> rfl

theorem fieldTruth_in_null (texts : List String) :
    fieldTruth engine .in .null (.array (texts.map .string)) =
      if texts = [] then .no else .unknown := by
  have hcompare : ∀ t : String, engine.compare .eq .null (boundLiteral (.string t)) = .unknown :=
    fun _ => rfl
  rw [fieldTruth, List.map_map]
  induction texts with
  | nil => rfl
  | cons t texts ih =>
      rw [List.map_cons, Truth.any, ih, Function.comp_apply, hcompare, if_neg (List.cons_ne_nil _ _)]
      split <;> rfl

theorem fieldTruth_in_text (s : String) (texts : List String) :
    fieldTruth engine .in (.text s) (.array (texts.map .string)) = .ofBool (s ∈ texts) := by
  have hcompare : ∀ t : String,
      engine.compare .eq (.text s) (boundLiteral (.string t)) = .ofBool (decide (s = t)) := by
    intro t
    have htest : ComparisonOperator.eq.test (.finite (compareCodePoints s.toList t.toList))
        (.finite 0) = decide (s = t) := by
      rw [ComparisonOperator.test, Double.eq_finite, decide_eq_decide, Int.cast_eq_zero,
        compareCodePoints_eq_zero_iff, String.toList_inj]
    rw [← htest]
    rfl
  rw [fieldTruth, List.map_map]
  induction texts with
  | nil => rfl
  | cons t texts ih =>
      rw [List.map_cons, Truth.any, ih, Function.comp_apply, hcompare, Truth.or_ofBool]
      simp

/-- The value of an IN over texts on the row of the column. -/
theorem truth_in_texts {column : String} {e : ρ} {x : Option String} (texts : List String)
    (hcolumn : store.column e column = x.elim .null .text) :
    (PrismaFilter.field column .in (.array (texts.map .string))).truth engine store e =
      x.elim (if texts = [] then .no else .unknown) fun s => .ofBool (s ∈ texts) := by
  rw [PrismaFilter.truth_field, hcolumn]
  cases x with
  | none => exact fieldTruth_in_null texts
  | some s => exact fieldTruth_in_text s texts

/-- The value of an IN over texts of an attribute that relations lead to. -/
def membershipTruth (relations : List RelationConfig) (texts : List String) :
    Option String → Truth
  | none => if relations = [] ∧ texts ≠ [] then .unknown else .no
  | some s => .ofBool (s ∈ texts)

/-- The value of an IN over texts through the relations that lead to the column. -/
theorem TextAttribute.truth_in {relations : List RelationConfig} {column : String} {r : ρ}
    {x : Option String} (h : TextAttribute engine store relations column r x) (texts : List String) :
    (wrapInRelations relations (.field column .in (.array (texts.map .string)))).truth engine store r =
      membershipTruth relations texts x := by
  rw [membershipTruth.eq_def]
  by_cases hdirect : relations = []
  · subst hdirect
    obtain ⟨hnone, -⟩ | ⟨e, he, hcolumn⟩ := h.value
    · cases hnone
    · obtain rfl : r = e := by simpa [reached] using he
      rw [wrapInRelations, List.foldr_nil, truth_in_texts texts hcolumn]
      cases x with
      | none => by_cases hnil : texts = [] <;> simp [hnil]
      | some s => rfl
  · rw [truth_wrapInRelations hdirect]
    obtain ⟨hnone, rfl⟩ | ⟨e, he, hcolumn⟩ := h.value
    · simp [hnone, hdirect]
    · rw [he, List.any_cons, List.any_nil, Bool.or_false, PrismaFilter.matches,
        truth_in_texts texts hcolumn]
      cases x with
      | none => by_cases hnil : texts = [] <;> simp [hnil, hdirect]
      | some s => by_cases hs : s ∈ texts <;> simp [hs]

theorem wrapInRelations_isEmpty {relations : List RelationConfig} {filter : PrismaFilter}
    (h : filter.isEmpty = false) : (wrapInRelations relations filter).isEmpty = false := by
  cases relations with
  | nil => exact h
  | cons relation relations =>
      rw [wrapInRelations, List.foldr_cons]
      exact relationFilter_isEmpty _ _

end Record

/-! ## The filters of a comparison -/

section Filters

variable {c : FoldComparison} {context : TranslationContext} {handlers : Builder}
  {scopes scopes' : List ScopeRecord} {filter : PrismaFilter}

theorem reading_result {α : Type} {x : Reading α} {a : α} (h : reading x scopes = .ok (a, scopes')) :
    x.result = a :=
  congrArg Prod.fst (Except.ok.inj h)

/-- The filter of the IN over the spellings, and of its negation for `!=`. -/
theorem tryHandleUpperAsciiComparison_eq_ok (hupper : c.upper = true)
    (h : tryHandleUpperAsciiComparison c.operator c.operands context scopes = .ok (filter, scopes')) :
    ∃ column texts, getLeafField (resolveFieldReference c.name context).result.path = .ok column ∧
      upperAsciiSpellings c.literal = .ok texts ∧
      filter = if c.isEqual then
          wrapInRelations ((resolveFieldReference c.name context).result.relations.getD [])
            (.field column .in (.array (texts.map .string)))
        else .NOT (wrapInRelations ((resolveFieldReference c.name context).result.relations.getD [])
            (.field column .in (.array (texts.map .string)))) := by
  have hrun : tryHandleUpperAsciiComparison c.operator c.operands context = (do
      let fieldRef ← reading (resolveFieldReference c.name context)
      assertStringField fieldRef "upperAscii"
      recordErroringNullElement context c.name fieldRef
      let spellings ← upperAsciiSpellings c.literal
      let filter ← buildFieldFilter fieldRef .in (.array (spellings.map .string))
      return if c.operator = .eq then filter else .NOT filter) := by
    obtain ⟨upper, isEqual, foldFirst, name, literal⟩ := c
    obtain rfl : upper = true := hupper
    cases foldFirst <;> rfl
  rw [hrun] at h
  obtain ⟨fieldRef, _, hread, h⟩ := Translation.bind_eq_ok_iff.mp h
  obtain rfl := reading_result hread
  obtain ⟨_, _, -, h⟩ := Translation.bind_eq_ok_iff.mp h
  obtain ⟨_, _, -, h⟩ := Translation.bind_eq_ok_iff.mp h
  obtain ⟨texts, _, htexts, h⟩ := Translation.bind_eq_ok_iff.mp h
  obtain ⟨htexts, -⟩ := Translation.lift_eq_ok_iff.mp htexts
  obtain ⟨leaf, _, hleaf, h⟩ := Translation.bind_eq_ok_iff.mp h
  obtain ⟨hleaf, -⟩ := Translation.lift_eq_ok_iff.mp hleaf
  obtain ⟨column, hcolumn, hleaf⟩ := Except.bind_eq_ok_iff.mp hleaf
  obtain rfl := Except.ok.inj hleaf
  obtain ⟨rfl, -⟩ := Translation.pure_eq_ok_iff.mp h
  refine ⟨column, texts, hcolumn, htexts, ?_⟩
  rw [FoldComparison.operator]
  cases c.isEqual <;> rfl

/-- The filter required outside of a negation, of an operand with one reference. -/
theorem buildExpressionHopsExistFilter_single {operand : Node} {name : String}
    (hvisited : visitedReferences operand = [name]) :
    (buildExpressionHopsExistFilter operand context).result =
      buildHopsExistFilter
        (requiredHops ((resolveFieldReference name context).result.relations.getD [])) := by
  have hfilters : (hopFilters context [name]).result =
      (buildHopsExistFilter
        (requiredHops ((resolveFieldReference name context).result.relations.getD []))).toList := by
    simp [hopFilters]
  have hsingle : [name].eraseDups = [name] := by
    rw [List.eraseDups_cons, List.filter_nil, List.eraseDups_nil]
  rw [buildExpressionHopsExistFilter, hvisited, hsingle, Reading.bind_result, hfilters]
  cases buildHopsExistFilter
    (requiredHops ((resolveFieldReference name context).result.relations.getD [])) <;> rfl

/-- A column reached through to-one relations needs all of them. -/
theorem requiredHops_toOne {relations : List RelationConfig}
    (htoOne : ∀ relation ∈ relations, relation.type = .one) : requiredHops relations = relations := by
  rw [requiredHops]
  split
  next hlast => exact (List.getLast?_eq_none_iff.mp hlast).symm
  next last hlast => rw [if_pos (htoOne last (List.mem_of_getLast? hlast))]

theorem buildExpressionHopsExistFilter_result {operand : Node} {name : String}
    (hvisited : visitedReferences operand = [name])
    (htoOne : ∀ relation ∈ (resolveFieldReference name context).result.relations.getD [],
      relation.type = .one) :
    (buildExpressionHopsExistFilter operand context).result =
      buildHopsExistFilter ((resolveFieldReference name context).result.relations.getD []) := by
  rw [buildExpressionHopsExistFilter_single hvisited, requiredHops_toOne htoOne]

theorem visitedReferences_comparison :
    visitedReferences (.expression c.operator c.operands) = [c.name] := by
  obtain ⟨upper, isEqual, foldFirst, name, literal⟩ := c
  cases upper <;> cases isEqual <;> cases foldFirst <;> rfl

theorem positiveStep_comparison_fold {b : Builder} (hupper : c.upper = true) :
    b.positiveStep (.expression c.operator c.operands) context =
      b.upperAsciiComparison c.operator c.operands context := by
  obtain ⟨upper, isEqual, foldFirst, name, literal⟩ := c
  obtain rfl : upper = true := hupper
  cases isEqual <;> cases foldFirst <;> rfl

theorem negativeStep_comparison_fold {b : Builder}
    (h : b.negativeStep (.expression c.operator c.operands) context scopes = .ok (filter, scopes')) :
    ∃ middle, b.plainNegation (.expression c.operator c.operands) context middle =
      .ok (filter, scopes') := by
  have hrun : b.negativeStep (.expression c.operator c.operands) context = (do
      let pushes ← reading (referencesRequiredHop (.expression c.operator c.operands) context)
      if !pushes then b.plainNegation (.expression c.operator c.operands) context
      else b.plainNegation (.expression c.operator c.operands) context) := by
    obtain ⟨upper, isEqual, foldFirst, name, literal⟩ := c
    cases upper <;> cases isEqual <;> cases foldFirst <;> rfl
  rw [hrun] at h
  obtain ⟨pushes, middle, -, h⟩ := Translation.bind_eq_ok_iff.mp h
  rw [ite_self] at h
  exact ⟨middle, h⟩

/-- The filter of a comparison, or of its negation, which requires the hops on the way to
the column. -/
theorem build_comparison_eq_ok {fuel : Nat} {negated : Bool} (hupper : c.upper = true)
    (htoOne : ∀ relation ∈ (resolveFieldReference c.name context).result.relations.getD [],
      relation.type = .one)
    (h : (builder handlers.withUpperAscii fuel).build negated (.expression c.operator c.operands)
      context scopes = .ok (filter, scopes')) :
    ∃ positive before after, tryHandleUpperAsciiComparison c.operator c.operands context before =
        .ok (positive, after) ∧
      filter = if negated then
          (buildHopsExistFilter ((resolveFieldReference c.name context).result.relations.getD [])).elim
            (.NOT positive) fun hops => .AND [hops, .NOT positive]
        else positive := by
  have hhandler : ∀ fuel, (builder handlers.withUpperAscii fuel).upperAsciiComparison =
      tryHandleUpperAsciiComparison := by
    intro fuel
    cases fuel <;> rfl
  have hpositive : ∀ {fuel : Nat} {filter before after},
      (builder handlers.withUpperAscii fuel).positive (.expression c.operator c.operands) context
        before = .ok (filter, after) →
      tryHandleUpperAsciiComparison c.operator c.operands context before = .ok (filter, after) := by
    intro fuel filter before after hrun
    cases fuel with
    | zero => cases hrun
    | succ fuel =>
        have hstep : (builder handlers.withUpperAscii fuel).positiveStep
            (.expression c.operator c.operands) context before = .ok (filter, after) := hrun
        rwa [positiveStep_comparison_fold hupper, hhandler] at hstep
  cases negated with
  | false => exact ⟨filter, scopes, scopes', hpositive h, rfl⟩
  | true =>
      cases fuel with
      | zero => cases h
      | succ fuel =>
          obtain ⟨before, h⟩ := negativeStep_comparison_fold h
          obtain ⟨positive, middle, hrun, h⟩ := Translation.bind_eq_ok_iff.mp h
          refine ⟨positive, before, middle, hpositive hrun, ?_⟩
          obtain ⟨hops, _, hhops, h⟩ := Translation.bind_eq_ok_iff.mp h
          obtain ⟨negation, _, hnegation, h⟩ := Translation.bind_eq_ok_iff.mp h
          obtain ⟨hnegation, -⟩ := Translation.lift_eq_ok_iff.mp hnegation
          obtain ⟨rfl, -⟩ := Translation.pure_eq_ok_iff.mp h
          have hresult := reading_result hhops
          rw [buildExpressionHopsExistFilter_result visitedReferences_comparison htoOne] at hresult
          rw [negateFilter] at hnegation
          split at hnegation
          next => cases hnegation
          next =>
            obtain rfl := Except.ok.inj hnegation
            rw [if_pos rfl, hresult]

end Filters

/-! ## What the filters match -/

section Matching

variable {ρ : Type} {engine : Engine} {store : Store ρ} {r : ρ} {x : Option String}
  {relations : List RelationConfig} {column : String}

variable {positive : PrismaFilter}

theorem truth_hopsExist (h : relations ≠ []) :
    (wrapInRelations relations .empty).truth engine store r =
      .ofBool !(reached engine store relations r).isEmpty := by
  rw [truth_wrapInRelations h]
  cases reached engine store relations r <;> rfl

/-- The value of a comparison's filter. -/
theorem TextAttribute.truth_positive {isEqual : Bool} {texts : List String}
    (h : TextAttribute engine store relations column r x)
    (hpositive : positive = if isEqual then
        wrapInRelations relations (.field column .in (.array (texts.map .string)))
      else .NOT (wrapInRelations relations (.field column .in (.array (texts.map .string))))) :
    positive.isEmpty = false ∧ positive.truth engine store r =
      (membershipTruth relations texts x).polarised !isEqual := by
  subst hpositive
  have hempty : (wrapInRelations relations
      (.field column .in (.array (texts.map .string)))).isEmpty = false :=
    wrapInRelations_isEmpty rfl
  cases isEqual with
  | true => exact ⟨hempty, h.truth_in texts⟩
  | false =>
      refine ⟨rfl, ?_⟩
      rw [if_neg Bool.false_ne_true, PrismaFilter.truth_NOT hempty, h.truth_in texts]
      rfl

/-- The value of a negation with the hops on the way required. -/
theorem truth_negation (hempty : positive.isEmpty = false) :
    ((buildHopsExistFilter relations).elim (PrismaFilter.NOT positive) fun hops =>
        .AND [hops, .NOT positive]).truth engine store r =
      if relations ≠ [] ∧ reached engine store relations r = [] then .no
      else (positive.truth engine store r).not := by
  have hnot : (PrismaFilter.NOT positive).truth engine store r =
      (positive.truth engine store r).not := PrismaFilter.truth_NOT hempty
  by_cases hdirect : relations = []
  · subst hdirect
    exact hnot
  · have hhops : buildHopsExistFilter relations = some (wrapInRelations relations .empty) := by
      rw [buildHopsExistFilter, if_neg (by simpa using hdirect)]
    rw [hhops, Option.elim_some, PrismaFilter.truth_AND, List.map_cons, List.map_cons, List.map_nil,
      truth_hopsExist hdirect, hnot]
    cases hreached : reached engine store relations r with
    | nil => simp [hdirect, Truth.all]
    | cons e records => simp [Truth.all]

/-- The filter has the comparison's value when the attribute is there; when it is missing,
only if an equality is asked for, or a NULL in the record's own column meets a spelling, or
a hop on the way is required. -/
theorem TextAttribute.matches_comparison_iff {c : FoldComparison} {negated : Bool}
    {texts : List String} {filter : PrismaFilter}
    (h : TextAttribute engine store relations column r x) (hupper : c.upper = true)
    (htexts : Enumerates true c.literal texts)
    (hpositive : positive = if c.isEqual then
        wrapInRelations relations (.field column .in (.array (texts.map .string)))
      else .NOT (wrapInRelations relations (.field column .in (.array (texts.map .string)))))
    (hfilter : filter = if negated then
        (buildHopsExistFilter relations).elim (.NOT positive) fun hops => .AND [hops, .NOT positive]
      else positive) :
    filter.matches engine store r = decide ((c.truth x).polarised negated = .yes) ↔
      x ≠ none ∨ c.isEqual ≠ negated ∨
        (relations = [] ∧ ∀ d ∈ c.literal.toList, isFolded false d = false) ∨
        (negated = true ∧ reached engine store relations r = []) := by
  obtain ⟨hempty, htruth⟩ := h.truth_positive hpositive
  have hfiltered : filter.truth engine store r =
      if negated = true ∧ relations ≠ [] ∧ reached engine store relations r = [] then .no
      else ((membershipTruth relations texts x).polarised !c.isEqual).polarised negated := by
    rw [hfilter]
    cases negated with
    | false => simpa using htruth
    | true => rw [if_pos rfl, truth_negation hempty, htruth]; simp
  have hspelt : (∀ d ∈ c.literal.toList, isFolded false d = false) ↔ texts ≠ [] := by
    rw [Ne, htexts.eq_nil_iff]
    simp
  rw [PrismaFilter.matches, hfiltered, hspelt]
  cases x with
  | some s =>
      refine iff_of_true ?_ (.inl (Option.some_ne_none s))
      have hreached : reached engine store relations r ≠ [] := by
        obtain ⟨-, hnone⟩ | ⟨e, he, -⟩ := h.value
        · cases hnone
        · rw [he]
          exact List.cons_ne_nil e []
      rw [if_neg fun hblocked => hreached hblocked.2.2, membershipTruth, FoldComparison.truth, hupper]
      simp only [htexts.mem_iff s]
      cases c.isEqual <;> cases negated <;> simp
  | none =>
      rw [membershipTruth, FoldComparison.truth]
      by_cases hdirect : relations = []
      · subst hdirect
        by_cases hnil : texts = [] <;> cases c.isEqual <;> cases negated <;> simp [hnil, reached]
      · by_cases hreached : reached engine store relations r = [] <;> cases c.isEqual <;>
          cases negated <;> simp [hdirect, hreached]

end Matching

end QueryPlanAdapters.Prisma

namespace QueryPlanAdapters

open AsciiCase Prisma

/-- Both adapters list the texts that fold to the literal, each once. The Elasticsearch
query over the list has the value of the comparison on every document, and Prisma's filter
on every record with the attribute. On one without it the filter fails to be UNKNOWN where
an inequality is asked for: of a relation's column, and of a column of the record's own
when the list is empty. -/
theorem caseFolding_matches_iff [Elasticsearch.JavaCharacter] :
    (∀ (upper : Bool) (literal : String),
      (literal.toList.countP (isFolded upper) ≤ 10 →
        ∃ texts, Elasticsearch.asciiCaseVariants literal upper = .ok texts) ∧
      ∀ texts, Elasticsearch.asciiCaseVariants literal upper = .ok texts →
        Enumerates upper literal texts) ∧
    (∀ literal : String,
      (literal.toList.countP (isFolded true) ≤ 10 →
        ∃ texts, upperAsciiSpellings literal = .ok texts) ∧
      ∀ texts, upperAsciiSpellings literal = .ok texts → Enumerates true literal texts) ∧
    (∀ (options : Elasticsearch.Options) (scope : Elasticsearch.Scope) (c : FoldComparison)
        (polarity : Elasticsearch.Polarity) (query : Elasticsearch.Query) (field : String)
        (regexpMatches : String → String → Bool) (d : Elasticsearch.Document) (x : Option String),
      options.applyResolvedLeaf c.operator c.operands scope polarity = .ok query →
      scope.field c.name = .ok field → options.operatorOverrides .in = none →
      d.terms field = Elasticsearch.textTerms x →
        query.matches regexpMatches d =
          decide ((c.truth x).polarised (!polarity.holds) = .yes)) ∧
    ∀ (ρ : Type) (engine : Sql.Engine) (store : Store ρ) (handlers : Builder) (fuel : Nat)
        (context : TranslationContext) (c : FoldComparison) (negated : Bool)
        (scopes scopes' : List ScopeRecord) (filter : PrismaFilter) (r : ρ) (x : Option String)
        (fieldRef : ResolvedFieldReference) (column : String),
      c.upper = true →
      (builder handlers.withUpperAscii fuel).build negated (.expression c.operator c.operands)
        context scopes = .ok (filter, scopes') →
      (resolveFieldReference c.name context).result = fieldRef →
      getLeafField fieldRef.path = .ok column →
      TextAttribute engine store (fieldRef.relations.getD []) column r x →
        (filter.matches engine store r = decide ((c.truth x).polarised negated = .yes) ↔
          x ≠ none ∨ c.isEqual ≠ negated ∨
            (fieldRef.relations.getD [] = [] ∧ ∀ d ∈ c.literal.toList, isFolded false d = false) ∨
            (negated = true ∧ reached engine store (fieldRef.relations.getD []) r = [])) := by
  refine ⟨?_, ?_, ?_, ?_⟩
  · intro upper literal
    exact ⟨Elasticsearch.asciiCaseVariants_accepted,
      fun texts => Elasticsearch.asciiCaseVariants_enumerates⟩
  · intro literal
    exact ⟨upperAsciiSpellings_accepted, fun texts => upperAsciiSpellings_enumerates⟩
  · intro options scope c polarity query field regexpMatches d x h hfield hin hx
    exact Elasticsearch.foldComparison_matches h hfield hin hx
  · rintro ρ engine store handlers fuel context c negated scopes scopes' filter r x _ column hupper
      h rfl hcolumn hattribute
    obtain ⟨positive, before, after, hpositive, hfilter⟩ :=
      build_comparison_eq_ok hupper hattribute.toOne h
    obtain ⟨column', texts, hcolumn', htexts, hpositive⟩ :=
      tryHandleUpperAsciiComparison_eq_ok hupper hpositive
    obtain rfl : column = column' := Except.ok.inj (hcolumn.symm.trans hcolumn')
    exact hattribute.matches_comparison_iff hupper (upperAsciiSpellings_enumerates htexts) hpositive
      hfilter

/-- `R.attr.name` of the column `name`. -/
def nameContext : TranslationContext :=
  rootContext (.object fun reference =>
    if reference = "R.attr.name" then some (.ofField "name") else none) none .omitted

/-- `upperAscii(R.attr.name) == "A"` or with `!=`, of a literal. -/
def nameComparison (isEqual : Bool) (literal : String) : FoldComparison :=
  ⟨true, isEqual, true, "R.attr.name", literal⟩

/-- One record, with a name. -/
def namedStore (name : Sql.SqlValue) : Store Unit :=
  ⟨fun _ _ => name, fun _ _ => []⟩

theorem caseFolding_matches_iff_small :
    Enumerates true "A" ["A", "a"] ∧
      (PrismaFilter.field "name" .in (.array [.string "A", .string "a"])).matches Sql.Engine.bare
        (namedStore (.text "a")) () = true := by
  let _ : Elasticsearch.JavaCharacter :=
    ⟨Char.isAlphanum, Char.isDigit, fun _ _ => rfl, fun _ _ => rfl⟩
  obtain ⟨-, hspellings, -, hrecords⟩ := caseFolding_matches_iff
  refine ⟨(hspellings "A").2 _ rfl, ?_⟩
  have hmatches := (hrecords Unit Sql.Engine.bare (namedStore (.text "a")) refusing 1 nameContext
    (nameComparison true "A") false [] [] (.field "name" .in (.array [.string "A", .string "a"])) ()
    (some "a") _ "name" rfl rfl rfl rfl
    ⟨fun _ h => absurd h List.not_mem_nil, .inr ⟨(), rfl, rfl⟩⟩).mpr (.inl (Option.some_ne_none "a"))
  rw [hmatches]
  decide

/-- Nothing is `upperAscii` of a literal with a small letter, and the empty IN is FALSE on a
NULL: its negation returns the record. -/
theorem caseFolding_emptySpellings :
    TextAttribute Sql.Engine.bare (namedStore .null) [] "name" () none ∧
      (∃ filter, (builder refusing.withUpperAscii 1).build false
          (.expression (nameComparison false "one").operator (nameComparison false "one").operands)
          nameContext [] = .ok (filter, []) ∧
        filter.matches Sql.Engine.bare (namedStore .null) () = true) ∧
      (nameComparison false "one").truth none = .unknown :=
  ⟨⟨fun _ h => absurd h List.not_mem_nil, .inr ⟨(), rfl, rfl⟩⟩, ⟨_, rfl, rfl⟩, rfl⟩

end QueryPlanAdapters
