import QueryPlanAdapters.Elasticsearch.Hierarchies
import QueryPlanAdapters.Prisma.Hierarchies
import QueryPlanAdapters.Mongoose.Hierarchies

/-!
# Hierarchies, adapter by adapter

Each lowering joins the constant's segments with the field's delimiter. It selects what
CEL's relation holds of, whatever text the field stores, exactly where the segments are
found again in the texts that it compares.
-/

namespace QueryPlanAdapters

/-- What is asked of the texts that are stored is asked of all texts. -/
theorem forall_stored_iff {δ : Type} {stored : δ → String → Prop} {selected : δ → Prop}
    {selects holds : String → Prop}
    (hselected : ∀ d text, stored d text → (selected d ↔ selects text))
    (hstored : ∀ text, ∃ d, stored d text) :
    (∀ d text, stored d text → (selected d ↔ holds text)) ↔ ∀ text, selects text ↔ holds text := by
  constructor
  · intro h text
    obtain ⟨d, hd⟩ := hstored text
    rw [← hselected d text hd]
    exact h d text hd
  · intro h d text hd
    rw [hselected d text hd]
    exact h text

/-- What a translation of a relation selects is what CEL's relation holds of, for every
stored text, exactly where the constant's segments are found. -/
theorem hierarchies_select_iff (role : HierarchyRole) (fieldFirst : Bool) :
    (∀ (regexpMatches : String → String → Bool) (valueOf : PlanValue Double → String)
        (translator : Elasticsearch.HierarchyTranslator) (leftOperand rightOperand : Operand Double)
        (polarity : Elasticsearch.Polarity) (left right : Elasticsearch.Hierarchy)
        (field delimiter own : String) (segments : List String) (query : Elasticsearch.Query),
      translator.translate valueOf (role.operator fieldFirst) [leftOperand, rightOperand] polarity =
          .ok query →
        translator.comparesANonStringField [leftOperand, rightOperand] = .ok false →
        (Elasticsearch.normalizeHierarchy <$>
          translator.resolveHierarchy valueOf (role.operator fieldFirst) leftOperand) = .ok left →
        (Elasticsearch.normalizeHierarchy <$>
          translator.resolveHierarchy valueOf (role.operator fieldFirst) rightOperand) = .ok right →
        Elasticsearch.Sides field delimiter own segments fieldFirst left right →
        ((∀ (d : Elasticsearch.Document) (text : String), d.terms field = [.string text] →
          (query.matches regexpMatches d = polarity.holds ↔
            role.test (splitDelimited text delimiter) segments = true)) ↔
          role.Decided delimiter segments)) ∧
    (∀ (ρ : Type) (engine : Sql.Engine) (stringOf : PlanValue Double → String)
        (computedSegment : Operand Double → Prisma.TranslationContext →
          Prisma.Translation Prisma.HierarchySegment)
        (operands : List (Operand Double)) (context : Prisma.TranslationContext)
        (left right : Prisma.ResolvedHierarchy) (scopes extracted translated : List Prisma.ScopeRecord)
        (fieldRef : Prisma.ResolvedFieldReference) (column delimiter : String)
        (segments : List String) (filter : Prisma.PrismaFilter),
      Sql.PlainLike engine →
        Prisma.handleHierarchyOperator stringOf computedSegment (role.operator fieldFirst) operands
          context scopes = .ok (filter, translated) →
        Prisma.extractHierarchyOperands stringOf computedSegment (role.operator fieldFirst).name
          operands context scopes = .ok ((left, right), extracted) →
        Prisma.Sides fieldRef delimiter segments fieldFirst left right →
        Prisma.getLeafField fieldRef.path = .ok column →
        (∀ text, ∃ row : Prisma.Store ρ × ρ, Prisma.TextAttribute engine row.1
          (fieldRef.relations.getD []) column row.2 (some text)) →
        ((∀ (row : Prisma.Store ρ × ρ) (text : String), Prisma.TextAttribute engine row.1
            (fieldRef.relations.getD []) column row.2 (some text) →
          (filter.matches engine row.1 row.2 = true ↔
            role.test (splitDelimited text delimiter) segments = true)) ↔
          Prisma.Decided role delimiter segments)) ∧
    (∀ (regexMatches : String → String → Bool) (mapper : Mongoose.Mapper) (name value : String)
        (fieldSeparator valueSeparator : Option String) (operands : List (Operand Double))
        (reference : Mongoose.ResolvedFieldReference) (filter : Mongoose.MongooseFilter),
      Mongoose.MatchesLiterals regexMatches →
        Mongoose.Sides name value fieldSeparator valueSeparator fieldFirst operands →
        Mongoose.resolveFieldReference name mapper = .ok reference →
        Mongoose.buildHierarchyFilter (role.operator fieldFirst) operands mapper = .ok filter →
        ((∀ (d : Mongoose.Document) (text : String), d reference.path = some (.string text) →
          (filter.matches regexMatches d = true ↔
            role.test (splitDelimited text (fieldSeparator.getD "."))
              (splitDelimited value (valueSeparator.getD ".")) = true)) ↔
          role.Decided (fieldSeparator.getD ".") (splitDelimited value (valueSeparator.getD ".")))) := by
  refine ⟨?_, ?_, ?_⟩
  · intro regexpMatches valueOf translator leftOperand rightOperand polarity left right field
      delimiter own segments query h hstring hleft hright hsides
    rw [← role.forall_selects_iff]
    apply forall_stored_iff
    · intro d text hd
      exact Elasticsearch.HierarchyTranslator.translate_matches h hstring hleft hright hsides hd
    · intro text
      exact ⟨.node (fun _ => [.string text]) fun _ => [], rfl⟩
  · intro ρ engine stringOf computedSegment operands context left right scopes extracted translated
      fieldRef column delimiter segments filter hlike h hextracted hsides hcolumn hstored
    have hfilter : Prisma.hierarchyFilter (role.operator fieldFirst) left right = .ok filter := by
      rw [Prisma.handleHierarchyOperator] at h
      obtain ⟨⟨_, _⟩, hsame, h⟩ := Except.bind_eq_ok_iff.mp h
      rw [hextracted] at hsame
      obtain ⟨rfl, rfl⟩ := Prod.mk.inj (Except.ok.inj hsame)
      obtain ⟨_, hfilter, h⟩ := Except.bind_eq_ok_iff.mp h
      obtain ⟨rfl, -⟩ := Prod.mk.inj (Except.ok.inj h)
      exact hfilter
    rw [← Prisma.forall_selects_iff]
    apply forall_stored_iff (δ := Prisma.Store ρ × ρ)
    · intro row text hrow
      exact Prisma.hierarchyFilter_matches hcolumn hrow hlike hsides hfilter
    · exact hstored
  · intro regexMatches mapper name value fieldSeparator valueSeparator operands reference filter
      hregex hsides hreference h
    obtain ⟨-, hsame, -⟩ := Mongoose.buildHierarchyFilter_eq_ok hsides hreference h
    rw [hsame, ← role.forall_selects_iff]
    apply forall_stored_iff
    · intro d text hd
      exact Mongoose.buildHierarchyFilter_matches hregex hd hsides hreference h
    · intro text
      exact ⟨fun _ => some (.string text), rfl⟩

/-! ### Examples -/

/-- `hierarchy(path, delimiter)` -/
def constantHierarchy (path delimiter : String) : Operand Double :=
  .expression .hierarchy [.value (.string path), .value (.string delimiter)]

/-- `hierarchy(R.attr.path)` -/
def attributeHierarchy : Operand Double :=
  .expression .hierarchy [.var "R.attr.path"]

def pathTranslator : Elasticsearch.HierarchyTranslator :=
  ⟨.root [("R.attr.path", "path")], []⟩

def pathContext : Prisma.TranslationContext :=
  Prisma.rootContext (.object fun reference =>
    if reference = "R.attr.path" then some (.ofField "path") else none) none .explicit

def pathMapper : Mongoose.Mapper :=
  fun reference => if reference = "R.attr.path" then some ⟨some "path", none, none, none⟩ else none

/-- An engine with the standard LIKE and nothing else. -/
def likeEngine : Sql.Engine where
  __ := Sql.Engine.bare
  like text pattern :=
    match text, pattern with
    | .text text, .text pattern => .ofBool (Sql.likeMatches '\\' pattern text)
    | _, _ => .unknown

/-- The characters that a literal pattern stands for. -/
def literalOf : List Char → List Char
  | [] => []
  | [c] => [c]
  | c :: d :: pattern => if c = '\\' then d :: literalOf pattern else c :: literalOf (d :: pattern)

/-- A matcher of literal patterns after `^`. -/
def literalMatches (pattern text : String) : Bool :=
  startsWithText text (String.ofList (literalOf (pattern.toList.drop 1)))

theorem literalOf_eq {pattern literal : List Char} (h : Mongoose.LiteralPattern pattern literal) :
    literalOf pattern = literal := by
  induction h with
  | nil => rfl
  | @plain c pattern literal hplain _ ih =>
      have hc : c ≠ '\\' := by
        rintro rfl
        exact hplain (List.mem_cons_self ..)
      cases pattern with
      | nil => rw [← ih]; rfl
      | cons d pattern => rw [literalOf, if_neg hc, ih]
  | escaped _ _ ih => rw [literalOf, if_pos rfl, ih]

theorem matchesLiterals_literalMatches : Mongoose.MatchesLiterals literalMatches := by
  intro pattern literal text h
  rw [literalMatches, String.toList_append]
  change startsWithText text (String.ofList (literalOf pattern.toList)) = startsWithText text literal
  rw [literalOf_eq h, String.ofList_toList]

theorem plainLike_likeEngine : Sql.PlainLike likeEngine :=
  ⟨fun _ _ _ => rfl⟩

/-- `a.b` is found again in `a.b.`, and has `a.b.c` for a descendant in each adapter. -/
theorem hierarchies_select_iff_small :
    (Elasticsearch.Query.prefixQuery "path" (.string "a.b.")).matches (fun _ _ => false)
        (.node (fun _ => [.string "a.b.c"]) fun _ => []) = true ∧
      (Prisma.PrismaFilter.field "path" .startsWith (.string "a.b.")).matches likeEngine
        (namedStore (.text "a.b.c")) () = true ∧
      (Mongoose.MongooseFilter.field ["path"] (.regex "^a\\.b\\.")).matches literalMatches
        (fun _ => some (.string "a.b.c")) = true := by
  have hfound : SegmentsFound "." ["a", "b"] := by
    rw [SegmentsFound]
    decide
  have hrelated : HierarchyRole.descendant.test (splitDelimited "a.b.c" ".") ["a", "b"] = true := by
    decide
  obtain ⟨helasticsearch, hprisma, hmongoose⟩ := hierarchies_select_iff .descendant false
  refine ⟨?_, ?_, ?_⟩
  · have hall := (helasticsearch (fun _ _ => false) (fun _ => "") pathTranslator
      (constantHierarchy "a/b" "/") attributeHierarchy .true _ _ "path" "." "/" ["a", "b"] _ rfl rfl
      rfl rfl .constantFirst).mpr hfound
    exact (hall _ "a.b.c" rfl).mpr hrelated
  · have hstored : ∀ text, Prisma.TextAttribute likeEngine (namedStore (.text text)) [] "path" ()
        (some text) :=
      fun _ => ⟨fun _ h => absurd h List.not_mem_nil, .inr ⟨(), rfl, rfl⟩⟩
    have hall := (hprisma Unit likeEngine (fun _ => "") (fun _ _ => Prisma.unsupported "")
      [constantHierarchy "a/b" "/", attributeHierarchy] pathContext _ _ [] [] [] _ "path" "." ["a", "b"]
      _ plainLike_likeEngine rfl rfl .constantFirst rfl
      (fun text => ⟨(namedStore (.text text), ()), hstored text⟩)).mpr hfound
    exact (hall (namedStore (.text "a.b.c"), ()) "a.b.c" (hstored "a.b.c")).mpr hrelated
  · have hall := (hmongoose literalMatches pathMapper "R.attr.path" "a.b" none (some ".")
      [constantHierarchy "a.b" ".", attributeHierarchy] ⟨["path"], none⟩ _
      matchesLiterals_literalMatches .constantFirst rfl rfl).mpr hfound
    exact (hall (fun _ => some (.string "a.b.c")) "a.b.c" rfl).mpr hrelated

/-- The constant's segment `a.b` is no segment of `a.b.c.d`, which begins with its text. -/
theorem hierarchies_select_delimiterInSegment :
    ∃ query, pathTranslator.translate (fun _ => "") .ancestorOf [constantHierarchy "a.b/c" "/", attributeHierarchy] .true =
        .ok query ∧
      query.matches (fun _ _ => false) (.node (fun _ => [.string "a.b.c.d"]) fun _ => []) = true ∧
      isStrictAncestor (splitDelimited "a.b/c" "/") (splitDelimited "a.b.c.d" ".") = false :=
  ⟨_, rfl, by decide, by decide⟩

end QueryPlanAdapters
