import QueryPlanAdapters.Prisma.CaseFolding
import QueryPlanAdapters.Cel.Segments
import QueryPlanAdapters.Sql.Escape

/-!
# Prisma: hierarchies

The relations of `hierarchy(...)` operands are lowered to equality, IN-lists of strict
prefixes, and `startsWith` on a column. A delimiter that is empty has one segment for each
code point, and a lowering of its own.
-/

namespace QueryPlanAdapters.Prisma

open Sql

/-! ## Operands -/

inductive HierarchySegment where
  | constant (value : String)
  | field (fieldRef : ResolvedFieldReference)

inductive ResolvedHierarchy where
  | constant (segments : List String)
  | field (fieldRef : ResolvedFieldReference) (delimiter : String)
  | segmented (segments : List HierarchySegment)

/-- A segmented hierarchy whose segments are all constants is a constant hierarchy. -/
def normalizeHierarchy : ResolvedHierarchy → ResolvedHierarchy
  | .segmented segments =>
      let constants := segments.mapM fun segment => match segment with
        | .constant value => some value
        | .field _ => none
      match constants with
      | some constants => .constant constants
      | none => .segmented segments
  | hierarchy => hierarchy

section Resolution

-- `String(value)`, of a literal that is no string, and the segments that are computed.
variable (stringOf : Literal → String)
  (computedSegment : Node → TranslationContext → Translation HierarchySegment)

def literalText : Literal → String
  | .string s => s
  | v => stringOf v

def resolveSegment (operand : Node) (context : TranslationContext) : Translation HierarchySegment :=
  match operand with
  | .value v => return .constant (literalText stringOf v)
  | .var name => do return .field (← reading (resolveFieldReference name context))
  | operand => computedSegment operand context

/-- `splitPath` of a constant, and the reference of a field. -/
def resolvePath (path : Node) (delimiter refusal : String) (context : TranslationContext) :
    Translation ResolvedHierarchy :=
  match path with
  | .value v => return .constant (splitDelimited (literalText stringOf v) delimiter)
  | .var name => do return .field (← reading (resolveFieldReference name context)) delimiter
  | .expression _ _ => unsupported refusal

def resolveHierarchy (operands : List Node) (context : TranslationContext) :
    Translation ResolvedHierarchy :=
  match operands with
  | [path, .value delimiter] =>
      resolvePath stringOf path (literalText stringOf delimiter)
        "hierarchy(string, delimiter) requires a value or field operand" context
  | [_, _] => unsupported "hierarchy delimiter must be a value"
  | [.expression .list segments] => do
      return .segmented (← segments.mapM fun segment =>
        resolveSegment stringOf computedSegment segment context)
  | [path] => resolvePath stringOf path "." "hierarchy requires a value, field, or list operand" context
  | _ => unsupported "hierarchy requires 1 or 2 operands"

def extractHierarchyOperands (operatorName : String) (operands : List Node)
    (context : TranslationContext) : Translation (ResolvedHierarchy × ResolvedHierarchy) :=
  match operands with
  | [.expression .hierarchy left, .expression .hierarchy right] => do
      let left ← resolveHierarchy stringOf computedSegment left context
      let right ← resolveHierarchy stringOf computedSegment right context
      return (normalizeHierarchy left, normalizeHierarchy right)
  | [_, _] => unsupported (operatorName ++ " requires two hierarchy operands")
  | _ => unsupported (operatorName ++ " requires exactly two operands")

end Resolution

/-! ## Filters over one column -/

/-- A prefix with a LIKE metacharacter would match more than itself. -/
def assertLikeSafePrefix (start : String) : Except Refusal Unit :=
  if start.toList.any fun c => c = '%' || c = '_' || c = '[' || c = '\\' then
    unsupported ("Cannot translate hierarchy prefix matching with LIKE metacharacters (%, _, \\ or " ++
      "[): Prisma emits LIKE without an ESCAPE clause, \\ is the default escape character on " ++
      "PostgreSQL and MySQL, and [ opens a character class on SQL Server even with one")
  else .ok ()

def buildImpossibleFilter (fieldRef : ResolvedFieldReference) : Except Refusal PrismaFilter :=
  buildFieldFilter fieldRef .in (.array [])

def getStrictPrefixes (segments : List String) (delimiter : String) : List String :=
  if delimiter = "" then
    -- The empty path is itself a strict prefix, of no segments.
    (List.range segments.length).map fun length => "".intercalate (segments.take length)
  else textsOfFirst delimiter segments

/-- The condition of an overlap on the strict prefixes, if there are any. -/
def prefixFilters (fieldRef : ResolvedFieldReference) (strictPrefixes : List String) :
    Except Refusal (List PrismaFilter) :=
  if strictPrefixes.isEmpty then .ok []
  else List.singleton <$> buildFieldFilter fieldRef .in (.array (strictPrefixes.map .string))

/-- A field that overlaps a constant: a strict ancestor of it, equal, or a descendant. -/
def handleFieldOverlaps (fieldRef : ResolvedFieldReference) (delimiter : String)
    (segments : List String) : Except Refusal PrismaFilter := do
  let otherRaw := delimiter.intercalate segments
  let ancestors ← prefixFilters fieldRef (getStrictPrefixes segments delimiter)
  let equal ← buildFieldFilter fieldRef .equals (.string otherRaw)
  assertLikeSafePrefix (otherRaw ++ delimiter)
  let descendants ← buildFieldFilter fieldRef .startsWith (.string (otherRaw ++ delimiter))
  return .OR (ancestors ++ [equal, descendants])

/-- A field that has a constant for an ancestor. -/
def descendantFilter (fieldRef : ResolvedFieldReference) (delimiter : String)
    (segments : List String) : Except Refusal PrismaFilter :=
  if delimiter = "" then do
    -- At least one more character is LIKE's `_`, which Prisma leaves unescaped.
    let path := "".intercalate segments
    assertLikeSafePrefix path
    buildFieldFilter fieldRef .startsWith (.string (path ++ "_"))
  else do
    let start := delimiter.intercalate segments ++ delimiter
    assertLikeSafePrefix start
    buildFieldFilter fieldRef .startsWith (.string start)

/-- A field that has a constant for a descendant. -/
def ancestorFilter (fieldRef : ResolvedFieldReference) (delimiter : String)
    (segments : List String) : Except Refusal PrismaFilter :=
  match getStrictPrefixes segments delimiter with
  | [] => buildImpossibleFilter fieldRef
  | [text] => buildFieldFilter fieldRef .equals (.string text)
  | texts => buildFieldFilter fieldRef .in (.array (texts.map .string))

/-! ## Segments with fields -/

/-- The conditions under which one list of segments begins another, none if it never does. -/
def prefixConditions : (shorter longer : List HierarchySegment) →
    Except Refusal (Option (List PrismaFilter))
  | [], _ => .ok (some [])
  | _ :: _, [] => .ok none
  | s :: shorter, l :: longer =>
      match s, l with
      | .constant a, .constant b => if a = b then prefixConditions shorter longer else .ok none
      | .field fieldRef, .constant v | .constant v, .field fieldRef => do
          let condition ← buildFieldFilter fieldRef .equals (.string v)
          return (← prefixConditions shorter longer).map (condition :: ·)
      | .field _, .field _ =>
          unsupported "Cannot compare two field references in hierarchy overlap"

def checkPrefixConditions (shorter longer : List HierarchySegment) :
    Except Refusal (Option PrismaFilter) :=
  if longer.length < shorter.length then .ok none
  else do
    return (← prefixConditions shorter longer).map fun conditions => match conditions with
      | [] => .empty
      | [condition] => condition
      | conditions => .AND conditions

/-- The reference of a segment that is a field. -/
def HierarchySegment.fieldRef? : HierarchySegment → Option ResolvedFieldReference
  | .field fieldRef => some fieldRef
  | .constant _ => none

/-- An overlap of two lists of segments. Each nullable field keeps its UNKNOWN. -/
def segmentsOverlap (left right : List HierarchySegment) : Except Refusal PrismaFilter := do
  let leftFirst ← checkPrefixConditions left right
  let rightFirst ← checkPrefixConditions right left
  let fields := (left ++ right).filterMap HierarchySegment.fieldRef?
  let pairs ← (fields.filter (·.nullable ≠ some false)).mapM fun fieldRef => do
    return (← buildFieldFilter fieldRef .equals (.string ""), ← buildFieldFilter fieldRef .not (.string ""))
  let presence := pairs.map fun (equal, unequal) => PrismaFilter.OR [equal, unequal]
  let unknown := pairs.map fun (equal, unequal) => PrismaFilter.AND [equal, unequal]
  match leftFirst.toList ++ rightFirst.toList, fields with
  | [], [] => unsupported "Cannot determine overlap: no field references found"
  | [], fieldRef :: _ => if unknown.isEmpty then buildImpossibleFilter fieldRef else return .OR unknown
  | condition :: conditions, _ =>
      if (condition :: conditions).any (·.isEmpty) then
        return if presence.isEmpty then .empty else .AND presence
      else
        return if presence.isEmpty then condition
          else .OR (.AND (condition :: presence) :: unknown)

def ResolvedHierarchy.toSegments : ResolvedHierarchy → List HierarchySegment
  | .constant segments => segments.map .constant
  | .segmented segments => segments
  | .field _ _ => []

/-! ## Relations -/

def handleOverlaps (left right : ResolvedHierarchy) : Except Refusal PrismaFilter :=
  match left, right with
  | .field _ _, .field _ _ =>
      unsupported "overlaps: cannot compare two field-reference hierarchies"
  | .field fieldRef delimiter, .constant segments | .constant segments, .field fieldRef delimiter =>
      handleFieldOverlaps fieldRef delimiter segments
  | .field _ _, .segmented _ | .segmented _, .field _ _ =>
      unsupported "overlaps: segmented hierarchies with field hierarchies are not supported"
  | left, right => segmentsOverlap left.toSegments right.toSegments

def assertStringHierarchy (operatorName : String) : ResolvedHierarchy → Except Refusal Unit
  | .field fieldRef _ => assertStringField fieldRef operatorName
  | _ => .ok ()

/-- `handleAncestorDescendantOperator` -/
def handleAncestorDescendant (operator : PlanOperator) (left right : ResolvedHierarchy) :
    Except Refusal PrismaFilter := do
  let (ancestor, descendant) := if operator = .ancestorOf then (left, right) else (right, left)
  let direction := if operator = .ancestorOf then "ancestor" else "descendant"
  assertStringHierarchy operator.name ancestor
  assertStringHierarchy operator.name descendant
  match ancestor, descendant with
  | .constant segments, .field fieldRef delimiter => descendantFilter fieldRef delimiter segments
  | .field fieldRef delimiter, .constant segments => ancestorFilter fieldRef delimiter segments
  | .constant a, .constant d =>
      if isStrictAncestor a d then return .empty
      else unsupported (operator.name ++ ": constants do not satisfy " ++ direction ++ " relationship")
  | _, _ => unsupported (operator.name ++ ": unsupported hierarchy type combination")

/-- `ancestorOf`, `descendentOf` and `overlaps`. -/
def hierarchyFilter (operator : PlanOperator) (left right : ResolvedHierarchy) :
    Except Refusal PrismaFilter :=
  if operator = .overlaps then handleOverlaps left right
  else handleAncestorDescendant operator left right

def handleHierarchyOperator (stringOf : Literal → String)
    (computedSegment : Node → TranslationContext → Translation HierarchySegment)
    (operator : PlanOperator) (operands : List Node) (context : TranslationContext) :
    Translation PrismaFilter := do
  let (left, right) ←
    extractHierarchyOperands stringOf computedSegment operator.name operands context
  hierarchyFilter operator left right

/-! ## What the filters match -/

section Matching

variable {ρ : Type} {engine : Engine} {store : Store ρ} {r : ρ} {column text : String}
  {fieldRef : ResolvedFieldReference} {delimiter : String} {segments : List String}
  {filter : PrismaFilter}

/-- What the filter of a relation asks of the text. -/
def Selects (role : HierarchyRole) (delimiter : String) (segments : List String) (text : String) :
    Prop :=
  match role with
  | .ancestor =>
      if delimiter = "" then IsTextOfInitial segments text else IsTextOfFirst delimiter segments text
  | .descendant =>
      if delimiter = "" then Continues segments text
      else startsWithText text (delimiter.intercalate segments ++ delimiter) = true
  | .overlapping =>
      (if delimiter = "" then IsTextOfInitial segments text
        else IsTextOfFirst delimiter segments text) ∨
      text = delimiter.intercalate segments ∨
      startsWithText text (delimiter.intercalate segments ++ delimiter) = true

theorem mem_getStrictPrefixes :
    text ∈ getStrictPrefixes segments delimiter ↔
      if delimiter = "" then IsTextOfInitial segments text
      else IsTextOfFirst delimiter segments text := by
  rw [getStrictPrefixes]
  split
  next => simp [IsTextOfInitial, @eq_comm _ text]
  next => exact mem_textsOfFirst

theorem assertLikeSafePrefix_eq_ok {start : String} (h : assertLikeSafePrefix start = .ok ()) :
    ∀ c ∈ start.toList, c ≠ '%' ∧ c ≠ '_' ∧ c ≠ '[' ∧ c ≠ '\\' := by
  rw [assertLikeSafePrefix] at h
  split at h
  next => cases h
  next hsafe =>
    intro c hc
    simp only [List.any_eq_true, not_exists, not_and, Bool.or_eq_true, decide_eq_true_eq,
      not_or] at hsafe
    obtain ⟨⟨⟨hrun, hone⟩, hclass⟩, hescape⟩ := hsafe c hc
    exact ⟨hrun, hone, hclass, hescape⟩

theorem buildFieldFilter_eq (hcolumn : getLeafField fieldRef.path = .ok column)
    (operator : FieldOperator) (v : Literal) :
    buildFieldFilter fieldRef operator v =
      .ok (wrapInRelations (fieldRef.relations.getD []) (.field column operator v)) := by
  rw [buildFieldFilter, hcolumn]
  rfl

/-- Through relations, a condition on the column is one on the text it holds. -/
theorem TextAttribute.matches_leaf {relations : List RelationConfig}
    (h : TextAttribute engine store relations column r (some text)) (operator : FieldOperator)
    (v : Literal) :
    (wrapInRelations relations (.field column operator v)).matches engine store r = true ↔
      fieldTruth engine operator (.text text) v = .yes := by
  rw [← decide_eq_true_iff (p := fieldTruth engine operator (.text text) v = .yes), Bool.coe_iff_coe]
  obtain ⟨-, hnone⟩ | ⟨e, he, hcolumn⟩ := h.value
  · cases hnone
  · have hleaf : (PrismaFilter.field column operator v).matches engine store e =
        decide (fieldTruth engine operator (.text text) v = .yes) := by
      rw [PrismaFilter.matches, PrismaFilter.truth_field, hcolumn]
      rfl
    by_cases hdirect : relations = []
    · subst hdirect
      obtain rfl : r = e := by simpa [reached] using he
      exact hleaf
    · rw [PrismaFilter.matches, truth_wrapInRelations hdirect, he, List.any_cons, List.any_nil,
        Bool.or_false, hleaf]
      cases decide (fieldTruth engine operator (.text text) v = .yes) <;> rfl

theorem fieldTruth_in_iff (texts : List String) :
    fieldTruth engine .in (.text text) (.array (texts.map .string)) = .yes ↔ text ∈ texts := by
  rw [fieldTruth_in_text, Truth.ofBool_eq_yes_iff, decide_eq_true_iff]

theorem fieldTruth_equals_iff (s : String) :
    fieldTruth engine .equals (.text text) (.string s) = .yes ↔ text = s := by
  have hsame : fieldTruth engine .equals (.text text) (.string s) =
      fieldTruth engine .in (.text text) (.array ([s].map .string)) := by
    exact (Truth.or_no (engine.compare .eq (.text text) (.text s))).symm
  rw [hsame, fieldTruth_in_iff, List.mem_singleton]

theorem fieldTruth_startsWith_iff (hlike : PlainLike engine) {start : String}
    (hsafe : assertLikeSafePrefix start = .ok ()) :
    fieldTruth engine .startsWith (.text text) (.string start) = .yes ↔
      startsWithText text start = true := by
  have hplain := assertLikeSafePrefix_eq_ok hsafe
  have hpattern : ∀ c ∈ (start ++ "%").toList, c ≠ '\\' ∧ c ≠ '[' := by
    intro c hc
    rw [String.toList_append, List.mem_append] at hc
    obtain hc | hc := hc
    · exact ⟨(hplain c hc).2.2.2, (hplain c hc).2.2.1⟩
    · obtain rfl : c = '%' := by simpa using hc
      decide
  rw [fieldTruth, hlike.text text _ hpattern, Truth.ofBool_eq_yes_iff, likeMatches_plain_run]
  intro c hc
  exact ⟨(hplain c hc).2.2.2, (hplain c hc).1, (hplain c hc).2.1⟩

theorem fieldTruth_startsWith_one_iff (hlike : PlainLike engine) {start : String}
    (hsafe : assertLikeSafePrefix start = .ok ()) :
    fieldTruth engine .startsWith (.text text) (.string (start ++ "_")) = .yes ↔
      ∃ c after, text.toList = start.toList ++ c :: after := by
  have hplain := assertLikeSafePrefix_eq_ok hsafe
  have hpattern : ∀ c ∈ (start ++ "_" ++ "%").toList, c ≠ '\\' ∧ c ≠ '[' := by
    intro c hc
    rw [String.toList_append, String.toList_append, List.mem_append, List.mem_append] at hc
    obtain (hc | hc) | hc := hc
    · exact ⟨(hplain c hc).2.2.2, (hplain c hc).2.2.1⟩
    · obtain rfl : c = '_' := by simpa using hc
      decide
    · obtain rfl : c = '%' := by simpa using hc
      decide
  rw [fieldTruth, hlike.text text _ hpattern, Truth.ofBool_eq_yes_iff, likeMatches_plain_one]
  intro c hc
  exact ⟨(hplain c hc).2.2.2, (hplain c hc).1, (hplain c hc).2.1⟩

theorem matches_OR_iff (filters : List PrismaFilter) :
    (PrismaFilter.OR filters).matches engine store r = true ↔
      ∃ f ∈ filters, f.matches engine store r = true := by
  simp only [PrismaFilter.matches, decide_eq_true_iff, PrismaFilter.truth_OR, Truth.any_eq_yes_iff,
    List.mem_map]

variable (hcolumn : getLeafField fieldRef.path = .ok column)
  (hattribute : TextAttribute engine store (fieldRef.relations.getD []) column r (some text))

include hcolumn hattribute

theorem ancestorFilter_matches (h : ancestorFilter fieldRef delimiter segments = .ok filter) :
    filter.matches engine store r = true ↔ Selects .ancestor delimiter segments text := by
  rw [Selects, ← mem_getStrictPrefixes]
  rw [ancestorFilter] at h
  split at h
  next hnone =>
    rw [buildImpossibleFilter, buildFieldFilter_eq hcolumn] at h
    obtain rfl := Except.ok.inj h
    rw [hattribute.matches_leaf, hnone]
    exact fieldTruth_in_iff []
  next first hfirst =>
    rw [buildFieldFilter_eq hcolumn] at h
    obtain rfl := Except.ok.inj h
    rw [hattribute.matches_leaf, hfirst, fieldTruth_equals_iff,
      List.mem_singleton]
  next =>
    rw [buildFieldFilter_eq hcolumn] at h
    obtain rfl := Except.ok.inj h
    rw [hattribute.matches_leaf, fieldTruth_in_iff]

theorem descendantFilter_matches (hlike : PlainLike engine)
    (h : descendantFilter fieldRef delimiter segments = .ok filter) :
    filter.matches engine store r = true ↔ Selects .descendant delimiter segments text := by
  rw [descendantFilter] at h
  rw [Selects]
  split at h
  next hempty =>
    rw [if_pos hempty]
    obtain ⟨hsafe, h⟩ := Except.bind_unit_eq_ok_iff.mp h
    rw [buildFieldFilter_eq hcolumn] at h
    obtain rfl := Except.ok.inj h
    rw [hattribute.matches_leaf, fieldTruth_startsWith_one_iff hlike hsafe]
    exact Iff.rfl
  next hempty =>
    rw [if_neg hempty]
    obtain ⟨hsafe, h⟩ := Except.bind_unit_eq_ok_iff.mp h
    rw [buildFieldFilter_eq hcolumn] at h
    obtain rfl := Except.ok.inj h
    rw [hattribute.matches_leaf, fieldTruth_startsWith_iff hlike hsafe]

theorem handleFieldOverlaps_matches (hlike : PlainLike engine)
    (h : handleFieldOverlaps fieldRef delimiter segments = .ok filter) :
    filter.matches engine store r = true ↔ Selects .overlapping delimiter segments text := by
  rw [handleFieldOverlaps] at h
  simp only [buildFieldFilter_eq hcolumn] at h
  obtain ⟨ancestors, hancestors, h⟩ := Except.bind_eq_ok_iff.mp h
  obtain ⟨equal, hequal, h⟩ := Except.bind_eq_ok_iff.mp h
  obtain rfl := Except.ok.inj hequal
  obtain ⟨hsafe, h⟩ := Except.bind_unit_eq_ok_iff.mp h
  obtain ⟨descendants, hdescendants, h⟩ := Except.bind_eq_ok_iff.mp h
  obtain rfl := Except.ok.inj hdescendants
  obtain rfl := Except.ok.inj h
  have hfirst : (∃ f ∈ ancestors, f.matches engine store r = true) ↔
      text ∈ getStrictPrefixes segments delimiter := by
    rw [prefixFilters] at hancestors
    split at hancestors
    next hempty =>
      obtain rfl := Except.ok.inj hancestors
      simp [List.isEmpty_iff.mp hempty]
    next =>
      rw [buildFieldFilter_eq hcolumn] at hancestors
      obtain rfl := Except.ok.inj hancestors
      rw [← fieldTruth_in_iff, ← hattribute.matches_leaf]
      exact ⟨fun ⟨_, hf, hmatches⟩ => List.mem_singleton.mp hf ▸ hmatches,
        fun hmatches => ⟨_, List.mem_singleton_self _, hmatches⟩⟩
  rw [matches_OR_iff, Selects, ← mem_getStrictPrefixes, ← hfirst,
    ← fieldTruth_equals_iff, ← fieldTruth_startsWith_iff hlike hsafe, ← hattribute.matches_leaf,
    ← hattribute.matches_leaf]
  simp only [List.mem_append, List.mem_cons, List.not_mem_nil, or_false, or_and_right, exists_or,
    exists_eq_left]

/-- The field's side and the constant's, with the field first or second. -/
inductive Sides (fieldRef : ResolvedFieldReference) (delimiter : String) (segments : List String) :
    (fieldFirst : Bool) → (left right : ResolvedHierarchy) → Prop
  | fieldFirst : Sides fieldRef delimiter segments true (.field fieldRef delimiter)
      (.constant segments)
  | constantFirst : Sides fieldRef delimiter segments false (.constant segments)
      (.field fieldRef delimiter)

theorem hierarchyFilter_matches (hlike : PlainLike engine) {role : HierarchyRole}
    {fieldFirst : Bool} {left right : ResolvedHierarchy}
    (hsides : Sides fieldRef delimiter segments fieldFirst left right)
    (h : hierarchyFilter (role.operator fieldFirst) left right = .ok filter) :
    filter.matches engine store r = true ↔ Selects role delimiter segments text := by
  cases role with
  | overlapping =>
      have hrun : handleFieldOverlaps fieldRef delimiter segments = .ok filter := by
        cases hsides <;> exact h
      exact handleFieldOverlaps_matches hcolumn hattribute hlike hrun
  | descendant =>
      have hrun : descendantFilter fieldRef delimiter segments = .ok filter := by
        cases hsides <;> exact (Except.bind_unit_eq_ok_iff.mp (Except.bind_unit_eq_ok_iff.mp h).2).2
      exact descendantFilter_matches hcolumn hattribute hlike hrun
  | ancestor =>
      have hrun : ancestorFilter fieldRef delimiter segments = .ok filter := by
        cases hsides <;> exact (Except.bind_unit_eq_ok_iff.mp (Except.bind_unit_eq_ok_iff.mp h).2).2
      exact ancestorFilter_matches hcolumn hattribute hrun

end Matching

/-- Whether the constant's segments are found in the texts that the filter compares. -/
def Decided (role : HierarchyRole) (delimiter : String) (segments : List String) : Prop :=
  match role with
  | .ancestor => FirstSegmentsFound delimiter segments
  | .descendant | .overlapping =>
      if delimiter = "" then splitDelimited ("".intercalate segments) "" = segments
      else SegmentsFound delimiter segments

/-- The relation holds of the texts that are selected, whatever the text, exactly where the
constant's segments are found. -/
theorem forall_selects_iff (role : HierarchyRole) (delimiter : String) (segments : List String) :
    (∀ text, Selects role delimiter segments text ↔
        role.test (splitDelimited text delimiter) segments = true) ↔
      Decided role delimiter segments := by
  simp only [HierarchyRole.test_iff, Selects, Decided]
  by_cases hdelimiter : delimiter = ""
  · subst hdelimiter
    simp only [if_true, String.append_empty]
    cases role with
    | ancestor => exact forall_textOfInitial_iff
    | descendant => exact forall_continues_iff
    | overlapping => exact forall_initial_overlaps_iff
  · simp only [if_neg hdelimiter]
    cases role with
    | ancestor =>
        refine forall_textOfFirst_iff.trans (and_iff_left ?_)
        intro hempty
        exact absurd hempty hdelimiter
    | descendant => exact forall_startsWith_iff
    | overlapping => exact forall_overlaps_text_iff.trans (by rw [if_neg hdelimiter])

end QueryPlanAdapters.Prisma
