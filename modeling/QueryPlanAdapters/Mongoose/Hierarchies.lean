import QueryPlanAdapters.Mongoose.Mapping
import QueryPlanAdapters.Cel.Segments

/-!
# Mongoose: hierarchies

A relation between one field and one constant path, with one separator, is lowered to the
constant's ancestors, which are listed, and to a regular expression for its descendants.
-/

namespace QueryPlanAdapters.Mongoose

/-! ## Literal texts in regular expressions -/

/-- `.*+?^${}()|[]\` -/
def isEscaped (c : Char) : Bool :=
  c ∈ ['.', '*', '+', '?', '^', '$', '\x7b', '\x7d', '(', ')', '|', '[', ']', '\\']

/-- Escapes every regex metacharacter so the value matches itself literally. -/
def escapeRegexValue (value : String) : String :=
  String.ofList (value.toList.flatMap fun c => if isEscaped c then ['\\', c] else [c])

/-- A pattern of characters that stand for themselves: any one but a metacharacter, and any
one after a backslash that is no letter or digit. -/
inductive LiteralPattern : (pattern literal : List Char) → Prop
  | nil : LiteralPattern [] []
  | plain {c : Char} {pattern literal : List Char}
      (hplain : c ∉ ['\\', '^', '$', '.', '[', '|', '(', ')', '*', '+', '?', '\x7b'])
      (hrest : LiteralPattern pattern literal) : LiteralPattern (c :: pattern) (c :: literal)
  | escaped {c : Char} {pattern literal : List Char} (hescaped : c.isAlphanum = false)
      (hrest : LiteralPattern pattern literal) :
      LiteralPattern ('\\' :: c :: pattern) (c :: literal)

/-- A literal pattern after `^` matches the texts that begin with its characters. -/
def MatchesLiterals (regexMatches : (pattern text : String) → Bool) : Prop :=
  ∀ pattern literal text, LiteralPattern pattern.toList literal.toList →
    regexMatches ("^" ++ pattern) text = startsWithText text literal

theorem literalPattern_escape (cs : List Char) :
    LiteralPattern (cs.flatMap fun c => if isEscaped c then ['\\', c] else [c]) cs := by
  induction cs with
  | nil => exact .nil
  | cons c cs ih =>
      rw [List.flatMap_cons]
      by_cases hescaped : isEscaped c = true
      · rw [if_pos hescaped]
        refine .escaped ?_ ih
        simp only [isEscaped, List.mem_cons, List.not_mem_nil, or_false, decide_eq_true_iff] at hescaped
        obtain rfl | rfl | rfl | rfl | rfl | rfl | rfl | rfl | rfl | rfl | rfl | rfl | rfl | rfl :=
          hescaped <;> decide
      · rw [if_neg hescaped]
        refine .plain ?_ ih
        simp only [isEscaped, List.mem_cons, List.not_mem_nil, or_false, decide_eq_true_iff] at hescaped ⊢
        tauto

theorem MatchesLiterals.escape {regexMatches : String → String → Bool}
    (h : MatchesLiterals regexMatches) (value text : String) :
    regexMatches ("^" ++ escapeRegexValue value) text = startsWithText text value := by
  apply h
  rw [escapeRegexValue, String.toList_ofList]
  exact literalPattern_escape value.toList

/-! ## Operands -/

inductive HierarchyOperand where
  | field (name separator : String)
  | value (value separator : String)

def HierarchyOperand.separator : HierarchyOperand → String
  | field _ separator | value _ separator => separator

/-- An omitted separator is CEL's default; a present one must be a non-empty string constant. -/
def parseSeparator : Option Node → Translation String
  | none => .ok "."
  | some (.value (.string separator)) =>
      if separator = "" then unsupported "hierarchy separator must be a non-empty string"
      else .ok separator
  | some _ => unsupported "hierarchy separator must be a non-empty string"

def parseHierarchyOperand : Node → Translation HierarchyOperand
  | .expression .hierarchy [] => unsupported "hierarchy operator requires a path operand"
  | .expression .hierarchy (valueOperand :: rest) => do
      let separator ← parseSeparator rest.head?
      match valueOperand with
      | .var name => return .field name separator
      | .value (.string value) => return .value value separator
      | _ => unsupported "hierarchy path must be a field or string value"
  | _ => unsupported "Hierarchy operators require hierarchy() operands"

/-- `"a.b.c"` → `["a", "a.b"]`: every proper ancestor of the path. -/
def hierarchyPrefixes (value separator : String) : List String :=
  let segments := splitDelimited value separator
  (List.range (segments.length - 1)).map fun index =>
    separator.intercalate (segments.take (index + 1))

def assertStringPath (mapper : Mapper) : HierarchyOperand → Translation Unit
  | .field name _ =>
      match (resolveMapperConfig name mapper).bind (·.valueType) with
      | none | some .string => .ok ()
      | some _ => unsupported ("hierarchy requires a string field: the declared scalar type cannot " ++
          "be compared with a path prefix")
  | .value _ _ => .ok ()

/-- The field's name and the constant's path. -/
def fieldAndValue (operator : PlanOperator) :
    (left right : HierarchyOperand) → Translation (String × String)
  | .field name _, .value value _ | .value value _, .field name _ => .ok (name, value)
  | _, _ => unsupported (operator.name ++ " requires one field and one value")

def HierarchyOperand.isField : HierarchyOperand → Bool
  | field _ _ => true
  | value _ _ => false

/-- The filter of two parsed operands. -/
def hierarchyOperandsFilter (operator : PlanOperator) (left right : HierarchyOperand)
    (operands : List Node) (mapper : Mapper) : Translation MongooseFilter := do
  assertStringPath mapper left
  assertStringPath mapper right
  if left.separator ≠ right.separator then
    unsupported (operator.name ++ " requires one field and one value with the same separator")
  else do
    let (name, value) ← fieldAndValue operator left right
    let reference ← resolveFieldReference name mapper
    if reference.relation.any (·.type = .many) then
      unsupported "Hierarchy fields cannot be collection relations"
    else do
      let ancestors := hierarchyPrefixes value left.separator
      let descendentFilter :=
        MongooseFilter.field reference.path
          (.regex ("^" ++ escapeRegexValue (value ++ left.separator)))
      let filter :=
        if operator = .overlaps then
          .or [.field reference.path (.in (ancestors ++ [value])), descendentFilter]
        -- `ancestorOf(field, value)` and `descendentOf(value, field)` both ask for a field
        -- that is an ancestor of the constant.
        else if decide (operator = .ancestorOf) = left.isField then
          .field reference.path (.in ancestors)
        else descendentFilter
      withNullableGuards filter operands mapper

/-- `ancestorOf`/`descendentOf`/`overlaps` between one field and one constant path. -/
def buildHierarchyFilter (operator : PlanOperator) (operands : List Node) (mapper : Mapper) :
    Translation MongooseFilter :=
  match operands with
  | leftOperand :: rightOperand :: _ => do
      let left ← parseHierarchyOperand leftOperand
      let right ← parseHierarchyOperand rightOperand
      hierarchyOperandsFilter operator left right operands mapper
  | _ => unsupported (operator.name ++ " requires two hierarchy operands")

/-! ## What the filters match -/

section Matching

variable {regexMatches : String → String → Bool} {d : Document} {mapper : Mapper}
  {name value separator text : String} {operands : List Node} {reference : ResolvedFieldReference}
  {filter : MongooseFilter}

/-- `hierarchy(path)`, or `hierarchy(path, separator)`. -/
def hierarchyOperand (path : Node) (separator : Option String) : Node :=
  .expression .hierarchy (path :: separator.toList.map fun s => .value (.string s))

/-- The field's side and the constant's, with the field first or second. -/
inductive Sides (name value : String) (fieldSeparator valueSeparator : Option String) :
    (fieldFirst : Bool) → (operands : List Node) → Prop
  | fieldFirst : Sides name value fieldSeparator valueSeparator true
      [hierarchyOperand (.var name) fieldSeparator,
        hierarchyOperand (.value (.string value)) valueSeparator]
  | constantFirst : Sides name value fieldSeparator valueSeparator false
      [hierarchyOperand (.value (.string value)) valueSeparator,
        hierarchyOperand (.var name) fieldSeparator]

variable {fieldFirst : Bool} {fieldSeparator valueSeparator : Option String}

theorem mem_hierarchyPrefixes :
    text ∈ hierarchyPrefixes value separator ↔
      IsTextOfFirst separator (splitDelimited value separator) text := by
  simp only [hierarchyPrefixes, List.mem_map, List.mem_range, IsTextOfFirst]
  constructor
  · rintro ⟨index, hindex, rfl⟩
    exact ⟨index + 1, Nat.succ_pos index, by omega, rfl⟩
  · rintro ⟨k, hpos, hk, rfl⟩
    refine ⟨k - 1, by omega, ?_⟩
    rw [Nat.sub_add_cancel hpos]

/-- The segments of the constant give its path back. -/
theorem intercalate_splitDelimited (hseparator : separator ≠ "") :
    separator.intercalate (splitDelimited value separator) = value := by
  rw [← String.toList_inj, ← List.take_length (l := splitDelimited value separator),
    intercalate_take_eq hseparator]
  have hlength : (splitDelimited value separator).length =
      (splitOnText separator.toList 0 value.toList).length := by
    rw [splitDelimited_eq hseparator, List.length_map]
  rw [hlength, List.take_length, (splits_toList hseparator value.toList).intercalate_eq]

theorem parseSeparator_eq_ok {operand : Option String}
    (h : parseSeparator (operand.toList.map fun s => Operand.value (.string s)).head? =
      .ok separator) : separator = operand.getD "." ∧ separator ≠ "" := by
  cases operand with
  | none =>
      obtain rfl := Except.ok.inj h
      exact ⟨rfl, by decide⟩
  | some s =>
      rw [Option.toList_some, List.map_cons, List.head?_cons, parseSeparator] at h
      split at h
      next => cases h
      next hs =>
        obtain rfl := Except.ok.inj h
        exact ⟨rfl, hs⟩

theorem parse_fieldOperand {separator : Option String} {operand : HierarchyOperand}
    (h : parseHierarchyOperand (hierarchyOperand (.var name) separator) = .ok operand) :
    operand = .field name (separator.getD ".") ∧ separator.getD "." ≠ "" := by
  obtain ⟨s, hs, h⟩ := Except.bind_eq_ok_iff.mp h
  obtain ⟨rfl, hnonempty⟩ := parseSeparator_eq_ok hs
  exact ⟨(Except.ok.inj h).symm, hnonempty⟩

theorem parse_valueOperand {separator : Option String} {operand : HierarchyOperand}
    (h : parseHierarchyOperand (hierarchyOperand (.value (.string value)) separator) = .ok operand) :
    operand = .value value (separator.getD ".") := by
  obtain ⟨s, hs, h⟩ := Except.bind_eq_ok_iff.mp h
  obtain ⟨rfl, -⟩ := parseSeparator_eq_ok hs
  exact (Except.ok.inj h).symm

/-- The field is the only one that is read. -/
theorem Sides.references
    (h : Sides name value fieldSeparator valueSeparator fieldFirst operands) {n : String}
    (hn : n ∈ operands.flatMap Operand.references) : n = name := by
  cases h <;> cases fieldSeparator <;> cases valueSeparator <;>
    simpa [hierarchyOperand, Operand.references] using hn

/-- What a relation is lowered to, before the guards. -/
def relationCondition (role : HierarchyRole) (path : List String) (value separator : String) :
    MongooseFilter :=
  let ancestors := hierarchyPrefixes value separator
  let descendentFilter :=
    MongooseFilter.field path (.regex ("^" ++ escapeRegexValue (value ++ separator)))
  match role with
  | .ancestor => .field path (.in ancestors)
  | .descendant => descendentFilter
  | .overlapping => .or [.field path (.in (ancestors ++ [value])), descendentFilter]

/-- Operands that are not refused have one separator, and their condition is guarded. -/
theorem hierarchyOperandsFilter_eq_ok {role : HierarchyRole} {left right : HierarchyOperand}
    (hpair : ∀ operator, fieldAndValue operator left right = .ok (name, value))
    (hreference : resolveFieldReference name mapper = .ok reference)
    (h : hierarchyOperandsFilter (role.operator left.isField) left right operands mapper = .ok filter) :
    left.separator = right.separator ∧
      withNullableGuards (relationCondition role reference.path value left.separator) operands
        mapper = .ok filter := by
  obtain ⟨-, h⟩ := Except.bind_unit_eq_ok_iff.mp h
  obtain ⟨-, h⟩ := Except.bind_unit_eq_ok_iff.mp h
  split at h
  next => cases h
  next hsame =>
    refine ⟨not_not.mp hsame, ?_⟩
    obtain ⟨⟨_, _⟩, hparsed, h⟩ := Except.bind_eq_ok_iff.mp h
    rw [hpair] at hparsed
    obtain ⟨rfl, rfl⟩ := Prod.mk.inj (Except.ok.inj hparsed)
    obtain ⟨_, hresolved, h⟩ := Except.bind_eq_ok_iff.mp h
    rw [hreference] at hresolved
    obtain rfl := Except.ok.inj hresolved
    split at h
    next => cases h
    next => cases left <;> cases role <;> exact h

/-- A relation that is not refused has one separator, and its condition is guarded. -/
theorem buildHierarchyFilter_eq_ok {role : HierarchyRole}
    (hsides : Sides name value fieldSeparator valueSeparator fieldFirst operands)
    (hreference : resolveFieldReference name mapper = .ok reference)
    (h : buildHierarchyFilter (role.operator fieldFirst) operands mapper = .ok filter) :
    fieldSeparator.getD "." ≠ "" ∧ valueSeparator.getD "." = fieldSeparator.getD "." ∧
      withNullableGuards (relationCondition role reference.path value (fieldSeparator.getD "."))
        operands mapper = .ok filter := by
  cases hsides with
  | fieldFirst =>
      obtain ⟨left, hleft, h⟩ := Except.bind_eq_ok_iff.mp h
      obtain ⟨right, hright, h⟩ := Except.bind_eq_ok_iff.mp h
      obtain ⟨rfl, hnonempty⟩ := parse_fieldOperand hleft
      obtain rfl := parse_valueOperand hright
      obtain ⟨hsame, hguarded⟩ := hierarchyOperandsFilter_eq_ok (fun _ => rfl) hreference h
      exact ⟨hnonempty, hsame.symm, hguarded⟩
  | constantFirst =>
      obtain ⟨left, hleft, h⟩ := Except.bind_eq_ok_iff.mp h
      obtain ⟨right, hright, h⟩ := Except.bind_eq_ok_iff.mp h
      obtain rfl := parse_valueOperand hleft
      obtain ⟨rfl, hnonempty⟩ := parse_fieldOperand hright
      obtain ⟨hsame, hguarded⟩ := hierarchyOperandsFilter_eq_ok (fun _ => rfl) hreference h
      refine ⟨hnonempty, hsame, ?_⟩
      rw [← show valueSeparator.getD "." = fieldSeparator.getD "." from hsame]
      exact hguarded

variable (hregex : MatchesLiterals regexMatches) (hd : d reference.path = some (.string text))

include hregex hd

theorem relationCondition_matches (hseparator : separator ≠ "") (role : HierarchyRole) :
    (relationCondition role reference.path value separator).matches regexMatches d = true ↔
      role.Selects separator (splitDelimited value separator) text := by
  have hlisted : ∀ texts : List String,
      (MongooseFilter.field reference.path (.in texts)).matches regexMatches d =
        decide (text ∈ texts) := by
    intro texts
    rw [MongooseFilter.matches, hd]
    rfl
  have hafter : (MongooseFilter.field reference.path
      (.regex ("^" ++ escapeRegexValue (value ++ separator)))).matches regexMatches d =
        startsWithText text (value ++ separator) := by
    rw [MongooseFilter.matches, hd]
    exact hregex.escape (value ++ separator) text
  have hwhole : separator.intercalate (splitDelimited value separator) = value :=
    intercalate_splitDelimited hseparator
  cases role with
  | ancestor =>
      rw [relationCondition, hlisted, decide_eq_true_iff, mem_hierarchyPrefixes]
      exact Iff.rfl
  | descendant =>
      rw [relationCondition, hafter, HierarchyRole.Selects, hwhole]
  | overlapping =>
      rw [relationCondition, matches_or, List.any_cons, List.any_cons, List.any_nil, Bool.or_false,
        hlisted, hafter, Bool.or_eq_true, decide_eq_true_iff, List.mem_append,
        mem_hierarchyPrefixes, List.mem_singleton, HierarchyRole.Selects, hwhole, or_assoc]

/-- The filter of a relation. -/
theorem buildHierarchyFilter_matches {role : HierarchyRole}
    (hsides : Sides name value fieldSeparator valueSeparator fieldFirst operands)
    (hreference : resolveFieldReference name mapper = .ok reference)
    (h : buildHierarchyFilter (role.operator fieldFirst) operands mapper = .ok filter) :
    filter.matches regexMatches d = true ↔
      role.Selects (fieldSeparator.getD ".") (splitDelimited value (fieldSeparator.getD ".")) text := by
  obtain ⟨hseparator, -, hguarded⟩ := buildHierarchyFilter_eq_ok hsides hreference h
  rw [withNullableGuards_matches hguarded, relationCondition_matches hregex hd hseparator]
  intro n hn read hread
  obtain rfl := hsides.references hn
  rw [hreference] at hread
  obtain rfl := Except.ok.inj hread
  rw [hd]
  rfl

end Matching

end QueryPlanAdapters.Mongoose
