import QueryPlanAdapters.Elasticsearch.CaseFolding
import QueryPlanAdapters.Cel.Segments

/-!
# Elasticsearch: hierarchies

A hierarchy is a delimited path, and the relations compare segment prefixes. With one side
a field and the other a constant, the constant's segments are joined with the field's
delimiter, and the field's text is compared with the result.
-/

namespace QueryPlanAdapters.Elasticsearch

/-! ## Operands -/

inductive HierarchySegment where
  | literal (value : String)
  | field (name : String)

/-- A resolved `hierarchy(...)` operand. -/
inductive Hierarchy where
  /-- A literal delimited path, split into segments. -/
  | constant (segments : List String) (delimiter : String)
  /-- A document field holding the whole delimited path. -/
  | fieldRef (field delimiter : String)
  /-- A `list(...)` of segments, each a literal or a document field. -/
  | segmented (segments : List HierarchySegment)

/-- Split on a literal delimiter, keeping trailing empty segments. -/
def splitLiteral (raw delimiter : String) : Translation (List String) :=
  if delimiter = "" then
    unsupported ("hierarchy delimiter is empty: a path cannot be split into segments on an empty " ++
      "delimiter, so the relation has no segment prefix to compare the field's stored path against")
  else .ok (splitDelimited raw delimiter)

/-- Collapse an all-literal `list(...)` to a plain constant path. -/
def normalizeHierarchy : Hierarchy → Hierarchy
  | .segmented segments =>
      let literals := segments.mapM fun segment => match segment with
        | .literal value => some value
        | .field _ => none
      match literals with
      | some literals => .constant literals "."
      | none => .segmented segments
  | hierarchy => hierarchy

/-- Every strict ancestor of a segment list, joined with the delimiter. -/
def strictPrefixes (segments : List String) (delimiter : String) : List String :=
  textsOfFirst delimiter segments

def unsupportedHierarchyOperands {α : Type} : (left right : Hierarchy) → Translation α
  | .segmented _, _ | _, .segmented _ =>
      unsupported ("A hierarchy path constructed by list() from a document field cannot be compared: " ++
        "Elasticsearch Query DSL has no way to concatenate a field into a path without scripts")
  | _, _ => unsupported "Elasticsearch Query DSL cannot compare two document fields without scripts"

def unfoldedConstantHierarchy {α : Type} (operator : PlanOperator) : Translation α :=
  malformed (operator.name ++ ": constant hierarchy operands do not satisfy the relation, so the " ++
    "planner should have folded this comparison rather than emitting it")

def negatedHierarchy {α : Type} (operator : PlanOperator) : Translation α :=
  unsupported ("Negated " ++ operator.name ++ " cannot be expressed safely: a bool.must_not over the " ++
    "prefix/terms/term queries a hierarchy relation lowers to matches every document that has no " ++
    "value for the field")

/-! ## Relations -/

def hierarchyStrict (operator : PlanOperator) (left right : Hierarchy) : Translation Query :=
  let (ancestor, descendant) := if operator = .ancestorOf then (left, right) else (right, left)
  match ancestor, descendant with
  | .constant segments _, .fieldRef field delimiter =>
      .ok (.prefixQuery field (.string (delimiter.intercalate segments ++ delimiter)))
  | .fieldRef field delimiter, .constant segments _ =>
      let prefixes := strictPrefixes segments delimiter
      -- A one-segment path has no strict ancestor.
      .ok (if prefixes.isEmpty then .matchNone else .terms field (prefixes.map .string))
  | .constant a _, .constant d _ =>
      if isStrictAncestor a d then .ok .matchAll else unfoldedConstantHierarchy operator
  | _, _ => unsupportedHierarchyOperands left right

/-- The field and the constant of an overlap, in either order. -/
def fieldAndOther : (left right : Hierarchy) → Option (String × String × Hierarchy)
  | .fieldRef _ _, .fieldRef _ _ => none
  | .fieldRef field delimiter, other | other, .fieldRef field delimiter =>
      some (field, delimiter, other)
  | _, _ => none

def hierarchyOverlaps (operator : PlanOperator) (left right : Hierarchy) : Translation Query :=
  match left, right with
  | .constant a _, .constant b _ =>
      if hierarchiesOverlap a b then .ok .matchAll else unfoldedConstantHierarchy operator
  | left, right =>
      match fieldAndOther left right with
      | some (field, delimiter, .constant segments _) =>
          let whole := delimiter.intercalate segments
          let prefixes := strictPrefixes segments delimiter
          -- The field is a strict ancestor of the constant, or equal to it, or a descendant.
          let ancestors :=
            if prefixes.isEmpty then [] else [Query.terms field (prefixes.map .string)]
          .ok (.boolShould (ancestors ++
            [.term field (.string whole), .prefixQuery field (.string (whole ++ delimiter))]))
      | _ => unsupportedHierarchyOperands left right

def hierarchyRelation (operator : PlanOperator) (left right : Hierarchy) : Translation Query :=
  if operator = .overlaps then hierarchyOverlaps operator left right
  else hierarchyStrict operator left right

def negatedRelation (operator : PlanOperator) (left right : Hierarchy) (positive : Query) :
    Translation Query :=
  match left, right with
  | .fieldRef field _, _ | _, .fieldRef field _ => .ok (.definedAndNot field positive)
  | _, _ => negatedHierarchy operator

/-! ## Translation -/

/-- The translator of the relations, over the fields of the root. -/
structure HierarchyTranslator where
  root : Scope
  scalarTypes : List (String × ScalarType)

namespace HierarchyTranslator

-- `String.valueOf`, of a literal that is no string.
variable (valueOf : Literal → String) (translator : HierarchyTranslator)

def literalString (value : Literal) : String :=
  match protoValueToJava value with
  | .string s => s
  | value => valueOf value

def pathHierarchy (path : Operand) (delimiter : String) : Translation Hierarchy :=
  match path with
  | .value path => do return .constant (← splitLiteral (literalString valueOf path) delimiter) delimiter
  | .var name => do return .fieldRef (← translator.root.field name) delimiter
  | .expression _ _ => malformed "hierarchy(path, delimiter) requires a value or field path"

def resolveSegment : Operand → Translation HierarchySegment
  | .value v => .ok (.literal (literalString valueOf v))
  | .var name => do return .field (← translator.root.field name)
  | .expression _ _ => malformed "hierarchy list segment must be a value or a field, got EXPRESSION"

/-- `hierarchy(path)` with the delimiter `.`, `hierarchy(path, delimiter)`, or
`hierarchy(list(...))`. -/
def resolveHierarchy (operator : PlanOperator) : Operand → Translation Hierarchy
  | .expression .hierarchy operands =>
      match operands with
      | [path, .value delimiter] =>
          translator.pathHierarchy valueOf path (literalString valueOf delimiter)
      | [_, _] => malformed "hierarchy delimiter must be a value"
      | [.expression .list segments] => do
          return .segmented (← segments.mapM (translator.resolveSegment valueOf))
      | [.expression inner _] =>
          malformed ("hierarchy requires a value, field or list operand, got " ++ inner.name)
      | [path] => translator.pathHierarchy valueOf path "."
      | operands =>
          malformed ("hierarchy requires 1 or 2 operands, got " ++ toString operands.length)
  | _ => malformed (operator.name ++ " requires hierarchy(...) operands")

def comparesANonStringField : List Operand → Translation Bool
  | [] => .ok false
  | .expression .hierarchy (.var name :: _) :: operands => do
      let field ← translator.root.field name
      match translator.scalarTypes.lookup field with
      | some type => if type ≠ .string then return true else comparesANonStringField operands
      | none => comparesANonStringField operands
  | _ :: operands => comparesANonStringField operands

/-- One relation. A negated overlap requires the field to exist; the other relations have
no negation. -/
def translate (operator : PlanOperator) (operands : List Operand) (polarity : Polarity) :
    Translation Query := do
  if ← translator.comparesANonStringField operands then
    -- A hierarchy over a non-string field is a CEL type error, so nothing matches.
    return .matchNone
  else if !polarity.holds && operator ≠ .overlaps then negatedHierarchy operator
  else match operands with
    | [leftOperand, rightOperand] => do
        let left ← normalizeHierarchy <$> translator.resolveHierarchy valueOf operator leftOperand
        let right ← normalizeHierarchy <$> translator.resolveHierarchy valueOf operator rightOperand
        let positive ← hierarchyRelation operator left right
        if polarity.holds then return positive
        else negatedRelation operator left right positive
    | operands =>
        malformed (operator.name ++ " requires exactly 2 operands, got " ++ toString operands.length)

end HierarchyTranslator

/-! ## What the queries match -/

section Matching

variable {regexpMatches : String → String → Bool} {d : Document} {field delimiter own text : String}
  {segments : List String} {left right : Hierarchy} {query : Query}

/-- The field's side and the constant's, with the field first or second. -/
inductive Sides (field delimiter own : String) (segments : List String) :
    (fieldFirst : Bool) → (left right : Hierarchy) → Prop
  | fieldFirst : Sides field delimiter own segments true (.fieldRef field delimiter)
      (.constant segments own)
  | constantFirst : Sides field delimiter own segments false (.constant segments own)
      (.fieldRef field delimiter)

theorem matches_textsOfFirst (hd : d.terms field = [.string text]) :
    (if (strictPrefixes segments delimiter).isEmpty then Query.matchNone
      else .terms field ((strictPrefixes segments delimiter).map .string)).matches regexpMatches d =
        true ↔ IsTextOfFirst delimiter segments text := by
  have hmatches : (Query.terms field ((strictPrefixes segments delimiter).map .string)).matches
      regexpMatches d = decide (text ∈ strictPrefixes segments delimiter) :=
    matches_terms_texts (x := some text) hd _
  rw [← mem_textsOfFirst, ← strictPrefixes]
  split
  next hempty =>
    rw [List.isEmpty_iff.mp hempty]
    exact iff_of_false Bool.false_ne_true List.not_mem_nil
  next => rw [hmatches, decide_eq_true_iff]

/-- The query of a strict relation. -/
theorem hierarchyStrict_matches {role : HierarchyRole} {fieldFirst : Bool}
    (hrole : role ≠ .overlapping) (hsides : Sides field delimiter own segments fieldFirst left right)
    (h : hierarchyStrict (role.operator fieldFirst) left right = .ok query)
    (hd : d.terms field = [.string text]) :
    query.matches regexpMatches d = true ↔ role.Selects delimiter segments text := by
  cases role with
  | ancestor =>
      have hquery : query = if (strictPrefixes segments delimiter).isEmpty then Query.matchNone
          else .terms field ((strictPrefixes segments delimiter).map .string) := by
        cases hsides <;> exact (Except.ok.inj h).symm
      rw [hquery]
      exact matches_textsOfFirst hd
  | descendant =>
      have hquery : query = .prefixQuery field
          (.string (delimiter.intercalate segments ++ delimiter)) := by
        cases hsides <;> exact (Except.ok.inj h).symm
      rw [hquery, Query.matches, hd]
      simp [Term.onString, startsWithLiteral, HierarchyRole.Selects]
  | overlapping => exact absurd rfl hrole

theorem hierarchyOverlaps_matches {fieldFirst : Bool}
    (hsides : Sides field delimiter own segments fieldFirst left right)
    (h : hierarchyOverlaps .overlaps left right = .ok query) (hd : d.terms field = [.string text]) :
    query.matches regexpMatches d = true ↔ HierarchyRole.overlapping.Selects delimiter segments text := by
  have hquery : query = .boolShould
      ((if (strictPrefixes segments delimiter).isEmpty then []
        else [Query.terms field ((strictPrefixes segments delimiter).map .string)]) ++
        [.term field (.string (delimiter.intercalate segments)),
          .prefixQuery field (.string (delimiter.intercalate segments ++ delimiter))]) := by
    cases hsides <;> exact (Except.ok.inj h).symm
  have hfirst : (if (strictPrefixes segments delimiter).isEmpty then Query.matchNone
      else .terms field ((strictPrefixes segments delimiter).map .string)).matches regexpMatches d =
        true ↔ IsTextOfFirst delimiter segments text := matches_textsOfFirst hd
  have hwhole : (Query.term field (.string (delimiter.intercalate segments))).matches
      regexpMatches d = decide (text = delimiter.intercalate segments) := by
    rw [Query.matches, hd, List.any_cons, List.any_nil, Bool.or_false, Term.test_eq_string]
  have hafter : (Query.prefixQuery field (.string (delimiter.intercalate segments ++ delimiter))).matches
      regexpMatches d = startsWithText text (delimiter.intercalate segments ++ delimiter) := by
    rw [Query.matches, hd]
    simp [Term.onString, startsWithLiteral]
  rw [hquery, matches_boolShould, List.any_append, HierarchyRole.Selects, ← hfirst, Bool.or_eq_true]
  refine or_congr ?_ ?_
  · split
    · exact iff_of_false Bool.false_ne_true Bool.false_ne_true
    · rw [List.any_cons, List.any_nil, Bool.or_false]
  · rw [List.any_cons, List.any_cons, List.any_nil, Bool.or_false, hwhole, hafter, Bool.or_eq_true,
      decide_eq_true_iff]

theorem operator_eq_overlaps_iff (role : HierarchyRole) (fieldFirst : Bool) :
    role.operator fieldFirst = .overlaps ↔ role = .overlapping := by
  cases role <;> cases fieldFirst <;> decide

/-- The query of a relation, under either polarity. -/
theorem HierarchyTranslator.translate_matches {valueOf : Literal → String}
    {translator : HierarchyTranslator} {role : HierarchyRole} {fieldFirst : Bool}
    {leftOperand rightOperand : Operand} {polarity : Polarity}
    (h : translator.translate valueOf (role.operator fieldFirst) [leftOperand, rightOperand] polarity =
      .ok query)
    (hstring : translator.comparesANonStringField [leftOperand, rightOperand] = .ok false)
    (hleft : (normalizeHierarchy <$> translator.resolveHierarchy valueOf (role.operator fieldFirst)
      leftOperand) = .ok left)
    (hright : (normalizeHierarchy <$> translator.resolveHierarchy valueOf (role.operator fieldFirst)
      rightOperand) = .ok right)
    (hsides : Sides field delimiter own segments fieldFirst left right)
    (hd : d.terms field = [.string text]) :
    query.matches regexpMatches d = polarity.holds ↔ role.Selects delimiter segments text := by
  rw [HierarchyTranslator.translate, hstring] at h
  obtain ⟨_, hfalse, h⟩ := Except.bind_eq_ok_iff.mp h
  obtain rfl := Except.ok.inj hfalse
  rw [if_neg Bool.false_ne_true] at h
  split at h
  next => cases h
  next hpolarity =>
    rw [hleft, hright] at h
    obtain ⟨_, hsame, h⟩ := Except.bind_eq_ok_iff.mp h
    obtain rfl := Except.ok.inj hsame
    obtain ⟨_, hsame, h⟩ := Except.bind_eq_ok_iff.mp h
    obtain rfl := Except.ok.inj hsame
    obtain ⟨positive, hpositive, h⟩ := Except.bind_eq_ok_iff.mp h
    have hselected : positive.matches regexpMatches d = true ↔
        role.Selects delimiter segments text := by
      rw [hierarchyRelation] at hpositive
      split at hpositive
      next hoverlaps =>
        rw [hoverlaps] at hpositive
        obtain rfl := (operator_eq_overlaps_iff role fieldFirst).mp hoverlaps
        exact hierarchyOverlaps_matches hsides hpositive hd
      next hstrict =>
        exact hierarchyStrict_matches
          (fun hrole => hstrict ((operator_eq_overlaps_iff role fieldFirst).mpr hrole)) hsides
          hpositive hd
    cases polarity with
    | true =>
        obtain rfl := Except.ok.inj h
        exact hselected
    | false =>
        have hnegated : query = .definedAndNot field positive := by
          cases hsides <;> exact (Except.ok.inj h).symm
        rw [hnegated, matches_definedAndNot, hd, ← hselected]
        simp [Polarity.holds]

end Matching

end QueryPlanAdapters.Elasticsearch
