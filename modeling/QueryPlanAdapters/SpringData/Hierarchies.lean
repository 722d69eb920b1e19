import QueryPlanAdapters.SpringData.ColumnCriteria
import QueryPlanAdapters.SpringData.Translate
import QueryPlanAdapters.Cel.HierarchyOperands

/-!
# Spring Data: hierarchies

A hierarchy is a delimited path, and the relations compare lists of segments. A column against a
constant becomes a condition on the column's text: the constant's joined segments before a
delimiter, or its strict prefixes one by one. Two listed hierarchies are compared segment by
segment.
-/

namespace QueryPlanAdapters.SpringData

open Sql

variable {schema : Schema}

/-! ## Operands -/

inductive Seg where
  | const (value : String)
  | field (path : Path)

inductive Hierarchy where
  | constant (segments : List String) (delimiter : String)
  | fieldRef (path : Path) (delimiter : String)
  | segmented (segments : List Seg)

section Resolution

-- `String.valueOf`, of a literal that is no string.
variable (valueOf : PlanValue Double → String)

def literalText : PlanValue Double → String
  | .string s => s
  | value => valueOf value

def resolveSegment (scope : Scope schema) : Node → Except Refusal Seg
  | .value value => .ok (.const (literalText valueOf value))
  | .var name => do return .field (← scope.path name)
  | .expression _ _ =>
      .error (.unsupported "hierarchy list segment must be a value or field, got EXPRESSION")

/-- `hierarchy(string, delimiter)`, `hierarchy(string)` with the delimiter `.`, or
`hierarchy(list(...))`. -/
def resolveHierarchy (opName : String) (scope : Scope schema) : Node → Except Refusal Hierarchy
  | .expression .hierarchy ops =>
      match ops with
      | [.value raw, .value delimOp] =>
          let delimiter := literalText valueOf delimOp
          .ok (.constant (splitDelimited (literalText valueOf raw) delimiter) delimiter)
      | [.var name, .value delimOp] => do
          return .fieldRef (← scope.path name) (literalText valueOf delimOp)
      | [.expression _ _, .value _] =>
          -- A computed path has no known beginning.
          .error (.unsupported "hierarchy(string, delimiter) requires a value or field operand")
      | [_, _] => .error (.unsupported "hierarchy delimiter must be a value")
      | [.value raw] => .ok (.constant (splitDelimited (literalText valueOf raw) ".") ".")
      | [.var name] => do return .fieldRef (← scope.path name) "."
      | [.expression .list segs] => do
          return .segmented (← segs.mapM (resolveSegment valueOf scope))
      | [.expression _ _] =>
          .error (.unsupported "hierarchy requires a value, field, or list operand")
      | _ => .error (.malformed "hierarchy requires 1 or 2 operands")
  | _ => .error (.malformed (opName ++ " requires hierarchy(...) operands"))

/-- The values of segments that are all constant. -/
def constantValues : List Seg → Option (List String)
  | [] => some []
  | .const value :: segs => (constantValues segs).map (value :: ·)
  | .field _ :: _ => none

/-- A list of constants only becomes a constant with the default delimiter. -/
def normalizeHierarchy : Hierarchy → Hierarchy
  | .segmented segs => ((constantValues segs).map (Hierarchy.constant · ".")).getD (.segmented segs)
  | hierarchy => hierarchy

def extractHierarchyOperands (opName : String) (operands : List Node) (scope : Scope schema) :
    Except Refusal (Hierarchy × Hierarchy) :=
  match operands with
  | [left, right] => do
      let left ← resolveHierarchy valueOf opName scope left
      let right ← resolveHierarchy valueOf opName scope right
      return (normalizeHierarchy left, normalizeHierarchy right)
  | _ => .error (.malformed (opName ++ " requires exactly 2 operands"))

end Resolution

/-! ## Texts -/

def escapeLike (s : String) : String :=
  String.ofList (escapeInTurn '\\' ['\\', '%', '_', '['] s.toList)

def startsWithLiteral (path : Path) (beginning : String) : ColumnPredicate :=
  if path.javaType ≠ .string then .unknown
  else .like (.path path) (escapeLike beginning ++ "%")

/-- The strict ancestors of a path, joined with the delimiter. -/
def getStrictPrefixes (segments : List String) (delimiter : String) : List String :=
  textsOfFirst delimiter segments

/-! ## A column against a constant -/

/-- The column is a strict descendant. -/
def columnDescends (path : Path) (delimiter : String) (segments : List String) : ColumnPredicate :=
  startsWithLiteral path (delimiter.intercalate segments ++ delimiter)

/-- The column is a strict ancestor. -/
def columnAncestor (path : Path) (delimiter : String) (segments : List String) : ColumnPredicate :=
  match getStrictPrefixes segments delimiter with
  | [] => .disjunction
  | [single] => .compareText .eq (.path path) single
  | prefixes => .isIn path prefixes

/-- The column is an ancestor of the constant, equal to it, or a descendant of it. -/
def columnOverlaps (path : Path) (delimiter : String) (segments : List String) : ColumnPredicate :=
  let otherRaw := delimiter.intercalate segments
  let strictPrefixes := getStrictPrefixes segments delimiter
  let ancestors :=
    if strictPrefixes.isEmpty then [] else [ColumnPredicate.isIn path strictPrefixes]
  .or (ancestors ++
    [.compareText .eq (.path path) otherRaw, startsWithLiteral path (otherRaw ++ delimiter)])

/-! ## One segment for each character -/

namespace Hierarchy

def isPerCharacter : Hierarchy → Bool
  | constant _ delimiter | fieldRef _ delimiter => delimiter = ""
  | segmented _ => false

def isFieldRef : Hierarchy → Bool
  | fieldRef _ _ => true
  | _ => false

end Hierarchy

/-- The texts of the first characters: fewer than all of them, or all of them too. -/
def firstCharacters (characters : List String) (more : Nat) : List String :=
  (List.range (characters.length + more)).map fun i => "".intercalate (characters.take i)

/-- A segment prefix is a text prefix. -/
def perCharacterPredicate (path : Path) (characters : List String) (fieldFirst strict : Bool) :
    ColumnPredicate :=
  if path.javaType ≠ .string then .unknown
  else
    let constant := "".intercalate characters
    let prefixes := firstCharacters characters (if strict then 0 else 1)
    if strict && !fieldFirst then
      -- The column descends from the constant: strictly longer, with it as a prefix.
      .like (.path path) (escapeLike constant ++ "_%")
    else
      let ancestorOrEqual :=
        if prefixes.isEmpty then ColumnPredicate.disjunction.baseUnlessUnknown (.isNull path)
        else .isIn path prefixes
      if strict then ancestorOrEqual
      else .or [ancestorOrEqual, .like (.path path) (escapeLike constant ++ "%")]

/-- A relation with an empty delimiter; nothing when no side has one. `first` is the ancestor
when the relation is strict. -/
def perCharacterRelation (opName : String) (first second : Hierarchy) (strict : Bool) :
    Except Refusal (Option ColumnPredicate) :=
  if !first.isPerCharacter && !second.isPerCharacter then .ok none
  else
    let fieldFirst := first.isFieldRef
    let field := if fieldFirst then first else second
    let other := if fieldFirst then second else first
    match first.isPerCharacter && second.isPerCharacter, field, other with
    | true, .fieldRef path _, .constant characters _ =>
        .ok (some (perCharacterPredicate path characters fieldFirst strict))
    | _, _, _ =>
        .error (.unsupported (opName ++ ": a hierarchy with an empty delimiter is only" ++
          " supported between a column and a constant that both split per character"))

/-! ## Overlaps -/

/-- Of segments, the first ones no longer than the second. -/
def prefixConditions : (shorter longer : List Seg) → Except Refusal (Option (List ColumnPredicate))
  | .const s :: shorter, .const l :: longer =>
      if s ≠ l then .ok none else prefixConditions shorter longer
  | .field path :: shorter, .const value :: longer
  | .const value :: shorter, .field path :: longer => do
      return (← prefixConditions shorter longer).map (.compareText .eq (.path path) value :: ·)
  | .field _ :: _, .field _ :: _ =>
      .error (.unsupported "Cannot compare two field references in a hierarchy overlap")
  | _, _ => .ok (some [])

/-- The predicates under which `shorter` begins `longer`, or nothing if it cannot. -/
def checkPrefixConditions (shorter longer : List Seg) :
    Except Refusal (Option (List ColumnPredicate)) :=
  if longer.length < shorter.length then .ok none else prefixConditions shorter longer

def Seg.isField : Seg → Bool
  | field _ => true
  | const _ => false

def toSegments : Hierarchy → Except Refusal (List Seg)
  | .constant segments _ => .ok (segments.map .const)
  | .segmented segs => .ok segs
  | .fieldRef _ _ =>
      .error (.internal "Cannot enumerate segments of a field-reference hierarchy")

def overlapsSegments (left right : List Seg) : Except Refusal ColumnPredicate := do
  let leftPrefixOfRight ← checkPrefixConditions left right
  let rightPrefixOfLeft ← checkPrefixConditions right left
  match leftPrefixOfRight.toList ++ rightPrefixOfLeft.toList with
  | [] =>
      -- With a field involved that is always false.
      if left.any Seg.isField || right.any Seg.isField then return .disjunction
      else .error (.malformed "Cannot determine hierarchy overlap: no field references found")
  | chosen :: others =>
      -- No conditions: every compared segment was a matching constant.
      if (chosen :: others).any List.isEmpty then return .conjunction
      else match chosen with
        | [single] => return single
        | conditions => return .and conditions

def handleFieldOverlaps (left right : Hierarchy) : Except Refusal ColumnPredicate :=
  match left, right with
  | .fieldRef _ _, .fieldRef _ _ =>
      .error (.unsupported "overlaps: cannot compare two field-reference hierarchies")
  | .fieldRef path delimiter, .constant segments _
  | .constant segments _, .fieldRef path delimiter => .ok (columnOverlaps path delimiter segments)
  | _, _ =>
      .error (.unsupported "overlaps: segmented hierarchies with field hierarchies are not supported")

def overlaps (left right : Hierarchy) : Except Refusal ColumnPredicate :=
  if left.isFieldRef || right.isFieldRef then handleFieldOverlaps left right
  else do overlapsSegments (← toSegments left) (← toSegments right)

def Seg.fieldPaths : Seg → List Path
  | field path => [path]
  | const _ => []

def Hierarchy.fieldPaths : Hierarchy → List Path
  | segmented segs => segs.flatMap Seg.fieldPaths
  | _ => []

def overlapsRelation (left right : Hierarchy) : Except Refusal ColumnPredicate := do
  match ← perCharacterRelation "overlaps" left right false with
  | some perCharacter => return perCharacter
  | none =>
      let result ← overlaps left right
      let fields := left.fieldPaths ++ right.fieldPaths
      return if fields.isEmpty then result else result.baseUnlessUnknown (.or (fields.map .isNull))

/-! ## Ancestors and descendants -/

def strictRelation (opName relationship : String) (ancestor descendant : Hierarchy) :
    Except Refusal ColumnPredicate := do
  match ← perCharacterRelation opName ancestor descendant true with
  | some perCharacter => return perCharacter
  | none =>
      match ancestor, descendant with
      | .constant segments _, .fieldRef path delimiter =>
          return columnDescends path delimiter segments
      | .fieldRef path delimiter, .constant segments _ =>
          return columnAncestor path delimiter segments
      | .constant a _, .constant d _ =>
          if isStrictAncestor a d then return .conjunction
          else
            -- The planner folds two constants that fail the relationship to false.
            .error (.malformed (opName ++ ": constant operands do not satisfy the " ++ relationship ++
              " relationship"))
      | _, _ => .error (.unsupported (opName ++ ": unsupported hierarchy operand combination"))

/-! ## Translation -/

section Translation

variable (valueOf : PlanValue Double → String)

def handleOverlaps (operands : List Node) (scope : Scope schema) :
    Except Refusal ColumnPredicate := do
  let both ← extractHierarchyOperands valueOf "overlaps" operands scope
  overlapsRelation both.1 both.2

def handleAncestorDescendant (operands : List Node) (scope : Scope schema) (isAncestor : Bool) :
    Except Refusal ColumnPredicate := do
  let opName := if isAncestor then "ancestorOf" else "descendentOf"
  let both ← extractHierarchyOperands valueOf opName operands scope
  if isAncestor then strictRelation opName "ancestor" both.1 both.2
  else strictRelation opName "descendant" both.2 both.1

/-- What the walker makes of a relation. -/
def handleHierarchy (relation : HierarchyRelation) (operands : List Node) (scope : Scope schema) :
    Except Refusal ColumnPredicate :=
  match relation with
  | .overlaps => handleOverlaps valueOf operands scope
  | .ancestorOf => handleAncestorDescendant valueOf operands scope true
  | .descendentOf => handleAncestorDescendant valueOf operands scope false

end Translation

/-! ## What the predicates are on a row -/

/-- The text of a column, when it is of type String and not NULL. -/
def Path.text (row : Path → SqlValue) (path : Path) : Option String :=
  match path.javaType, row path with
  | .string, .text s => some s
  | _, _ => none

/-- A row whose columns hold values of their types. -/
def TypedRow (row : Path → SqlValue) : Prop :=
  ∀ path : Path, path.javaType.holds (row path) = true

theorem like_escaped {parts : List LikePart} {rest : String}
    (hrest : parseLike '\\' rest.toList = some parts) (s text : String) :
    likeMatches '\\' (escapeLike s ++ rest) text =
      (startsWithText text s && likeParts parts (text.toList.drop s.toList.length)) := by
  have hnodup : ['\\', '%', '_', '['].Nodup := by decide
  rw [likeMatches, String.toList_append, escapeLike, String.toList_ofList,
    escapeInTurn_eq_escapeEach hnodup, parseLike_escapeEach (by decide) (by decide) (by decide), hrest]
  exact likeParts_chars s.toList parts text.toList

theorem like_escaped_run (s text : String) :
    likeMatches '\\' (escapeLike s ++ "%") text = startsWithText text s := by
  have hrun : parseLike '\\' "%".toList = some [.run] := rfl
  rw [like_escaped hrun, likeParts_run, Bool.and_true]

theorem like_escaped_one (s text : String) :
    likeMatches '\\' (escapeLike s ++ "_%") text = true ↔
      ∃ c after, text.toList = s.toList ++ c :: after := by
  have hone : parseLike '\\' "_%".toList = some [.one, .run] := rfl
  rw [like_escaped hone, likeParts, likeParts_run, Bool.and_true, Bool.and_eq_true, startsWithText,
    List.isPrefixOf_iff_prefix, Bool.not_eq_true', List.isEmpty_eq_false_iff]
  constructor
  · rintro ⟨⟨after, hafter⟩, hmore⟩
    rw [← hafter, List.drop_left] at hmore
    obtain ⟨c, rest, rfl⟩ := List.exists_cons_of_ne_nil hmore
    exact ⟨c, rest, hafter.symm⟩
  · rintro ⟨c, after, htext⟩
    rw [htext, List.drop_left]
    exact ⟨List.prefix_append .., List.cons_ne_nil c after⟩

section Rows

variable {engine : Engine} {row : Path → SqlValue} {path : Path} {text : String}

theorem Path.text_eq_some_iff {s : String} :
    path.text row = some s ↔ path.javaType = .string ∧ row path = .text s := by
  rw [Path.text]
  split
  next hstring hrow => simp [hstring, hrow]
  next hother =>
    simp only [reduceCtorEq, false_iff, not_and]
    exact fun hstring hrow => hother s hstring hrow

/-- A column of type String holds a text or NULL. -/
theorem TypedRow.string_cases (hrow : TypedRow row) (hstring : path.javaType = .string) :
    row path = .null ∨ ∃ s, row path = .text s := by
  have hholds := hrow path
  rw [hstring] at hholds
  cases hvalue : row path with
  | null => exact .inl rfl
  | text s => exact .inr ⟨s, rfl⟩
  | _ =>
      rw [hvalue] at hholds
      cases hholds

theorem truth_isIn_text (hrow : row path = .text text) (texts : List String) :
    (ColumnPredicate.isIn path texts).truth engine row = .ofBool (decide (text ∈ texts)) := by
  rw [truth_isIn, hrow]
  induction texts with
  | nil => rfl
  | cons t texts ih =>
      rw [List.map_cons, Truth.any_cons, ih, Engine.compare_text, Truth.or_ofBool]
      simp only [List.mem_cons, Bool.decide_or]

theorem truth_isIn_null (hrow : row path = .null) {texts : List String} (htexts : texts ≠ []) :
    (ColumnPredicate.isIn path texts).truth engine row = .unknown := by
  obtain ⟨t, texts, rfl⟩ := List.exists_cons_of_ne_nil htexts
  rw [truth_isIn, hrow]
  simp only [Engine.compare_null_left, List.map_cons, Truth.any_cons]
  induction texts with
  | nil => rfl
  | cons t texts ih => rw [List.map_cons, Truth.any_cons, ih (List.cons_ne_nil _ _)]; rfl

theorem truth_equal_text (hrow : row path = .text text) (s : String) :
    (ColumnPredicate.compareText .eq (.path path) s).truth engine row =
      .ofBool (decide (text = s)) := by
  rw [truth_compareText, eval_columnPath, hrow, Engine.compare_text]

theorem truth_equal_null (hrow : row path = .null) (s : String) :
    (ColumnPredicate.compareText .eq (.path path) s).truth engine row = .unknown := by
  rw [truth_compareText, eval_columnPath, hrow, Engine.compare_null_left]

theorem truth_like_text (hrow : row path = .text text) (pattern : String) :
    (ColumnPredicate.like (.path path) pattern).truth engine row =
      .ofBool (likeMatches '\\' pattern text) := by
  rw [ColumnPredicate.truth, eval_columnPath, hrow]

theorem truth_like_null (hrow : row path = .null) (pattern : String) :
    (ColumnPredicate.like (.path path) pattern).truth engine row = .unknown := by
  rw [ColumnPredicate.truth, eval_columnPath, hrow]

end Rows

/-! ## A column against a constant, on a row -/

/-- What a relation asks of a column, by its role. -/
def columnPredicate : HierarchyRole → Path → String → List String → ColumnPredicate
  | .ancestor => columnAncestor
  | .descendant => columnDescends
  | .overlapping => columnOverlaps

section Column

variable {engine : Engine} {row : Path → SqlValue} {path : Path} {delimiter text : String}
  {segments : List String}

theorem truth_columnAncestor_text (hrow : row path = .text text) :
    (columnAncestor path delimiter segments).truth engine row =
      .ofBool (decide (text ∈ getStrictPrefixes segments delimiter)) := by
  rw [columnAncestor]
  split
  next hnone => rw [hnone]; rfl
  next single hsingle =>
    rw [hsingle, truth_equal_text hrow]
    simp only [List.mem_singleton]
  next => exact truth_isIn_text hrow _

theorem truth_columnAncestor_null (hrow : row path = .null) (hlength : 2 ≤ segments.length) :
    (columnAncestor path delimiter segments).truth engine row = .unknown := by
  have hne : getStrictPrefixes segments delimiter ≠ [] := by
    intro hnone
    have hle := textsOfFirst_eq_nil.mp hnone
    omega
  rw [columnAncestor]
  split
  next hnone => exact absurd hnone hne
  next => exact truth_equal_null hrow _
  next => exact truth_isIn_null hrow hne

theorem truth_startsWithLiteral_text (hstring : path.javaType = .string)
    (hrow : row path = .text text) (beginning : String) :
    (startsWithLiteral path beginning).truth engine row =
      .ofBool (startsWithText text beginning) := by
  rw [startsWithLiteral, if_neg (not_not.mpr hstring), truth_like_text hrow, like_escaped_run]

theorem truth_startsWithLiteral_null (hrow : row path = .null) (beginning : String) :
    (startsWithLiteral path beginning).truth engine row = .unknown := by
  rw [startsWithLiteral]
  split
  next => rfl
  next => exact truth_like_null hrow _

theorem truth_columnOverlaps_text (hstring : path.javaType = .string)
    (hrow : row path = .text text) :
    (columnOverlaps path delimiter segments).truth engine row =
      .ofBool (decide (text ∈ getStrictPrefixes segments delimiter) ||
        (decide (text = delimiter.intercalate segments) ||
          startsWithText text (delimiter.intercalate segments ++ delimiter))) := by
  have hancestors : Truth.any ((if (getStrictPrefixes segments delimiter).isEmpty then []
      else [ColumnPredicate.isIn path (getStrictPrefixes segments delimiter)]).map
        (·.truth engine row)) = .ofBool (decide (text ∈ getStrictPrefixes segments delimiter)) := by
    split
    next hempty => rw [List.isEmpty_iff.mp hempty]; rfl
    next =>
      rw [List.map_singleton, Truth.any_cons, truth_isIn_text hrow]
      exact Truth.or_no _
  simp only [columnOverlaps, truth_columnOr, List.map_append, Truth.any_append, hancestors,
    List.map_cons, List.map_nil, Truth.any_cons, Truth.any_nil, truth_equal_text hrow,
    truth_startsWithLiteral_text hstring hrow, Truth.or_no, Truth.or_ofBool]

theorem truth_columnOverlaps_null (hrow : row path = .null) :
    (columnOverlaps path delimiter segments).truth engine row = .unknown := by
  simp only [columnOverlaps, truth_columnOr, List.map_append, Truth.any_append, List.map_cons,
    List.map_nil, Truth.any_cons, Truth.any_nil, truth_equal_null hrow,
    truth_startsWithLiteral_null hrow, Truth.or_no]
  split
  next => rfl
  next hne =>
    rw [List.map_singleton, Truth.any_cons,
      truth_isIn_null hrow (by simpa [List.isEmpty_iff] using hne)]
    rfl

variable (engine) in
/-- On a text the predicate selects what the role does. -/
theorem truth_columnPredicate_text (role : HierarchyRole) (hstring : path.javaType = .string)
    (hrow : row path = .text text) :
    ∃ selected : Bool, (columnPredicate role path delimiter segments).truth engine row =
      .ofBool selected ∧ (selected = true ↔ role.Selects delimiter segments text) := by
  cases role with
  | ancestor =>
      refine ⟨_, truth_columnAncestor_text hrow, ?_⟩
      rw [decide_eq_true_iff]
      exact mem_textsOfFirst
  | descendant => exact ⟨_, truth_startsWithLiteral_text hstring hrow _, Iff.rfl⟩
  | overlapping =>
      refine ⟨_, truth_columnOverlaps_text hstring hrow, ?_⟩
      rw [Bool.or_eq_true, Bool.or_eq_true, decide_eq_true_iff, decide_eq_true_iff]
      exact or_congr_left mem_textsOfFirst

/-- On NULL it is UNKNOWN, unless there are no strict prefixes to compare. -/
theorem truth_columnPredicate_null (role : HierarchyRole) (hrow : row path = .null)
    (hprefixes : role = .ancestor → 2 ≤ segments.length) :
    (columnPredicate role path delimiter segments).truth engine row = .unknown := by
  cases role with
  | ancestor => exact truth_columnAncestor_null hrow (hprefixes rfl)
  | descendant => exact truth_startsWithLiteral_null hrow _
  | overlapping => exact truth_columnOverlaps_null hrow

/-! ### On every row -/

/-- A value of a type. -/
def JavaType.sample : JavaType → SqlValue
  | string => .text ""
  | boolean | other _ => .bool false
  | integer | long | double => .number 0

/-- A row without NULLs but for the String columns, which hold one value. -/
def rowOf (value : SqlValue) (path : Path) : SqlValue :=
  if path.javaType = .string then value else path.javaType.sample

/-- An engine that finds values of any two types equal. -/
def mixedEngine : Engine where
  __ := Engine.bare
  compareMixed _ _ _ := .yes

theorem typedRow_rowOf (value : SqlValue) (hvalue : JavaType.string.holds value = true) :
    TypedRow (rowOf value) := by
  intro path
  rw [rowOf]
  split
  next hstring => rw [hstring]; exact hvalue
  next => cases path.javaType <;> rfl

theorem rowOf_string (hstring : path.javaType = .string) (value : SqlValue) :
    rowOf value path = value :=
  if_pos hstring

theorem Path.text_rowOf (hstring : path.javaType = .string) (s : String) :
    path.text (rowOf (.text s)) = some s :=
  Path.text_eq_some_iff.mpr ⟨hstring, rowOf_string hstring _⟩

theorem Path.text_of_ne_string (hstring : path.javaType ≠ .string) : path.text row = none := by
  rw [Option.eq_none_iff_forall_ne_some]
  exact fun s h => hstring (Path.text_eq_some_iff.mp h).1

theorem Path.text_of_null (hrow : row path = .null) : path.text row = none := by
  rw [Option.eq_none_iff_forall_ne_some]
  intro s h
  have htext := (Path.text_eq_some_iff.mp h).2
  rw [hrow] at htext
  cases htext

/-- A value of another type is none, yet the engine compares it. -/
theorem compare_mixed (hstring : path.javaType ≠ .string) (value : SqlValue) (s : String) :
    mixedEngine.compare .eq (rowOf value path) (.text s) = .yes := by
  rw [rowOf, if_neg hstring]
  cases htype : path.javaType with
  | string => exact absurd htype hstring
  | _ => rfl

theorem truth_columnPredicate_mixed {role : HierarchyRole} (hrole : role ≠ .descendant)
    (hstring : path.javaType ≠ .string) (value : SqlValue) :
    (columnPredicate role path delimiter segments).truth mixedEngine (rowOf value) ≠ .unknown := by
  have hin : ∀ texts : List String, texts ≠ [] →
      (ColumnPredicate.isIn path texts).truth mixedEngine (rowOf value) = .yes := by
    intro texts htexts
    obtain ⟨t, texts, rfl⟩ := List.exists_cons_of_ne_nil htexts
    rw [truth_isIn, List.map_cons, Truth.any_cons, compare_mixed hstring]
    exact Truth.yes_or _
  cases role with
  | descendant => exact absurd rfl hrole
  | ancestor =>
      show (columnAncestor path delimiter segments).truth mixedEngine (rowOf value) ≠ .unknown
      rw [columnAncestor]
      split
      next => exact Truth.ofBool_ne_unknown false
      next =>
        rw [truth_compareText, eval_columnPath, compare_mixed hstring]
        exact Truth.ofBool_ne_unknown true
      next hnone _ =>
        rw [hin _ hnone]
        exact Truth.ofBool_ne_unknown true
  | overlapping =>
      show (columnOverlaps path delimiter segments).truth mixedEngine (rowOf value) ≠ .unknown
      have hequal : (ColumnPredicate.compareText .eq (.path path) (delimiter.intercalate segments)).truth
          mixedEngine (rowOf value) = .yes := compare_mixed hstring value _
      simp only [columnOverlaps, truth_columnOr, List.map_append, Truth.any_append, List.map_cons,
        Truth.any_cons, hequal, Truth.yes_or, Truth.or_yes]
      exact Truth.ofBool_ne_unknown true

/-- The predicate is what the relation is between the segments of the column and the constant's,
on every row, exactly where the constant's segments are found in the texts it compares, a strict
ancestor leaves some text to compare, and a column of another type is not compared at all. -/
theorem columnPredicate_decides_iff (role : HierarchyRole) :
    (∀ engine row, TypedRow row →
      (columnPredicate role path delimiter segments).truth engine row =
        (path.text row).elim .unknown fun text =>
          .ofBool (role.test (splitDelimited text delimiter) segments)) ↔
      (path.javaType = .string →
        role.Decided delimiter segments ∧ (role = .ancestor → 2 ≤ segments.length)) ∧
      (path.javaType ≠ .string → role = .descendant) := by
  by_cases hstring : path.javaType = .string
  · simp only [hstring, true_implies, ne_eq, not_true_eq_false, false_implies, and_true]
    constructor
    · intro h
      constructor
      · rw [← role.forall_selects_iff]
        intro text
        have htruth := h .bare _ (typedRow_rowOf (.text text) rfl)
        obtain ⟨selected, hselected, hselects⟩ := truth_columnPredicate_text .bare
          role hstring
            (rowOf_string hstring (.text text))
        rw [hselected, Path.text_rowOf hstring, Option.elim_some, Truth.ofBool_inj] at htruth
        rw [← hselects, htruth]
      · rintro rfl
        have hnull := h .bare _ (typedRow_rowOf .null rfl)
        rw [Path.text_of_null (rowOf_string hstring .null), Option.elim_none] at hnull
        by_contra hshort
        have hnone : getStrictPrefixes segments delimiter = [] := textsOfFirst_eq_nil.mpr (by omega)
        rw [columnPredicate, columnAncestor, hnone] at hnull
        cases hnull
    · rintro ⟨hdecided, hprefixes⟩ engine row hrow
      obtain hnull | ⟨text, htext⟩ := hrow.string_cases hstring
      · rw [truth_columnPredicate_null role hnull hprefixes, Path.text_of_null hnull]
        rfl
      · obtain ⟨selected, hselected, hselects⟩ := truth_columnPredicate_text engine
          role hstring htext
        rw [hselected, Path.text_eq_some_iff.mpr ⟨hstring, htext⟩, Option.elim_some,
          Truth.ofBool_inj, Bool.eq_iff_iff, hselects]
        exact role.forall_selects_iff.mpr hdecided text
  · simp only [hstring, false_implies, ne_eq, not_false_eq_true, true_implies, true_and,
      Path.text_of_ne_string hstring, Option.elim_none]
    constructor
    · intro h
      by_contra hrole
      exact truth_columnPredicate_mixed hrole hstring .null
        (h mixedEngine _ (typedRow_rowOf .null rfl))
    · rintro rfl engine row -
      show (startsWithLiteral path _).truth engine row = .unknown
      rw [startsWithLiteral, if_pos hstring]
      rfl

end Column

/-! ## Characters, on a row -/

section Characters

variable {engine : Engine} {row : Path → SqlValue} {path : Path}

/-- What a predicate of characters asks of the column. -/
def perCharacterRole (fieldFirst strict : Bool) : HierarchyRole :=
  if strict then if fieldFirst then .ancestor else .descendant else .overlapping

theorem mem_firstCharacters_strict {characters : List String} {text : String} :
    text ∈ firstCharacters characters 0 ↔ IsTextOfInitial characters text := by
  simp only [firstCharacters, Nat.add_zero, List.mem_map, List.mem_range, IsTextOfInitial,
    eq_comm (a := text)]

theorem mem_firstCharacters {characters : List String} {text : String} :
    text ∈ firstCharacters characters 1 ↔
      IsTextOfInitial characters text ∨ text = "".intercalate characters := by
  rw [← mem_firstCharacters_strict, firstCharacters, firstCharacters, List.range_succ,
    List.map_append, List.mem_append, List.map_singleton, List.mem_singleton, List.take_length,
    Nat.add_zero]

/-- The texts of the first characters, or no texts at all, which NULL is not one of either. -/
theorem truth_ancestorOrEqual {texts : List String} (hstring : path.javaType = .string)
    (hrow : TypedRow row) :
    (if texts.isEmpty then ColumnPredicate.disjunction.baseUnlessUnknown (.isNull path)
      else .isIn path texts).truth engine row =
        (path.text row).elim .unknown fun text => .ofBool (decide (text ∈ texts)) := by
  obtain hnull | ⟨text, htext⟩ := hrow.string_cases hstring
  · rw [Path.text_of_null hnull, Option.elim_none]
    split
    next =>
      have hwitness : (ColumnPredicate.isNull path).truth engine row = .ofBool true := by
        rw [truth_columnNull, hnull]
        rfl
      rw [truth_columnUnlessUnknown hwitness, if_pos rfl]
    next hne => exact truth_isIn_null hnull (by simpa [List.isEmpty_iff] using hne)
  · rw [Path.text_eq_some_iff.mpr ⟨hstring, htext⟩, Option.elim_some]
    split
    next hempty =>
      have hwitness : (ColumnPredicate.isNull path).truth engine row = .ofBool false := by
        rw [truth_columnNull, htext]
        rfl
      rw [truth_columnUnlessUnknown hwitness, List.isEmpty_iff.mp hempty]
      rfl
    next => exact truth_isIn_text htext texts

/-- A column and a constant that both split per character. -/
theorem truth_perCharacterPredicate (fieldFirst strict : Bool) (raw : String)
    (hrow : TypedRow row) :
    (perCharacterPredicate path (splitDelimited raw "") fieldFirst strict).truth engine row =
      (path.text row).elim .unknown fun text =>
        .ofBool ((perCharacterRole fieldFirst strict).test (splitDelimited text "")
          (splitDelimited raw "")) := by
  have hcharacters : splitDelimited ("".intercalate (splitDelimited raw "")) "" =
      splitDelimited raw "" := by
    rw [intercalate_characters]
  rw [perCharacterPredicate]
  by_cases hstring : path.javaType = .string
  · rw [if_neg (not_not.mpr hstring)]
    cases strict with
    | false =>
        have htest : ∀ text, hierarchiesOverlap (splitDelimited text "") (splitDelimited raw "") =
            (decide (text ∈ firstCharacters (splitDelimited raw "") 1) ||
              startsWithText text raw) := by
          intro text
          have hall := forall_initial_overlaps_iff.mpr hcharacters text
          rw [intercalate_characters] at hall
          rw [Bool.eq_iff_iff, hierarchiesOverlap_iff, Bool.or_eq_true, decide_eq_true_iff,
            mem_firstCharacters, intercalate_characters, or_assoc]
          exact hall.symm
        simp only [Bool.false_and, Bool.false_eq_true, if_false, truth_columnOr, List.map_cons,
          List.map_nil, Truth.any_cons, Truth.any_nil, Truth.or_no,
          truth_ancestorOrEqual hstring hrow]
        obtain hnull | ⟨text, htext⟩ := hrow.string_cases hstring
        · rw [Path.text_of_null hnull, truth_like_null hnull]
          rfl
        · rw [Path.text_eq_some_iff.mpr ⟨hstring, htext⟩, truth_like_text htext, Option.elim_some,
            Option.elim_some, like_escaped_run, intercalate_characters, Truth.or_ofBool]
          exact congrArg Truth.ofBool (htest text).symm
    | true =>
        cases fieldFirst with
        | true =>
            have htest : ∀ text, isStrictAncestor (splitDelimited text "") (splitDelimited raw "") =
                decide (text ∈ firstCharacters (splitDelimited raw "") 0) := by
              intro text
              rw [Bool.eq_iff_iff, isStrictAncestor_iff, decide_eq_true_iff,
                mem_firstCharacters_strict]
              exact (forall_textOfInitial_iff.mpr
                (firstSegmentsFound_of_characters hcharacters) text).symm
            refine (truth_ancestorOrEqual hstring hrow).trans ?_
            cases path.text row with
            | none => rfl
            | some text => exact congrArg Truth.ofBool (htest text).symm
        | false =>
            show (ColumnPredicate.like (.path path) _).truth engine row = _
            obtain hnull | ⟨text, htext⟩ := hrow.string_cases hstring
            · rw [Path.text_of_null hnull, truth_like_null hnull]
              rfl
            · rw [Path.text_eq_some_iff.mpr ⟨hstring, htext⟩, truth_like_text htext]
              refine congrArg Truth.ofBool ?_
              rw [Bool.eq_iff_iff, like_escaped_one]
              exact (forall_continues_iff.mpr hcharacters text).trans isStrictAncestor_iff.symm
  · rw [if_pos hstring, Path.text_of_ne_string hstring]
    rfl

end Characters

/-! ## Segment by segment -/

/-- The text of a segment on a row. -/
def Seg.text (row : Path → SqlValue) : Seg → Option String
  | const value => some value
  | field path => path.text row

section Segments

variable {engine : Engine} {row : Path → SqlValue} {shorter longer left right : List Seg}
  {a b : List String} {p : ColumnPredicate}

theorem segTexts_isSome_iff (segs : List Seg) :
    (segs.mapM (Seg.text row)).isSome = true ↔
      ∀ path ∈ segs.flatMap Seg.fieldPaths, (path.text row).isSome = true := by
  induction segs with
  | nil => simp
  | cons seg segs ih =>
      rw [List.mapM_cons, List.flatMap_cons, List.forall_mem_append, ← ih]
      cases seg with
      | const value => cases segs.mapM (Seg.text row) <;> simp [Seg.text, Seg.fieldPaths]
      | field path =>
          cases htext : path.text row <;> cases segs.mapM (Seg.text row) <;>
            simp [Seg.text, Seg.fieldPaths, htext]

theorem truth_equal_path {path : Path} {s : String} (h : path.text row = some s) (value : String) :
    (ColumnPredicate.compareText .eq (.path path) value).truth engine row = .ofBool (s == value) :=
  truth_equal_text (Path.text_eq_some_iff.mp h).2 value

/-- The conditions are those under which the one list of texts begins the other. -/
theorem truth_prefixConditions {conditions : Option (List ColumnPredicate)}
    (h : prefixConditions shorter longer = .ok conditions)
    (hshorter : shorter.mapM (Seg.text row) = some a)
    (hlonger : longer.mapM (Seg.text row) = some b) (hlength : shorter.length ≤ longer.length) :
    conditions.elim .no (fun conditions => Truth.all (conditions.map (·.truth engine row))) =
      .ofBool (a.isPrefixOf b) := by
  induction shorter generalizing longer conditions a b with
  | nil =>
      obtain rfl := Option.some_inj.mp hshorter
      cases longer <;> (obtain rfl := Except.ok.inj h; rfl)
  | cons s shorter ih =>
      cases longer with
      | nil => simp at hlength
      | cons l longer =>
          obtain ⟨first, a, hfirst, ha, rfl⟩ := mapM_cons_eq_some.mp hshorter
          obtain ⟨other, b, hother, hb, rfl⟩ := mapM_cons_eq_some.mp hlonger
          have hle : shorter.length ≤ longer.length := by simpa using hlength
          rw [List.isPrefixOf_cons_cons]
          -- One condition before those of the rest.
          have hcondition : ∀ (condition : ColumnPredicate) (rest : Option (List ColumnPredicate)),
              condition.truth engine row = .ofBool (first == other) →
                prefixConditions shorter longer = .ok rest →
                  (rest.map (condition :: ·)).elim .no
                    (fun conditions => Truth.all (conditions.map (·.truth engine row))) =
                      .ofBool (first == other && a.isPrefixOf b) := by
            intro condition rest hcondition hrest
            rw [← Truth.and_ofBool, ← ih hrest ha hb hle, ← hcondition]
            cases rest with
            | none => exact (Truth.and_no _).symm
            | some rest => rfl
          cases s with
          | const s =>
              obtain rfl := Option.some_inj.mp hfirst
              cases l with
              | const l =>
                  obtain rfl := Option.some_inj.mp hother
                  rw [prefixConditions] at h
                  split at h
                  next hne =>
                    obtain rfl := Except.ok.inj h
                    rw [beq_false_of_ne hne]
                    rfl
                  next heq =>
                    rw [not_not.mp heq, beq_self_eq_true, Bool.true_and]
                    exact ih h ha hb hle
              | field path =>
                  obtain ⟨rest, hrest, h⟩ := Except.bind_eq_ok_iff.mp h
                  obtain rfl := Except.ok.inj h
                  refine hcondition _ _ ?_ hrest
                  rw [truth_equal_path hother, BEq.comm]
          | field path =>
              cases l with
              | const l =>
                  obtain rfl := Option.some_inj.mp hother
                  obtain ⟨rest, hrest, h⟩ := Except.bind_eq_ok_iff.mp h
                  obtain rfl := Except.ok.inj h
                  exact hcondition _ _ (truth_equal_path hfirst _) hrest
              | field other => cases h

variable (engine) in
theorem truth_checkPrefixConditions {conditions : Option (List ColumnPredicate)}
    (h : checkPrefixConditions shorter longer = .ok conditions)
    (hshorter : shorter.mapM (Seg.text row) = some a)
    (hlonger : longer.mapM (Seg.text row) = some b) :
    conditions.elim .no (fun conditions => Truth.all (conditions.map (·.truth engine row))) =
      .ofBool (a.isPrefixOf b) := by
  rw [checkPrefixConditions] at h
  split at h
  next hlong =>
    obtain rfl := Except.ok.inj h
    have hnone : a.isPrefixOf b = false := by
      rw [Bool.eq_false_iff, Ne, List.isPrefixOf_iff_prefix]
      intro hprefix
      have hle := hprefix.length_le
      rw [length_of_mapM hshorter, length_of_mapM hlonger] at hle
      omega
    rw [hnone]
    rfl
  next hle => exact truth_prefixConditions h hshorter hlonger (by omega)

/-- The first list is no longer, when it begins the other one under conditions. -/
theorem length_of_checkPrefixConditions {conditions : List ColumnPredicate}
    (h : checkPrefixConditions shorter longer = .ok (some conditions)) :
    shorter.length ≤ longer.length := by
  rw [checkPrefixConditions] at h
  split at h
  next => cases h
  next hle => omega

/-- What overlapping lists of segments become. -/
theorem overlapsSegments_cases (h : overlapsSegments left right = .ok p) :
    (checkPrefixConditions left right = .ok none ∧ checkPrefixConditions right left = .ok none ∧
      p = .disjunction) ∨
    ∃ conditions, (checkPrefixConditions left right = .ok (some conditions) ∨
        checkPrefixConditions right left = .ok (some conditions)) ∧
      ∀ engine row, p.truth engine row = Truth.all (conditions.map (·.truth engine row)) := by
  obtain ⟨leftPrefixOfRight, hleft, hrest⟩ := Except.bind_eq_ok_iff.mp h
  obtain ⟨rightPrefixOfLeft, hright, hchoice⟩ := Except.bind_eq_ok_iff.mp hrest
  have hvalid : ∀ conditions ∈ leftPrefixOfRight.toList ++ rightPrefixOfLeft.toList,
      checkPrefixConditions left right = .ok (some conditions) ∨
        checkPrefixConditions right left = .ok (some conditions) := by
    intro conditions hmem
    obtain hmem | hmem := List.mem_append.mp hmem
    · exact .inl (hleft.trans (congrArg Except.ok (Option.mem_toList.mp hmem)))
    · exact .inr (hright.trans (congrArg Except.ok (Option.mem_toList.mp hmem)))
  split at hchoice
  next hnone =>
    left
    obtain ⟨hleftNone, hrightNone⟩ := List.append_eq_nil_iff.mp hnone
    rw [Option.toList_eq_nil_iff] at hleftNone hrightNone
    subst hleftNone hrightNone
    split at hchoice
    next => exact ⟨hleft, hright, (Except.ok.inj hchoice).symm⟩
    next => cases hchoice
  next chosen others hchosen =>
    right
    rw [hchosen] at hvalid
    split at hchoice
    next hempty =>
      obtain ⟨conditions, hmem, hnone⟩ := List.any_eq_true.mp hempty
      obtain rfl := List.isEmpty_iff.mp hnone
      obtain rfl := Except.ok.inj hchoice
      exact ⟨[], hvalid _ hmem, fun _ _ => rfl⟩
    next =>
      refine ⟨chosen, hvalid _ List.mem_cons_self, ?_⟩
      intro engine row
      split at hchoice
      next single =>
        obtain rfl := Except.ok.inj hchoice
        exact (Truth.and_yes _).symm
      next =>
        obtain rfl := Except.ok.inj hchoice
        exact truth_columnAnd chosen

/-- Where every column holds a text, lists of segments overlap as their texts do. -/
theorem truth_overlapsSegments (h : overlapsSegments left right = .ok p)
    (hleft : left.mapM (Seg.text row) = some a) (hright : right.mapM (Seg.text row) = some b) :
    p.truth engine row = .ofBool (hierarchiesOverlap a b) := by
  obtain ⟨hnone, hnone', rfl⟩ | ⟨conditions, hconditions, hp⟩ := overlapsSegments_cases h
  · have hab := truth_checkPrefixConditions engine hnone hleft hright
    have hba := truth_checkPrefixConditions engine hnone' hright hleft
    rw [truth_columnDisjunction]
    rcases Nat.le_total a.length b.length with hle | hle
    · rw [hierarchiesOverlap_of_le hle]
      exact hab
    · rw [hierarchiesOverlap_comm, hierarchiesOverlap_of_le hle]
      exact hba
  · rw [hp]
    rcases hconditions with hchecked | hchecked
    · have hle := length_of_checkPrefixConditions hchecked
      rw [← length_of_mapM hleft, ← length_of_mapM hright] at hle
      rw [hierarchiesOverlap_of_le hle]
      exact truth_checkPrefixConditions engine hchecked hleft hright
    · have hle := length_of_checkPrefixConditions hchecked
      rw [← length_of_mapM hleft, ← length_of_mapM hright] at hle
      rw [hierarchiesOverlap_comm, hierarchiesOverlap_of_le hle]
      exact truth_checkPrefixConditions engine hchecked hright hleft

/-- Each condition compares a column with a constant. -/
theorem equality_of_prefixConditions {conditions : List ColumnPredicate}
    (h : prefixConditions shorter longer = .ok (some conditions)) :
    ∀ condition ∈ conditions, ∃ path value, condition = .compareText .eq (.path path) value := by
  induction shorter generalizing longer conditions with
  | nil =>
      cases longer <;> (obtain rfl := Option.some_inj.mp (Except.ok.inj h); exact List.forall_mem_nil _)
  | cons s shorter ih =>
      have hmore : ∀ (path : Path) (value : String) (rest : Option (List ColumnPredicate)),
          prefixConditions shorter longer.tail = .ok rest →
            rest.map (.compareText .eq (.path path) value :: ·) = some conditions →
              ∀ condition ∈ conditions,
                ∃ path value, condition = .compareText .eq (.path path) value := by
        intro path value rest hrest hconditions
        obtain ⟨rest, rfl, rfl⟩ := Option.map_eq_some_iff.mp hconditions
        exact List.forall_mem_cons.mpr ⟨⟨path, value, rfl⟩, ih hrest⟩
      cases longer with
      | nil =>
          cases s <;>
            (obtain rfl := Option.some_inj.mp (Except.ok.inj h); exact List.forall_mem_nil _)
      | cons l longer =>
          cases s with
          | const s =>
              cases l with
              | const l =>
                  rw [prefixConditions] at h
                  split at h
                  next => cases h
                  next => exact ih h
              | field path =>
                  obtain ⟨rest, hrest, h⟩ := Except.bind_eq_ok_iff.mp h
                  exact hmore path s rest hrest (Except.ok.inj h)
          | field path =>
              cases l with
              | const l =>
                  obtain ⟨rest, hrest, h⟩ := Except.bind_eq_ok_iff.mp h
                  exact hmore path l rest hrest (Except.ok.inj h)
              | field other => cases h

theorem truth_equal_mixed (path : Path) (value : String) :
    (ColumnPredicate.compareText .eq (.path path) value).truth mixedEngine (rowOf (.text "")) ≠
      .unknown := by
  by_cases hstring : path.javaType = .string
  · rw [truth_equal_text (rowOf_string hstring _)]
    exact Truth.ofBool_ne_unknown _
  · rw [truth_compareText, eval_columnPath, compare_mixed hstring]
    exact Truth.ofBool_ne_unknown true

/-- Overlapping lists are compared also where a column is of another type. -/
theorem truth_overlapsSegments_mixed (h : overlapsSegments left right = .ok p) :
    p.truth mixedEngine (rowOf (.text "")) ≠ .unknown := by
  obtain ⟨-, -, rfl⟩ | ⟨conditions, hconditions, hp⟩ := overlapsSegments_cases h
  · exact Truth.ofBool_ne_unknown false
  · have hequalities : ∀ condition ∈ conditions,
        condition.truth mixedEngine (rowOf (.text "")) ≠ .unknown := by
      intro condition hcondition
      have hshape : ∃ path value, condition = .compareText .eq (.path path) value := by
        rcases hconditions with hchecked | hchecked
        all_goals
          rw [checkPrefixConditions] at hchecked
          split at hchecked
          next => cases hchecked
          next => exact equality_of_prefixConditions hchecked condition hcondition
      obtain ⟨path, value, rfl⟩ := hshape
      exact truth_equal_mixed path value
    rw [hp]
    clear hp hconditions
    induction conditions with
    | nil => exact Truth.ofBool_ne_unknown true
    | cons condition conditions ih =>
        obtain ⟨hfirst, hrest⟩ := List.forall_mem_cons.mp hequalities
        have hall := ih hrest
        rw [List.map_cons, Truth.all_cons]
        cases hcondition : condition.truth mixedEngine (rowOf (.text "")) with
        | yes => rwa [Truth.yes_and]
        | no => exact Truth.ofBool_ne_unknown false
        | unknown => exact absurd hcondition hfirst

end Segments

/-! ## The operands of the plan -/

section Operands

variable {scope : Scope schema} {row : Path → SqlValue} {valueOf : PlanValue Double → String}
  {opName : String}

/-- The texts of the columns that are named. -/
def columnText (scope : Scope schema) (row : Path → SqlValue) (name : String) : Option String :=
  match scope.path name with
  | .ok path => path.text row
  | .error _ => none

/-- A column of type String. -/
def IsStringColumn (scope : Scope schema) (name : String) : Prop :=
  ∃ path, scope.path name = .ok path ∧ path.javaType = .string

variable {segs : List Seg}

theorem columnText_eq {name : String} {path : Path} (hpath : scope.path name = .ok path) :
    columnText scope row name = path.text row := by
  rw [columnText, hpath]

theorem isStringColumn_iff {name : String} {path : Path} (hpath : scope.path name = .ok path) :
    IsStringColumn scope name ↔ path.javaType = .string := by
  rw [IsStringColumn, hpath]
  simp

/-- A segment and what it is resolved to. -/
inductive ResolvedSegment (scope : Scope schema) : SegmentOperand → Seg → Prop
  | constant (value : String) : ResolvedSegment scope (.constant value) (.const value)
  | column {name : String} {path : Path} (hpath : scope.path name = .ok path) :
      ResolvedSegment scope (.column name) (.field path)

/-- An operand and the hierarchy it is resolved to. -/
inductive Resolved (scope : Scope schema) : HierarchyOperand → Hierarchy → Prop
  | text (raw : String) (delimiter : Option String) : Resolved scope (.text raw delimiter)
      (.constant (splitDelimited raw (delimiter.getD ".")) (delimiter.getD "."))
  | column {name : String} {path : Path} (hpath : scope.path name = .ok path)
      (delimiter : Option String) :
      Resolved scope (.column name delimiter) (.fieldRef path (delimiter.getD "."))
  | constants {segments : List SegmentOperand} {segs : List Seg} {values : List String}
      (hsegs : List.Forall₂ (ResolvedSegment scope) segments segs)
      (hvalues : constantValues segs = some values) :
      Resolved scope (.list segments) (.constant values ".")
  | segmented {segments : List SegmentOperand} {segs : List Seg}
      (hsegs : List.Forall₂ (ResolvedSegment scope) segments segs) :
      Resolved scope (.list segments) (.segmented segs)

theorem resolvedSegment {segment : SegmentOperand} {seg : Seg}
    (h : resolveSegment valueOf scope segment.operand = .ok seg) :
    ResolvedSegment scope segment seg := by
  cases segment with
  | constant value =>
      obtain rfl := Except.ok.inj h
      exact .constant value
  | column name =>
      obtain ⟨path, hpath, h⟩ := Except.bind_eq_ok_iff.mp h
      obtain rfl := Except.ok.inj h
      exact .column hpath

theorem resolvedSegments {segments : List SegmentOperand}
    (h : (segments.map SegmentOperand.operand).mapM (resolveSegment valueOf scope) = .ok segs) :
    List.Forall₂ (ResolvedSegment scope) segments segs := by
  induction segments generalizing segs with
  | nil =>
      obtain rfl := Except.ok.inj h
      exact .nil
  | cons segment segments ih =>
      rw [List.map_cons] at h
      obtain ⟨seg, rest, hseg, hrest, rfl⟩ := mapM_cons_eq_ok.mp h
      exact .cons (resolvedSegment hseg) (ih hrest)

theorem resolved {operand : HierarchyOperand} {hierarchy : Hierarchy}
    (h : resolveHierarchy valueOf opName scope operand.operand = .ok hierarchy) :
    Resolved scope operand (normalizeHierarchy hierarchy) := by
  cases operand with
  | text raw delimiter =>
      cases delimiter <;> (obtain rfl := Except.ok.inj h; exact .text raw _)
  | column name delimiter =>
      cases delimiter <;>
        (obtain ⟨path, hpath, h⟩ := Except.bind_eq_ok_iff.mp h
         obtain rfl := Except.ok.inj h
         exact .column hpath _)
  | list segments =>
      obtain ⟨segs, hsegs, h⟩ := Except.bind_eq_ok_iff.mp h
      obtain rfl := Except.ok.inj h
      have hresolved := resolvedSegments hsegs
      rw [normalizeHierarchy]
      cases hvalues : constantValues segs with
      | none => exact .segmented hresolved
      | some values => exact .constants hresolved hvalues

theorem texts_of_resolved {segments : List SegmentOperand}
    (h : List.Forall₂ (ResolvedSegment scope) segments segs) :
    segments.mapM (SegmentOperand.text (columnText scope row)) = segs.mapM (Seg.text row) := by
  induction h with
  | nil => rfl
  | cons hsegment _ ih =>
      rw [List.mapM_cons, List.mapM_cons, ih]
      cases hsegment with
      | constant value => rfl
      | column hpath =>
          rw [SegmentOperand.text, columnText_eq hpath]
          rfl

theorem strings_of_resolved {segments : List SegmentOperand}
    (h : List.Forall₂ (ResolvedSegment scope) segments segs) :
    (∀ name ∈ segments.flatMap SegmentOperand.columns, IsStringColumn scope name) ↔
      ∀ path ∈ segs.flatMap Seg.fieldPaths, path.javaType = .string := by
  induction h with
  | nil => simp
  | cons hsegment _ ih =>
      rw [List.flatMap_cons, List.flatMap_cons, List.forall_mem_append, List.forall_mem_append, ih]
      cases hsegment with
      | constant value => simp [SegmentOperand.columns, Seg.fieldPaths]
      | column hpath =>
          simp [SegmentOperand.columns, Seg.fieldPaths, isStringColumn_iff hpath]

variable (row) in
theorem mapM_text_of_constantValues {values : List String} (h : constantValues segs = some values) :
    segs.mapM (Seg.text row) = some values ∧ segs.flatMap Seg.fieldPaths = [] := by
  induction segs generalizing values with
  | nil =>
      obtain rfl := Option.some_inj.mp h
      exact ⟨rfl, rfl⟩
  | cons seg segs ih =>
      cases seg with
      | field path => cases h
      | const value =>
          obtain ⟨rest, hrest, rfl⟩ := Option.map_eq_some_iff.mp h
          obtain ⟨htexts, hpaths⟩ := ih hrest
          exact ⟨mapM_cons_eq_some.mpr ⟨value, rest, rfl, htexts, rfl⟩, hpaths⟩

theorem mapM_text_const (values : List String) :
    (values.map Seg.const).mapM (Seg.text row) = some values := by
  induction values with
  | nil => rfl
  | cons value values ih => exact mapM_cons_eq_some.mpr ⟨value, values, rfl, ih, rfl⟩

theorem fieldPaths_const (values : List String) :
    (values.map Seg.const).flatMap Seg.fieldPaths = [] := by
  induction values with
  | nil => rfl
  | cons value values ih => exact ih

/-- A hierarchy that is no column, and its segments. -/
structure Listed (scope : Scope schema) (operand : HierarchyOperand) (hierarchy : Hierarchy)
    (segs : List Seg) : Prop where
  segments : toSegments hierarchy = .ok segs
  texts : ∀ row, operand.segments (columnText scope row) = segs.mapM (Seg.text row)
  paths : hierarchy.fieldPaths = segs.flatMap Seg.fieldPaths
  strings : (∀ name ∈ operand.columns, IsStringColumn scope name) ↔
    ∀ path ∈ hierarchy.fieldPaths, path.javaType = .string

theorem Resolved.listed {operand : HierarchyOperand} {hierarchy : Hierarchy}
    (h : Resolved scope operand hierarchy) (hlisted : hierarchy.isFieldRef = false) :
    ∃ segs, Listed scope operand hierarchy segs := by
  cases h with
  | column hpath delimiter => cases hlisted
  | text raw delimiter =>
      refine ⟨_, rfl, fun row => (mapM_text_const _).symm, (fieldPaths_const _).symm, ?_⟩
      simp [HierarchyOperand.columns, Hierarchy.fieldPaths]
  | constants hsegs hvalues =>
      have hnone := (mapM_text_of_constantValues (fun _ => .null) hvalues).2
      refine ⟨_, rfl, fun row => ?_, (fieldPaths_const _).symm, ?_⟩
      · rw [mapM_text_const, ← (mapM_text_of_constantValues row hvalues).1]
        exact texts_of_resolved hsegs
      · refine (strings_of_resolved hsegs).trans ?_
        rw [hnone]
        rfl
  | segmented hsegs =>
      exact ⟨_, rfl, fun row => texts_of_resolved hsegs, rfl, strings_of_resolved hsegs⟩

/-- A column is read from a column of the plan. -/
theorem Resolved.column_of_isFieldRef {operand : HierarchyOperand} {hierarchy : Hierarchy}
    (h : Resolved scope operand hierarchy) (hfield : hierarchy.isFieldRef = true) :
    ∃ name delimiter path, operand = .column name delimiter ∧ scope.path name = .ok path ∧
      hierarchy = .fieldRef path (delimiter.getD ".") := by
  cases h with
  | @column name path hpath delimiter => exact ⟨name, delimiter, path, rfl, hpath, rfl⟩
  | _ => cases hfield

end Operands

/-! ## Relations -/

/-- A relation of two hierarchies. -/
def relate : HierarchyRelation → (left right : Hierarchy) → Except Refusal ColumnPredicate
  | .overlaps, left, right => overlapsRelation left right
  | .ancestorOf, left, right => strictRelation "ancestorOf" "ancestor" left right
  | .descendentOf, left, right => strictRelation "descendentOf" "descendant" right left

section Relations

variable {scope : Scope schema} {relation : HierarchyRelation} {left right : HierarchyOperand}
  {first second : Hierarchy} {path : Path} {delimiter own : String} {segments : List String}
  {p : ColumnPredicate} {opName : String} {strict : Bool}

variable {ls rs : List Seg} {fieldFirst : Bool}

theorem handleHierarchy_eq_ok {valueOf : PlanValue Double → String}
    (h : handleHierarchy valueOf relation [left.operand, right.operand] scope = .ok p) :
    ∃ first second, Resolved scope left first ∧ Resolved scope right second ∧
      relate relation first second = .ok p := by
  have hboth : ∃ opName both,
      extractHierarchyOperands valueOf opName [left.operand, right.operand] scope = .ok both ∧
        relate relation both.1 both.2 = .ok p := by
    cases relation with
    | overlaps => exact ⟨_, Except.bind_eq_ok_iff.mp h⟩
    | ancestorOf => exact ⟨_, Except.bind_eq_ok_iff.mp h⟩
    | descendentOf => exact ⟨_, Except.bind_eq_ok_iff.mp h⟩
  obtain ⟨opName, both, hextracted, hrelated⟩ := hboth
  obtain ⟨first, hfirst, hextracted⟩ := Except.bind_eq_ok_iff.mp hextracted
  obtain ⟨second, hsecond, hextracted⟩ := Except.bind_eq_ok_iff.mp hextracted
  obtain rfl := Except.ok.inj hextracted
  exact ⟨_, _, resolved hfirst, resolved hsecond, hrelated⟩

/-! ### Of listed segments -/

/-- Without a column no relation is per character. -/
theorem perCharacterRelation_listed {result : Option ColumnPredicate}
    (hfirst : first.isFieldRef = false) (hsecond : second.isFieldRef = false)
    (h : perCharacterRelation opName first second strict = .ok result) : result = none := by
  rw [perCharacterRelation] at h
  split at h
  next => exact (Except.ok.inj h).symm
  next =>
    simp only [hfirst, Bool.false_eq_true, if_false] at h
    split at h
    next => cases hsecond
    next => cases h

/-- Of two lists the relation is asked on every row exactly where every column is of type
String. -/
theorem overlapsRelation_decides_iff (hleft : Listed scope left first ls)
    (hright : Listed scope right second rs) (hfirst : first.isFieldRef = false)
    (hsecond : second.isFieldRef = false) (h : overlapsRelation first second = .ok p) :
    (∀ engine row, TypedRow row →
      p.truth engine row = hierarchyTruth (columnText scope row) .overlaps left right) ↔
      ∀ path ∈ first.fieldPaths ++ second.fieldPaths, path.javaType = .string := by
  obtain ⟨perCharacter, hperCharacter, h⟩ := Except.bind_eq_ok_iff.mp h
  obtain rfl := perCharacterRelation_listed hfirst hsecond hperCharacter
  obtain ⟨result, hresult, h⟩ := Except.bind_eq_ok_iff.mp h
  have hsegments : overlapsSegments ls rs = .ok result := by
    rw [overlaps, hfirst, hsecond, hleft.segments, hright.segments] at hresult
    exact hresult
  have hsome : ∀ row, hierarchyTruth (columnText scope row) .overlaps left right = .unknown ↔
      ¬ ∀ path ∈ first.fieldPaths ++ second.fieldPaths, (path.text row).isSome = true := by
    intro row
    rw [hierarchyTruth_eq_unknown_iff, hleft.texts, hright.texts, segTexts_isSome_iff,
      segTexts_isSome_iff, ← hleft.paths, ← hright.paths, List.forall_mem_append]
  have hwitness : ∀ (engine : Engine) (row : Path → SqlValue) (paths : List Path),
      (ColumnPredicate.or (paths.map .isNull)).truth engine row =
        .ofBool (paths.any fun path => (row path).isNull) := by
    intro engine row paths
    rw [truth_columnOr]
    induction paths with
    | nil => rfl
    | cons path paths ih =>
        rw [List.map_cons, List.map_cons, Truth.any_cons, ih, truth_columnNull, Truth.or_ofBool,
          List.any_cons]
  have hp : ∀ engine row, p.truth engine row =
      if (first.fieldPaths ++ second.fieldPaths).any fun path => (row path).isNull then .unknown
      else result.truth engine row := by
    intro engine row
    obtain rfl := Except.ok.inj h
    split
    next hnone =>
      rw [List.isEmpty_iff.mp hnone]
      rfl
    next => exact truth_columnUnlessUnknown (hwitness engine row _)
  constructor
  · intro hall path hpath
    by_contra hstring
    have hrow : TypedRow (rowOf (.text "")) := typedRow_rowOf _ rfl
    have hnull : (first.fieldPaths ++ second.fieldPaths).any
        (fun path => (rowOf (.text "") path).isNull) = false := by
      rw [List.any_eq_false]
      intro other _
      rw [rowOf]
      split
      next => exact Bool.false_ne_true
      next => cases other.javaType <;> exact Bool.false_ne_true
    have hunknown : hierarchyTruth (columnText scope (rowOf (.text ""))) .overlaps left right =
        .unknown := by
      rw [hsome]
      intro htexts
      have htext := htexts path hpath
      rw [Path.text_of_ne_string hstring] at htext
      cases htext
    have htruth := hall mixedEngine _ hrow
    rw [hp, hnull, if_neg Bool.false_ne_true, hunknown] at htruth
    exact truth_overlapsSegments_mixed hsegments htruth
  · intro hstrings engine row hrow
    rw [hp]
    by_cases htexts : ∀ path ∈ first.fieldPaths ++ second.fieldPaths, (path.text row).isSome = true
    · have hnull : (first.fieldPaths ++ second.fieldPaths).any
          (fun path => (row path).isNull) = false := by
        rw [List.any_eq_false]
        intro path hpath hnull
        have htext := htexts path hpath
        rw [Path.text_of_null (SqlValue.eq_null_of_isNull hnull)] at htext
        cases htext
      obtain ⟨hleftTexts, hrightTexts⟩ := List.forall_mem_append.mp htexts
      rw [hleft.paths, ← segTexts_isSome_iff] at hleftTexts
      rw [hright.paths, ← segTexts_isSome_iff] at hrightTexts
      obtain ⟨a, ha⟩ := Option.isSome_iff_exists.mp hleftTexts
      obtain ⟨b, hb⟩ := Option.isSome_iff_exists.mp hrightTexts
      rw [hnull, if_neg Bool.false_ne_true, truth_overlapsSegments hsegments ha hb,
        hierarchyTruth_of_segments ((hleft.texts row).trans ha) ((hright.texts row).trans hb)]
      rfl
    · rw [(hsome row).mpr htexts, if_pos]
      rw [List.any_eq_true]
      by_contra hnull
      refine htexts fun path hpath => ?_
      obtain hmissing | ⟨s, hs⟩ := hrow.string_cases (hstrings path hpath)
      · exact absurd ⟨path, hpath, by rw [hmissing]; rfl⟩ hnull
      · rw [Path.text_eq_some_iff.mpr ⟨hstrings path hpath, hs⟩]
        rfl

theorem strictRelation_listed {relationship : String} (hfirst : first.isFieldRef = false)
    (hsecond : second.isFieldRef = false)
    (h : strictRelation opName relationship first second = .ok p) :
    ∃ a ownA d ownD, first = .constant a ownA ∧ second = .constant d ownD ∧
      isStrictAncestor a d = true ∧ p = .conjunction := by
  obtain ⟨perCharacter, hperCharacter, h⟩ := Except.bind_eq_ok_iff.mp h
  obtain rfl := perCharacterRelation_listed hfirst hsecond hperCharacter
  cases first with
  | fieldRef path delimiter => cases hfirst
  | segmented segs => cases second <;> cases h
  | constant a ownA =>
      cases second with
      | fieldRef path delimiter => cases hsecond
      | segmented segs => cases h
      | constant d ownD =>
          simp only at h
          split at h
          next hancestor => exact ⟨a, ownA, d, ownD, rfl, rfl, hancestor, (Except.ok.inj h).symm⟩
          next => cases h

/-- Two constants that are related: TRUE on every row. -/
theorem truth_related_constants {a d : List String} {ownA ownD : String} {row : Path → SqlValue}
    (hleft : Listed scope left (.constant a ownA) ls)
    (hright : Listed scope right (.constant d ownD) rs) (h : relation.test a d = true) :
    hierarchyTruth (columnText scope row) relation left right = .yes := by
  have hls := Except.ok.inj hleft.segments
  have hrs := Except.ok.inj hright.segments
  have ha : left.segments (columnText scope row) = some a := by
    rw [hleft.texts, ← hls, mapM_text_const]
  have hd : right.segments (columnText scope row) = some d := by
    rw [hright.texts, ← hrs, mapM_text_const]
  rw [hierarchyTruth_of_segments ha hd, h]
  rfl

theorem relate_listed_decides_iff (hleft : Listed scope left first ls)
    (hright : Listed scope right second rs) (hfirst : first.isFieldRef = false)
    (hsecond : second.isFieldRef = false) (h : relate relation first second = .ok p) :
    (∀ engine row, TypedRow row →
      p.truth engine row = hierarchyTruth (columnText scope row) relation left right) ↔
      ∀ name ∈ left.columns ++ right.columns, IsStringColumn scope name := by
  rw [List.forall_mem_append, hleft.strings, hright.strings, ← List.forall_mem_append]
  cases relation with
  | overlaps => exact overlapsRelation_decides_iff hleft hright hfirst hsecond h
  | ancestorOf =>
      obtain ⟨a, ownA, d, ownD, rfl, rfl, hancestor, rfl⟩ := strictRelation_listed hfirst hsecond h
      have htest : HierarchyRelation.ancestorOf.test a d = true := hancestor
      refine iff_of_true ?_ (List.forall_mem_nil _)
      intro engine row _
      exact (truth_related_constants hleft hright htest).symm
  | descendentOf =>
      obtain ⟨a, ownA, d, ownD, rfl, rfl, hancestor, rfl⟩ := strictRelation_listed hsecond hfirst h
      have htest : HierarchyRelation.descendentOf.test d a = true := hancestor
      refine iff_of_true ?_ (List.forall_mem_nil _)
      intro engine row _
      exact (truth_related_constants hleft hright htest).symm

/-! ### Of a column and a constant -/

/-- The column's side and the constant's, with the column first or second. -/
inductive Sides (path : Path) (delimiter own : String) (segments : List String) :
    (fieldFirst : Bool) → (first second : Hierarchy) → Prop
  | fieldFirst : Sides path delimiter own segments true (.fieldRef path delimiter)
      (.constant segments own)
  | constantFirst : Sides path delimiter own segments false (.constant segments own)
      (.fieldRef path delimiter)

theorem Sides.swap (h : Sides path delimiter own segments fieldFirst first second) :
    Sides path delimiter own segments (!fieldFirst) second first := by
  cases h with
  | fieldFirst => exact .constantFirst
  | constantFirst => exact .fieldFirst

theorem perCharacterRelation_sides {result : Option ColumnPredicate}
    (hsides : Sides path delimiter own segments fieldFirst first second)
    (h : perCharacterRelation opName first second strict = .ok result) :
    (delimiter ≠ "" ∧ result = none) ∨ (delimiter = "" ∧ own = "" ∧
      result = some (perCharacterPredicate path segments fieldFirst strict)) := by
  have hempty : ∀ s : String, s = "" ∨ s ≠ "" := fun s => Decidable.em (s = "")
  obtain hdelimiter | hdelimiter := hempty delimiter
  · obtain hown | hown := hempty own
    · right
      refine ⟨hdelimiter, hown, ?_⟩
      subst hdelimiter hown
      cases hsides <;> exact (Except.ok.inj h).symm
    · cases hsides <;>
        simp [perCharacterRelation, Hierarchy.isPerCharacter, hdelimiter, hown] at h
  · left
    refine ⟨hdelimiter, ?_⟩
    obtain hown | hown := hempty own
    · cases hsides <;>
        simp [perCharacterRelation, Hierarchy.isPerCharacter, hdelimiter, hown] at h
    · cases hsides <;>
        (simp only [perCharacterRelation, Hierarchy.isPerCharacter, hdelimiter, hown, decide_false,
          Bool.not_false, Bool.and_true, if_true] at h
         exact (Except.ok.inj h).symm)

/-- The predicate of a relation, per character or by its role. -/
theorem relate_sides (hsides : Sides path delimiter own segments fieldFirst first second)
    (h : relate relation first second = .ok p) :
    (delimiter ≠ "" ∧ p = columnPredicate (relation.role fieldFirst) path delimiter segments) ∨
    (delimiter = "" ∧ own = "" ∧ ∃ first strict,
      perCharacterRole first strict = relation.role fieldFirst ∧
        p = perCharacterPredicate path segments first strict) := by
  cases relation with
  | overlaps =>
      obtain ⟨result, hresult, h⟩ := Except.bind_eq_ok_iff.mp h
      obtain ⟨hdelimiter, rfl⟩ | ⟨hdelimiter, hown, rfl⟩ := perCharacterRelation_sides hsides hresult
      · left
        refine ⟨hdelimiter, ?_⟩
        cases hsides <;> exact (Except.ok.inj h).symm
      · right
        exact ⟨hdelimiter, hown, fieldFirst, false, rfl, (Except.ok.inj h).symm⟩
  | ancestorOf =>
      obtain ⟨result, hresult, h⟩ := Except.bind_eq_ok_iff.mp h
      obtain ⟨hdelimiter, rfl⟩ | ⟨hdelimiter, hown, rfl⟩ := perCharacterRelation_sides hsides hresult
      · left
        refine ⟨hdelimiter, ?_⟩
        cases hsides <;> exact (Except.ok.inj h).symm
      · right
        refine ⟨hdelimiter, hown, fieldFirst, true, ?_, (Except.ok.inj h).symm⟩
        cases fieldFirst <;> rfl
  | descendentOf =>
      obtain ⟨result, hresult, h⟩ := Except.bind_eq_ok_iff.mp h
      obtain ⟨hdelimiter, rfl⟩ | ⟨hdelimiter, hown, rfl⟩ :=
        perCharacterRelation_sides hsides.swap hresult
      · left
        refine ⟨hdelimiter, ?_⟩
        cases hsides <;> exact (Except.ok.inj h).symm
      · right
        refine ⟨hdelimiter, hown, !fieldFirst, true, ?_, (Except.ok.inj h).symm⟩
        cases fieldFirst <;> rfl

/-! ### Of a column and no constant -/

theorem constant_of_perCharacterRelation {q : ColumnPredicate}
    (h : perCharacterRelation opName first second strict = .ok (some q)) :
    ∃ segments own, first = .constant segments own ∨ second = .constant segments own := by
  rw [perCharacterRelation] at h
  split at h
  next => cases h
  next =>
    simp only at h
    split at h
    next path delimiter segments own _ _ hother =>
      split at hother
      next => exact ⟨segments, own, .inr hother⟩
      next => exact ⟨segments, own, .inl hother⟩
    next => cases h

theorem constant_of_strictRelation {relationship : String}
    (hcolumn : first.isFieldRef = true ∨ second.isFieldRef = true)
    (h : strictRelation opName relationship first second = .ok p) :
    ∃ segments own, first = .constant segments own ∨ second = .constant segments own := by
  obtain ⟨result, hresult, h⟩ := Except.bind_eq_ok_iff.mp h
  cases result with
  | some q => exact constant_of_perCharacterRelation hresult
  | none =>
      cases first with
      | constant segments own => exact ⟨segments, own, .inl rfl⟩
      | fieldRef path delimiter =>
          cases second with
          | constant segments own => exact ⟨segments, own, .inr rfl⟩
          | _ => cases h
      | segmented segs => cases h

theorem constant_of_overlapsRelation (hcolumn : first.isFieldRef = true ∨ second.isFieldRef = true)
    (h : overlapsRelation first second = .ok p) :
    ∃ segments own, first = .constant segments own ∨ second = .constant segments own := by
  obtain ⟨result, hresult, h⟩ := Except.bind_eq_ok_iff.mp h
  cases result with
  | some q => exact constant_of_perCharacterRelation hresult
  | none =>
      obtain ⟨filter, hfilter, -⟩ := Except.bind_eq_ok_iff.mp h
      cases first with
      | constant segments own => exact ⟨segments, own, .inl rfl⟩
      | fieldRef path delimiter =>
          cases second with
          | constant segments own => exact ⟨segments, own, .inr rfl⟩
          | _ => cases hfilter
      | segmented segs =>
          cases second with
          | constant segments own => exact ⟨segments, own, .inr rfl⟩
          | fieldRef path delimiter => cases hfilter
          | segmented others => rcases hcolumn with hcolumn | hcolumn <;> cases hcolumn

/-- What is compared with a column is a constant. -/
theorem constant_of_relate (hcolumn : first.isFieldRef = true ∨ second.isFieldRef = true)
    (h : relate relation first second = .ok p) :
    ∃ segments own, first = .constant segments own ∨ second = .constant segments own := by
  cases relation with
  | overlaps => exact constant_of_overlapsRelation hcolumn h
  | ancestorOf => exact constant_of_strictRelation hcolumn h
  | descendentOf =>
      obtain ⟨segments, own, hconstant⟩ := constant_of_strictRelation hcolumn.symm h
      exact ⟨segments, own, hconstant.symm⟩

theorem constants_of_resolved {operand : HierarchyOperand}
    (h : Resolved scope operand (.constant segments own)) :
    operand.constants = some segments ∧ (own = "" → ∃ raw, segments = splitDelimited raw "") := by
  generalize hhierarchy : Hierarchy.constant segments own = hierarchy at h
  cases h with
  | column hpath delimiter => cases hhierarchy
  | segmented hsegs => cases hhierarchy
  | text raw delimiter =>
      obtain ⟨rfl, rfl⟩ := Hierarchy.constant.inj hhierarchy
      refine ⟨rfl, fun hown => ⟨raw, by rw [hown]⟩⟩
  | @constants listed segs values hsegs hvalues =>
      obtain ⟨rfl, rfl⟩ := Hierarchy.constant.inj hhierarchy
      refine ⟨?_, fun hown => absurd hown (by decide)⟩
      clear hhierarchy
      induction hsegs generalizing segments with
      | nil => exact hvalues
      | cons hsegment _ ih =>
          cases hsegment with
          | column hpath => cases hvalues
          | constant value =>
              obtain ⟨rest, hrest, rfl⟩ := Option.map_eq_some_iff.mp hvalues
              exact mapM_cons_eq_some.mpr ⟨value, rest, rfl, ih hrest, rfl⟩

end Relations

/-! ## The exact condition -/

section Exactness

variable (scope : Scope schema)

/-- Of a column and a constant: the constant's segments are found in the texts that are compared,
a strict ancestor leaves some text to compare, and a column of another type is a descendant. With
an empty delimiter nothing is asked. -/
def ColumnDecided (role : HierarchyRole) (name delimiter : String) (other : HierarchyOperand) :
    Prop :=
  delimiter = "" ∨
    ((IsStringColumn scope name → ∀ segments ∈ other.constants,
      role.Decided delimiter segments ∧ (role = .ancestor → 2 ≤ segments.length)) ∧
    (¬ IsStringColumn scope name → role = .descendant))

/-- Where the relation of two operands is asked; of two lists every column is of type String. -/
def HierarchiesDecided (relation : HierarchyRelation) : (left right : HierarchyOperand) → Prop
  | .column name delimiter, other =>
      ColumnDecided scope (relation.role true) name (delimiter.getD ".") other
  | other, .column name delimiter =>
      ColumnDecided scope (relation.role false) name (delimiter.getD ".") other
  | left, right => ∀ name ∈ left.columns ++ right.columns, IsStringColumn scope name

variable {scope} {relation : HierarchyRelation} {path : Path} {delimiter own name : String}
  {segments : List String} {p : ColumnPredicate} {other : HierarchyOperand}

theorem sides_decides_iff {fieldFirst : Bool} {first second : Hierarchy}
    (hpath : scope.path name = .ok path)
    (hother : Resolved scope other (.constant segments own))
    (hsides : Sides path delimiter own segments fieldFirst first second)
    (h : relate relation first second = .ok p) :
    (∀ engine row, TypedRow row → p.truth engine row =
        (columnText scope row name).elim .unknown fun text =>
          .ofBool ((relation.role fieldFirst).test (splitDelimited text delimiter) segments)) ↔
      ColumnDecided scope (relation.role fieldFirst) name delimiter other := by
  obtain ⟨hconstants, hcharacters⟩ := constants_of_resolved hother
  simp only [columnText_eq hpath]
  rw [ColumnDecided, isStringColumn_iff hpath, hconstants]
  obtain ⟨hdelimiter, rfl⟩ | ⟨rfl, hown, fieldFirst', strict, hrole, rfl⟩ := relate_sides hsides h
  · rw [columnPredicate_decides_iff]
    simp [hdelimiter]
  · obtain ⟨raw, rfl⟩ := hcharacters hown
    refine iff_of_true ?_ (.inl rfl)
    intro engine row hrow
    rw [← hrole]
    exact truth_perCharacterPredicate fieldFirst' strict raw hrow

theorem hierarchiesDecided_column_second {first : Hierarchy} (hother : Resolved scope other first)
    (hfirst : first.isFieldRef = false) (name : String) (delimiter : Option String) :
    HierarchiesDecided scope relation other (.column name delimiter) ↔
      ColumnDecided scope (relation.role false) name (delimiter.getD ".") other := by
  cases hother with
  | column hpath delimiter => cases hfirst
  | _ => rfl

theorem hierarchiesDecided_listed {left right : HierarchyOperand} {first second : Hierarchy}
    (hleft : Resolved scope left first) (hright : Resolved scope right second)
    (hfirst : first.isFieldRef = false) (hsecond : second.isFieldRef = false) :
    HierarchiesDecided scope relation left right ↔
      ∀ name ∈ left.columns ++ right.columns, IsStringColumn scope name := by
  cases hleft with
  | column hpath delimiter => cases hfirst
  | _ =>
      cases hright with
      | column hpath delimiter => cases hsecond
      | _ => rfl

/-- A relation of two hierarchies that is accepted is on every row what it is between their
segments, and UNKNOWN where a column is NULL or not of type String, exactly under the
condition. -/
theorem handleHierarchy_decides_iff (valueOf : PlanValue Double → String) (scope : Scope schema)
    (relation : HierarchyRelation) (left right : HierarchyOperand) (p : ColumnPredicate)
    (h : handleHierarchy valueOf relation [left.operand, right.operand] scope = .ok p) :
    (∀ engine row, TypedRow row →
      p.truth engine row = hierarchyTruth (columnText scope row) relation left right) ↔
      HierarchiesDecided scope relation left right := by
  obtain ⟨first, second, hfirst, hsecond, hrelated⟩ := handleHierarchy_eq_ok h
  by_cases hfirstField : first.isFieldRef = true
  · obtain ⟨name, delimiter, path, rfl, hpath, rfl⟩ := hfirst.column_of_isFieldRef hfirstField
    obtain ⟨segments, own, hnone | rfl⟩ := constant_of_relate (.inl hfirstField) hrelated
    · cases hnone
    · simp only [hierarchyTruth_column_first (constants_of_resolved hsecond).1]
      exact sides_decides_iff hpath hsecond .fieldFirst hrelated
  · rw [Bool.not_eq_true] at hfirstField
    by_cases hsecondField : second.isFieldRef = true
    · obtain ⟨name, delimiter, path, rfl, hpath, rfl⟩ := hsecond.column_of_isFieldRef hsecondField
      obtain ⟨segments, own, rfl | hnone⟩ := constant_of_relate (.inr hsecondField) hrelated
      · simp only [hierarchyTruth_column_second (constants_of_resolved hfirst).1]
        rw [hierarchiesDecided_column_second hfirst hfirstField]
        exact sides_decides_iff hpath hfirst .constantFirst hrelated
      · cases hnone
    · rw [Bool.not_eq_true] at hsecondField
      obtain ⟨ls, hleft⟩ := hfirst.listed hfirstField
      obtain ⟨rs, hright⟩ := hsecond.listed hsecondField
      rw [hierarchiesDecided_listed hfirst hsecond hfirstField hsecondField]
      exact relate_listed_decides_iff hleft hright hfirstField hsecondField hrelated

end Exactness

/-! ### Examples -/

/-- Folders with a path. -/
def folders : Schema where
  Entity := Unit
  element _ := .other "row"
  column
    | _, "path" => some .string
    | _, _ => none
  joined _ _ := none

def folderScope : Scope folders :=
  .root () [("R.attr.path", .field ⟨"path", none⟩)]

def folderPath : HierarchyOperand :=
  .column "R.attr.path" none

/-- `a.b` is found again in `a.b.`, and `a.b.c` descends from it. -/
theorem handleHierarchy_decides_iff_folder :
    (handleHierarchy (fun _ => "") .descendentOf
        [folderPath.operand, (HierarchyOperand.text "a.b" none).operand] folderScope).map
      (·.truth .bare (rowOf (.text "a.b.c"))) = .ok .yes := by
  have hdecided : HierarchiesDecided folderScope .descendentOf folderPath (.text "a.b" none) := by
    refine .inr ⟨fun _ segments hsegments => ⟨?_, fun hrole => absurd hrole (by decide)⟩,
      fun _ => rfl⟩
    obtain rfl := Option.mem_some_iff.mp hsegments
    show splitDelimited _ _ = _
    decide
  have hall := (handleHierarchy_decides_iff (fun _ => "") folderScope .descendentOf folderPath
    (.text "a.b" none) (columnDescends ⟨0, some "path", .string⟩ "." ["a", "b"]) rfl).mpr hdecided
  have hrow : TypedRow (rowOf (.text "a.b.c")) := typedRow_rowOf _ rfl
  refine (congrArg Except.ok (hall .bare _ hrow)).trans (congrArg Except.ok ?_)
  decide

/-- A missing path is no ancestor of `a`, instead of UNKNOWN, and `a.b` overlaps the one segment
`a.b`. -/
theorem handleHierarchy_misreads_folder :
    (handleHierarchy (fun _ => "") .ancestorOf
        [folderPath.operand, (HierarchyOperand.text "a" none).operand] folderScope).map
      (·.truth .bare (rowOf .null)) = .ok .no ∧
    hierarchyTruth (columnText folderScope (rowOf .null)) .ancestorOf folderPath (.text "a" none) =
      .unknown ∧
    (handleHierarchy (fun _ => "") .overlaps
        [folderPath.operand, (HierarchyOperand.list [.constant "a.b"]).operand] folderScope).map
      (·.truth .bare (rowOf (.text "a.b"))) = .ok .yes ∧
    hierarchyTruth (columnText folderScope (rowOf (.text "a.b"))) .overlaps folderPath
      (.list [.constant "a.b"]) = .no := by
  refine ⟨rfl, rfl, ?_, by decide⟩
  -- The text is the constant's.
  refine congrArg Except.ok ?_
  show (columnOverlaps ⟨0, some "path", .string⟩ "." ["a.b"]).truth .bare (rowOf (.text "a.b")) = .yes
  rw [truth_columnOverlaps_text rfl rfl]
  decide

end QueryPlanAdapters.SpringData
