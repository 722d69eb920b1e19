import QueryPlanAdapters.Cel.Segments
import QueryPlanAdapters.Logic.Exception

/-!
# The operands of a hierarchy relation

A hierarchy is a constant text or a column, split on a delimiter, or a list of segments that
are constants and columns. A column that holds no text leaves the whole relation UNKNOWN,
whether or not the other segments decide it.
-/

namespace QueryPlanAdapters

/-! ## Runs over lists -/

theorem mapM_cons_eq_some {α β : Type} {f : α → Option β} {x : α} {xs : List α} {ys : List β} :
    (x :: xs).mapM f = some ys ↔
      ∃ y rest, f x = some y ∧ xs.mapM f = some rest ∧ y :: rest = ys := by
  simp [List.mapM_cons, Option.bind_eq_some_iff]

theorem mapM_cons_eq_ok {ε α β : Type} {f : α → Except ε β} {x : α} {xs : List α} {ys : List β} :
    (x :: xs).mapM f = .ok ys ↔
      ∃ y rest, f x = .ok y ∧ xs.mapM f = .ok rest ∧ y :: rest = ys := by
  rw [List.mapM_cons, Except.bind_eq_ok_iff]
  simp only [Except.bind_eq_ok_iff, pure, Except.pure, Except.ok.injEq, exists_and_left]

theorem length_of_mapM {α β : Type} {f : α → Option β} {xs : List α} {ys : List β}
    (h : xs.mapM f = some ys) : ys.length = xs.length := by
  induction xs generalizing ys with
  | nil =>
      obtain rfl := Option.some_inj.mp h
      rfl
  | cons x xs ih =>
      obtain ⟨y, rest, -, hrest, rfl⟩ := mapM_cons_eq_some.mp h
      rw [List.length_cons, List.length_cons, ih hrest]

/-! ## Relations -/

theorem hierarchiesOverlap_comm (left right : List String) :
    hierarchiesOverlap left right = hierarchiesOverlap right left := by
  rw [Bool.eq_iff_iff, hierarchiesOverlap_iff, hierarchiesOverlap_iff, eq_comm,
    or_comm (a := StrictPrefix left right)]

/-- The hierarchy that is no longer begins the other one. -/
theorem hierarchiesOverlap_of_le {left right : List String} (h : left.length ≤ right.length) :
    hierarchiesOverlap left right = left.isPrefixOf right :=
  if_pos h

inductive HierarchyRelation where
  | ancestorOf | descendentOf | overlaps
  deriving DecidableEq, Repr

namespace HierarchyRelation

def test : HierarchyRelation → (left right : List String) → Bool
  | ancestorOf, left, right => isStrictAncestor left right
  | descendentOf, left, right => isStrictAncestor right left
  | overlaps, left, right => hierarchiesOverlap left right

/-- What the relation asks of a column, with the column first or second. -/
def role : HierarchyRelation → (fieldFirst : Bool) → HierarchyRole
  | ancestorOf, true | descendentOf, false => .ancestor
  | ancestorOf, false | descendentOf, true => .descendant
  | overlaps, _ => .overlapping

theorem test_role_first (relation : HierarchyRelation) (field constant : List String) :
    (relation.role true).test field constant = relation.test field constant := by
  cases relation <;> rfl

theorem test_role_second (relation : HierarchyRelation) (field constant : List String) :
    (relation.role false).test field constant = relation.test constant field := by
  cases relation with
  | ancestorOf => rfl
  | descendentOf => rfl
  | overlaps => exact hierarchiesOverlap_comm field constant

end HierarchyRelation

/-- A segment of a listed hierarchy. -/
inductive SegmentOperand where
  | constant (value : String)
  | column (name : String)

/-- The operand of a relation. Without a delimiter a text is split on `.`. -/
inductive HierarchyOperand where
  | text (path : String) (delimiter : Option String)
  | column (name : String) (delimiter : Option String)
  | list (segments : List SegmentOperand)

namespace SegmentOperand

variable {ν : Type}

def operand : SegmentOperand → Operand ν
  | constant value => .value (.string value)
  | column name => .var name

def columns : SegmentOperand → List String
  | constant _ => []
  | column name => [name]

/-- The text of a segment; `texts` are the columns', for those that hold one. -/
def text (texts : String → Option String) : SegmentOperand → Option String
  | constant value => some value
  | column name => texts name

end SegmentOperand

namespace HierarchyOperand

variable {ν : Type}

/-- `hierarchy(path)` and `hierarchy(path, delimiter)` -/
def hierarchyCall (path : Operand ν) : Option String → Operand ν
  | none => .expression .hierarchy [path]
  | some delimiter => .expression .hierarchy [path, .value (.string delimiter)]

def operand : HierarchyOperand → Operand ν
  | text path delimiter => hierarchyCall (.value (.string path)) delimiter
  | column name delimiter => hierarchyCall (.var name) delimiter
  | list segments => hierarchyCall (.expression .list (segments.map SegmentOperand.operand)) none

/-- The columns that occur. -/
def columns : HierarchyOperand → List String
  | text _ _ => []
  | column name _ => [name]
  | list segments => segments.flatMap SegmentOperand.columns

/-- CEL's segments, unless a column holds no text. -/
def segments (texts : String → Option String) : HierarchyOperand → Option (List String)
  | text path delimiter => some (splitDelimited path (delimiter.getD "."))
  | column name delimiter => (texts name).map (splitDelimited · (delimiter.getD "."))
  | list segments => segments.mapM (SegmentOperand.text texts)

/-- The segments of a hierarchy without columns. -/
def constants : HierarchyOperand → Option (List String) :=
  segments fun _ => none

end HierarchyOperand

/-- A relation on a row, whose columns hold these texts. -/
def hierarchyTruth (texts : String → Option String) (relation : HierarchyRelation)
    (left right : HierarchyOperand) : Truth :=
  match left.segments texts, right.segments texts with
  | some left, some right => .ofBool (relation.test left right)
  | _, _ => .unknown

section Segments

variable {texts : String → Option String}

/-- Of constants the segments are the same on every row. -/
theorem HierarchyOperand.segments_of_constants {hierarchy : HierarchyOperand}
    {segments : List String} (h : hierarchy.constants = some segments) :
    hierarchy.segments texts = some segments := by
  cases hierarchy with
  | text path delimiter => exact h
  | column name delimiter => cases h
  | list listed =>
      change listed.mapM (SegmentOperand.text fun _ => none) = some segments at h
      show listed.mapM (SegmentOperand.text texts) = some segments
      induction listed generalizing segments with
      | nil => exact h
      | cons segment listed ih =>
          obtain ⟨first, rest, hfirst, hrest, rfl⟩ := mapM_cons_eq_some.mp h
          cases segment with
          | column name => cases hfirst
          | constant value =>
              exact mapM_cons_eq_some.mpr ⟨first, rest, hfirst, ih hrest, rfl⟩

variable {relation : HierarchyRelation} {left right : HierarchyOperand}

theorem hierarchyTruth_of_segments {a b : List String} (hleft : left.segments texts = some a)
    (hright : right.segments texts = some b) :
    hierarchyTruth texts relation left right = .ofBool (relation.test a b) := by
  rw [hierarchyTruth, hleft, hright]

theorem hierarchyTruth_column_first {segments : List String}
    (hconstants : right.constants = some segments) (name : String) (delimiter : Option String) :
    hierarchyTruth texts relation (.column name delimiter) right =
      (texts name).elim .unknown fun text =>
        .ofBool ((relation.role true).test (splitDelimited text (delimiter.getD ".")) segments) := by
  rw [hierarchyTruth, HierarchyOperand.segments_of_constants hconstants, HierarchyOperand.segments]
  cases texts name with
  | none => rfl
  | some text => rw [Option.map_some, Option.elim_some, HierarchyRelation.test_role_first]

theorem hierarchyTruth_column_second {segments : List String}
    (hconstants : left.constants = some segments) (name : String) (delimiter : Option String) :
    hierarchyTruth texts relation left (.column name delimiter) =
      (texts name).elim .unknown fun text =>
        .ofBool ((relation.role false).test (splitDelimited text (delimiter.getD ".")) segments) := by
  rw [hierarchyTruth, HierarchyOperand.segments_of_constants hconstants, HierarchyOperand.segments]
  cases texts name with
  | none => rfl
  | some text => rw [Option.map_some, Option.elim_some, HierarchyRelation.test_role_second]

/-- The relation is UNKNOWN exactly where some column holds no text. -/
theorem hierarchyTruth_eq_unknown_iff :
    hierarchyTruth texts relation left right = .unknown ↔
      ¬ ((left.segments texts).isSome = true ∧ (right.segments texts).isSome = true) := by
  rw [hierarchyTruth]
  cases left.segments texts <;> cases right.segments texts <;> simp

end Segments

end QueryPlanAdapters
