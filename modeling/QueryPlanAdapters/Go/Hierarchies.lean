import QueryPlanAdapters.Cel.Hierarchy
import QueryPlanAdapters.Go.Membership
import QueryPlanAdapters.Go.StringMatches

/-!
# Go: hierarchies

A hierarchy that begins another is a membership among the other's beginnings when the
other is a constant, and a text prefix when it is one itself. The text prefix differs
from CEL where a delimiter overlaps itself, and the membership where CEL has no
hierarchy at all.
-/

namespace QueryPlanAdapters.Go

open Sql

/-! ## What CEL makes of a hierarchy -/

/-- CEL's `hierarchy(text, delimiter)`, of a text. -/
def hierarchyOutcome (delimiter : String) : Outcome → Outcome
  | .value (.string s) => .value (.hierarchy (splitDelimited s delimiter))
  | _ => .error

/-- The operators over two hierarchies. -/
inductive HierarchyOperator where
  | ancestorOf | descendentOf | overlaps
  deriving DecidableEq

namespace HierarchyOperator

def toPlan : HierarchyOperator → PlanOperator
  | ancestorOf => .ancestorOf
  | descendentOf => .descendentOf
  | overlaps => .overlaps

/-- The operator over the segments of two hierarchies. -/
def test : HierarchyOperator → (left right : List String) → Bool
  | ancestorOf, left, right => isStrictAncestor left right
  | descendentOf, left, right => isStrictAncestor right left
  | overlaps, left, right => hierarchiesOverlap left right

end HierarchyOperator

/-! ## The LIKE of a constant beginning -/

/-- The pattern of a constant beginning finds the texts that it begins. -/
theorem likeMatches_beginning (s text : String) :
    likeMatches likeEscape (escapeLikeLiteral s ++ "%") text = startsWithText text s := by
  have hpattern : escapeLikeLiteral s ++ "%" = MatchSides.startsWith.around (escapeLikeLiteral s) :=
    congrArg (· ++ "%") String.empty_append.symm
  rw [hpattern]
  exact likeMatches_around .startsWith s text

/-! ## Hierarchies over texts -/

section Texts

variable {engine : Engine} {db : Database} {env : RowEnv} {delimiter : String}

/-- An operand that is a text: a constant, or a column that holds one. -/
inductive HoldsText (env : RowEnv) : Val → String → Prop
  | constant (s : String) : HoldsText env (.constant (.string s)) s
  | column {c : Column} {s : String} (htype : c.type.holds (.text s) = true)
      (hx : env c.qualifier c.name = .text s) : HoldsText env (.expr (.column c)) s

def isConstant : Val → Bool
  | .constant _ => true
  | _ => false

variable {a d : String} {e : Expr} {lv rv : Val}

theorem holds_text {type : ValueType} {s : String} (h : type.holds (.text s) = true) :
    type = .string ∨ type = .default := by
  cases type <;> simp [ValueType.holds] at h ⊢

theorem holds_text_string {c : Column} {s : String} (h : c.type.holds (.text s) = true) :
    knownNonString (.expr (.column c)) = false := by
  obtain h | h := holds_text h <;>
    simp [knownNonString, Val.scalarKind, Expr.scalarKind, Column.scalarKind, h]

theorem scalarKind_text {c : Column} (h : knownNonString (.expr (.column c)) = false) :
    c.scalarKind = some .string ∨ c.scalarKind = none := by
  rw [knownNonString, Val.scalarKind, Expr.scalarKind] at h
  cases hkind : c.scalarKind with
  | none => exact .inr rfl
  | some kind => cases kind <;> simp [hkind] at h ⊢

/-- A column's text is looked up among the constants. -/
theorem truth_membership_text {c : Column} (htype : c.type.holds (.text a) = true)
    (hx : env c.qualifier c.name = .text a) (texts : List String) :
    (loweredMembership (.column c) (texts.map .string)).truth engine db env =
      .ofBool (texts.contains a) := by
  have heval : (Expr.column c).eval engine db env = .text a := hx
  have hcomparable : ∀ v ∈ texts.map (PlanValue.string : String → Literal),
      isComparableMember (Expr.column c).scalarKind v = true := by
    intro v hv
    obtain ⟨s, -, rfl⟩ := List.mem_map.mp hv
    obtain h | h := holds_text htype <;>
      simp [isComparableMember, isNullLiteral, isForeignMember, Expr.scalarKind,
        Column.scalarKind, Val.scalarKind, h]
  rw [truth_membership_present _ (by rw [heval]; rfl), List.filter_eq_self.mpr hcomparable, heval,
    List.map_map]
  induction texts with
  | nil => rfl
  | cons s texts ih =>
      have hrest : ∀ v ∈ texts.map (PlanValue.string : String → Literal),
          isComparableMember (Expr.column c).scalarKind v = true := by
        intro v hv
        exact hcomparable v (List.mem_cons_of_mem _ hv)
      rw [List.map_cons, Truth.any_cons, ih hrest, List.contains_cons, ← Truth.or_ofBool]
      congr 1
      exact @Engine.compare_text engine a s

theorem properPrefixes_contains (hdelimiter : delimiter ≠ "") (a d : String) :
    (properPrefixes d delimiter).contains a =
      isStrictAncestor (splitDelimited a delimiter) (splitDelimited d delimiter) := by
  rw [Bool.eq_iff_iff, isStrictAncestor_iff_take hdelimiter, List.contains_iff_mem,
    properPrefixes, List.mem_map]
  constructor
  · rintro ⟨count, hcount, rfl⟩
    rw [List.mem_range'_1] at hcount
    exact ⟨count, by omega, by omega, rfl⟩
  · rintro ⟨count, hpos, hlt, rfl⟩
    exact ⟨count, by rw [List.mem_range'_1]; omega, rfl⟩

/-- What the lowering of an ancestor decides: the text prefix of a constant, and the
beginnings at a delimiter of a column. -/
def loweredAncestor (delimiter : String) (constant : Bool) (a d : String) : Bool :=
  if constant then startsWithText d (a ++ delimiter)
  else isStrictAncestor (splitDelimited a delimiter) (splitDelimited d delimiter)

theorem matchingHierarchies_same (lv rv : Val) (delimiter : String) :
    matchingHierarchies (.hierarchy lv delimiter) (.hierarchy rv delimiter) =
      .ok (lv, rv, delimiter) :=
  if_pos rfl

theorem ancestorOf_constants (a d delimiter : String) :
    ancestorOf (.hierarchy (.constant (.string a)) delimiter)
        (.hierarchy (.constant (.string d)) delimiter) =
      .ok (.boolConst (startsWithText d (a ++ delimiter))) := by
  rw [ancestorOf, matchingHierarchies_same]
  rfl

theorem ancestorOf_column_constant (x : Expr) (d delimiter : String) :
    ancestorOf (.hierarchy (.expr x) delimiter) (.hierarchy (.constant (.string d)) delimiter) =
      .ok (loweredMembership x ((properPrefixes d delimiter).map .string)) := by
  rw [← membership_expr, ancestorOf, matchingHierarchies_same]
  rfl

theorem ancestorOf_constant_column (a : String) (x : Expr) (delimiter : String) :
    ancestorOf (.hierarchy (.constant (.string a)) delimiter) (.hierarchy (.expr x) delimiter) =
      .ok (if knownNonString (.expr x) then .null
        else .like x (.lit (.string (escapeLikeLiteral (a ++ delimiter) ++ "%")))) := by
  have hneedle : knownNonString (.constant (.string (a ++ delimiter))) = false := rfl
  have hpattern : likePattern (.string (a ++ delimiter)) .startsWith =
      .ok (.lit (.string (escapeLikeLiteral (a ++ delimiter) ++ "%"))) := by
    simp [likePattern, MatchSides.startsWith, Val.string]
  have hmatch : ancestorOf (.hierarchy (.constant (.string a)) delimiter)
      (.hierarchy (.expr x) delimiter) =
        stringMatch .startsWith (.expr x) (.string (a ++ delimiter)) := by
    rw [ancestorOf, matchingHierarchies_same]
    rfl
  rw [hmatch, stringMatch]
  cases knownNonString (.expr x) with
  | true => rfl
  | false =>
      rw [Val.string, hneedle]
      show (do
        let recvExpr ← asExpr (.expr x)
        let pattern ← likePattern (.string (a ++ delimiter)) .startsWith
        return Expr.like recvExpr pattern) = _
      rw [hpattern]
      rfl

theorem ancestorOf_columns (x y : Expr) (delimiter : String) :
    ancestorOf (.hierarchy (.expr x) delimiter) (.hierarchy (.expr y) delimiter) =
      errorf "hierarchy comparison between two columns is not supported" [] := by
  rw [ancestorOf, matchingHierarchies_same]
  rfl

theorem truth_like_beginning (hlike : StandardLike engine likeEscape) {x : Expr}
    (hx : x.eval engine db env = .text d) (a : String) :
    (Expr.like x (.lit (.string (escapeLikeLiteral a ++ "%")))).truth engine db env =
      .ofBool (startsWithText d a) := by
  show (SqlValue.ofTruth (engine.like (x.eval engine db env)
    (.text (escapeLikeLiteral a ++ "%")))).asTruth = _
  rw [SqlValue.asTruth_ofTruth, hx, hlike.text, likeMatches_beginning]

theorem truth_ancestorOf (hlike : StandardLike engine likeEscape) (hdelimiter : delimiter ≠ "")
    (hl : HoldsText env lv a) (hr : HoldsText env rv d)
    (h : ancestorOf (.hierarchy lv delimiter) (.hierarchy rv delimiter) = .ok e) :
    e.truth engine db env = .ofBool (loweredAncestor delimiter (isConstant lv) a d) := by
  cases hl with
  | constant =>
      cases hr with
      | constant =>
          rw [ancestorOf_constants] at h
          obtain rfl := Except.ok.inj h
          rfl
      | @column c _ htype hx =>
          rw [ancestorOf_constant_column, holds_text_string htype] at h
          obtain rfl := Except.ok.inj h
          have heval : (Expr.column c).eval engine db env = .text d := hx
          exact truth_like_beginning hlike heval (a ++ delimiter)
  | column htype hx =>
      cases hr with
      | constant =>
          rw [ancestorOf_column_constant] at h
          obtain rfl := Except.ok.inj h
          rw [truth_membership_text htype hx, properPrefixes_contains hdelimiter]
          rfl
      | column =>
          rw [ancestorOf_columns] at h
          cases h

/-- Of two columns there is no lowering. -/
theorem constant_of_ancestorOf (hl : HoldsText env lv a) (hr : HoldsText env rv d)
    (h : ancestorOf (.hierarchy lv delimiter) (.hierarchy rv delimiter) = .ok e) :
    isConstant lv = true ∨ isConstant rv = true := by
  cases hl with
  | constant => exact .inl rfl
  | column =>
      cases hr with
      | constant => exact .inr rfl
      | column =>
          rw [ancestorOf_columns] at h
          cases h

/-- An equality with a column, which is guarded where its NULL is a null. -/
def equalTexts (c : Column) (equality : Expr) : Expr :=
  if c.explicitNull then .and [.isNull (.column c) true, equality] else equality

/-- The equality of a column with a text, in either order. -/
theorem compare_texts [Double.Rounding] (now : Int) {c : Column}
    (hstring : knownNonString (.expr (.column c)) = false) (s : String) :
    compare now .eq (.expr (.column c)) (.constant (.string s)) =
        .ok (equalTexts c (.cmp .eq (.column c) (.lit (.constant (.string s))))) ∧
      compare now .eq (.constant (.string s)) (.expr (.column c)) =
        .ok (equalTexts c (.cmp .eq (.lit (.constant (.string s))) (.column c))) := by
  have hplain : compare now .eq (.expr (.column c)) (.constant (.string s)) =
        comparePlain .eq (.expr (.column c)) (.constant (.string s)) ∧
      compare now .eq (.constant (.string s)) (.expr (.column c)) =
        comparePlain .eq (.constant (.string s)) (.expr (.column c)) := ⟨rfl, rfl⟩
  rw [hplain.1, hplain.2]
  obtain h | h := scalarKind_text hstring <;> cases hnull : c.explicitNull <;>
    simp [comparePlain, compareMixedTypes, Val.scalarKind, Expr.scalarKind, h,
      isListLiteral, nullComparison, isNil, foldComparison, asExpr, assertNoMixedNullConventions,
      definiteEquality, explicitNullColumn, isColumn, hnull, equalTexts,
      ComparisonOperator.isOrdering, bind, Except.bind, pure, Except.pure]

theorem truth_equalTexts {c : Column} {t : String} (hx : env c.qualifier c.name = .text t)
    (equality : Expr) :
    (equalTexts c equality).truth engine db env = equality.truth engine db env := by
  rw [equalTexts]
  split
  · have hpresent : (Expr.isNull (.column c) true).truth engine db env = .yes := by
      rw [Expr.truth_isNull, Expr.eval_column, hx]
      rfl
    simp [hpresent]
  · rfl

/-- The equality of two texts, at most one of them a column's. -/
theorem truth_compare_texts [Double.Rounding] {now : Int}
    (hl : HoldsText env lv a) (hr : HoldsText env rv d)
    (hconstant : isConstant lv = true ∨ isConstant rv = true)
    (h : compare now .eq lv rv = .ok e) : e.truth engine db env = .ofBool (a = d) := by
  cases hl with
  | constant =>
      cases hr with
      | constant =>
          have hfold : compare now .eq (.constant (.string a)) (.constant (.string d)) =
              .ok (.boolConst (compareStrings .eq a d)) := rfl
          rw [hfold] at h
          obtain rfl := Except.ok.inj h
          simp [compareStrings, ComparisonOperator.test, compareCodePoints_eq_zero_iff,
            String.toList_inj]
      | column htype hx =>
          rw [(compare_texts now (holds_text_string htype) _).2] at h
          obtain rfl := Except.ok.inj h
          rw [truth_equalTexts hx, Expr.truth_cmp, Expr.eval_column, hx]
          exact Engine.compare_text a d
  | column htype hx =>
      cases hr with
      | constant =>
          rw [(compare_texts now (holds_text_string htype) _).1] at h
          obtain rfl := Except.ok.inj h
          rw [truth_equalTexts hx, Expr.truth_cmp, Expr.eval_column, hx]
          exact Engine.compare_text a d
      | column => simp [isConstant] at hconstant

end Texts

/-! ## Where a text prefix is a beginning -/

section Exactness

variable {delimiter : String}

/-- Whether a delimiter put after a text is found there. -/
def Separated (delimiter ancestor descendent : String) : Prop :=
  startsWithText descendent (ancestor ++ delimiter) = true →
    splitDelimited (ancestor ++ delimiter) delimiter = splitDelimited ancestor delimiter ++ [""]

/-- Where the lowering of an operator reads a text prefix, the delimiter is found after it. -/
def HierarchyOperator.separated (operator : HierarchyOperator) (delimiter : String)
    (left right : Bool) (a d : String) : Prop :=
  match operator with
  | ancestorOf => left = true → Separated delimiter a d
  | descendentOf => right = true → Separated delimiter d a
  | overlaps => (left = true → Separated delimiter a d) ∧ (right = true → Separated delimiter d a)

theorem loweredAncestor_iff (hdelimiter : delimiter ≠ "") (constant : Bool)
    (a d : String) :
    loweredAncestor delimiter constant a d =
        isStrictAncestor (splitDelimited a delimiter) (splitDelimited d delimiter) ↔
      (constant = true → Separated delimiter a d) := by
  cases constant with
  | false => simp [loweredAncestor]
  | true =>
      rw [loweredAncestor, if_pos rfl, Bool.eq_iff_iff, isStrictAncestor_iff_startsWith hdelimiter,
        Separated]
      simp

/-- A strict ancestor is the shorter text. -/
theorem length_lt_of_loweredAncestor (hdelimiter : delimiter ≠ "")
    {constant : Bool} {a d : String} (h : loweredAncestor delimiter constant a d = true) :
    a.toList.length < d.toList.length := by
  have hbegins : startsWithText d (a ++ delimiter) = true := by
    rw [loweredAncestor] at h
    split at h
    · exact h
    · exact ((isStrictAncestor_iff_startsWith hdelimiter a d).mp h).1
  rw [startsWithText, List.isPrefixOf_iff_prefix, String.toList_append] at hbegins
  have hle := hbegins.length_le
  have hpos : 0 < delimiter.toList.length := List.length_pos_iff.mpr (by simpa using hdelimiter)
  rw [List.length_append] at hle
  omega

/-- Neither of two hierarchies begins the other twice over, so that each prefix of an
overlap decides for itself. -/
theorem loweredOverlaps_iff (hdelimiter : delimiter ≠ "")
    (left right : Bool) (a d : String) :
    (decide (a = d) || loweredAncestor delimiter left a d || loweredAncestor delimiter right d a) =
        hierarchiesOverlap (splitDelimited a delimiter) (splitDelimited d delimiter) ↔
      (left = true → Separated delimiter a d) ∧ (right = true → Separated delimiter d a) := by
  rw [← loweredAncestor_iff hdelimiter left a d, ← loweredAncestor_iff hdelimiter right d a]
  have hoverlap : hierarchiesOverlap (splitDelimited a delimiter) (splitDelimited d delimiter) =
      (decide (a = d) || loweredAncestor delimiter false a d ||
        loweredAncestor delimiter false d a) := by
    rw [Bool.eq_iff_iff, hierarchiesOverlap_iff, splitDelimited_inj hdelimiter,
      ← isStrictAncestor_iff, ← isStrictAncestor_iff]
    simp [loweredAncestor, or_assoc]
  have hexact : ∀ a d, isStrictAncestor (splitDelimited a delimiter) (splitDelimited d delimiter) =
      loweredAncestor delimiter false a d := by
    intro a d
    rfl
  rw [hoverlap, hexact, hexact]
  have hweaker : ∀ constant a d, loweredAncestor delimiter false a d = true →
      loweredAncestor delimiter constant a d = true := by
    intro constant a d h
    cases constant with
    | false => exact h
    | true => exact ((isStrictAncestor_iff_startsWith hdelimiter a d).mp h).1
  have hshorter : ∀ {constant a d}, loweredAncestor delimiter constant a d = true →
      a.toList.length < d.toList.length := length_lt_of_loweredAncestor hdelimiter
  have hlengths : a = d → a.toList.length = d.toList.length := by
    rintro rfl
    rfl
  constructor
  · intro h
    by_cases hl : loweredAncestor delimiter left a d = true
    · -- A longer text is neither equal to the ancestor nor an ancestor of it.
      have hlt := hshorter hl
      have hne : a ≠ d := fun heq => by have := hlengths heq; omega
      have hnone : ∀ constant, loweredAncestor delimiter constant d a = false := by
        intro constant
        rw [Bool.eq_false_iff]
        intro hr
        have := hshorter hr
        omega
      rw [hl, hnone right, hnone false, decide_eq_false hne] at h
      rw [hl, hnone right, hnone false]
      exact ⟨by simpa using h, rfl⟩
    · have hl' : loweredAncestor delimiter false a d = false :=
        Bool.eq_false_iff.mpr fun h' => hl (hweaker left a d h')
      rw [Bool.eq_false_iff.mpr hl, hl', Bool.or_false] at h
      refine ⟨by rw [Bool.eq_false_iff.mpr hl, hl'], ?_⟩
      by_cases hr : loweredAncestor delimiter right d a = true
      · have hlt := hshorter hr
        have hne : a ≠ d := fun heq => by have := hlengths heq; omega
        rwa [decide_eq_false hne, Bool.false_or, Bool.false_or] at h
      · rw [Bool.eq_false_iff.mpr hr, eq_comm, Bool.eq_false_iff]
        exact fun h' => hr (hweaker right d a h')
  · rintro ⟨h, h'⟩
    rw [h, h']

end Exactness

/-! ## The operators -/

section Operators

variable [Double.Rounding] (now : Int)

/-- The lowering of an operator over two hierarchies. -/
def lowerHierarchies (operator : HierarchyOperator) (l r : Val) : Except Failure Expr :=
  match operator with
  | .ancestorOf => ancestorOf l r
  | .descendentOf => descendentOf l r
  | .overlaps => hierarchyOverlaps now l r

variable {e : Expr} {lv rv : Val}

theorem lowerHierarchies_delimiter {operator : HierarchyOperator} {dl dr : String}
    (h : lowerHierarchies now operator (.hierarchy lv dl) (.hierarchy rv dr) = .ok e) :
    dl = dr := by
  by_cases hne : dl = dr
  · exact hne
  · have hleft : matchingHierarchies (.hierarchy lv dl) (.hierarchy rv dr) =
        errorf "hierarchy operands must use the same delimiter" [] := if_neg hne
    have hright : matchingHierarchies (.hierarchy rv dr) (.hierarchy lv dl) =
        errorf "hierarchy operands must use the same delimiter" [] := if_neg (Ne.symm hne)
    cases operator with
    | ancestorOf =>
        rw [lowerHierarchies, ancestorOf, hleft] at h
        cases h
    | descendentOf =>
        rw [lowerHierarchies, descendentOf, ancestorOf, hright] at h
        cases h
    | overlaps =>
        rw [lowerHierarchies, hierarchyOverlaps, hleft] at h
        cases h

theorem hierarchyOverlaps_parts {delimiter : String}
    (h : hierarchyOverlaps now (.hierarchy lv delimiter) (.hierarchy rv delimiter) = .ok e) :
    ∃ eq lAnc rAnc, compare now .eq lv rv = .ok eq ∧
      ancestorOf (.hierarchy lv delimiter) (.hierarchy rv delimiter) = .ok lAnc ∧
      ancestorOf (.hierarchy rv delimiter) (.hierarchy lv delimiter) = .ok rAnc ∧
      e = .or [eq, lAnc, rAnc] := by
  rw [hierarchyOverlaps, matchingHierarchies_same] at h
  obtain ⟨parts, hparts, h⟩ := Except.bind_eq_ok_iff.mp h
  obtain rfl := Except.ok.inj hparts
  obtain ⟨eq, heq, h⟩ := Except.bind_eq_ok_iff.mp h
  obtain ⟨lAnc, hl, h⟩ := Except.bind_eq_ok_iff.mp h
  obtain ⟨rAnc, hr, h⟩ := Except.bind_eq_ok_iff.mp h
  exact ⟨eq, lAnc, rAnc, heq, hl, hr, (Except.ok.inj h).symm⟩

/-- Over two texts, an operator is lowered to CEL's exactly where each text prefix it reads
ends at a delimiter. -/
theorem truth_lowerHierarchies_iff {engine : Engine} {db : Database} {env : RowEnv}
    {operator : HierarchyOperator} {a d delimiter : String}
    (hlike : StandardLike engine likeEscape) (hdelimiter : delimiter ≠ "")
    (hl : HoldsText env lv a) (hr : HoldsText env rv d)
    (h : lowerHierarchies now operator (.hierarchy lv delimiter) (.hierarchy rv delimiter) = .ok e) :
    e.truth engine db env =
        .ofBool (operator.test (splitDelimited a delimiter) (splitDelimited d delimiter)) ↔
      operator.separated delimiter (isConstant lv) (isConstant rv) a d := by
  cases operator with
  | ancestorOf =>
      rw [truth_ancestorOf hlike hdelimiter hl hr h, Truth.ofBool_inj]
      exact loweredAncestor_iff hdelimiter (isConstant lv) a d
  | descendentOf =>
      rw [truth_ancestorOf hlike hdelimiter hr hl h, Truth.ofBool_inj]
      exact loweredAncestor_iff hdelimiter (isConstant rv) d a
  | overlaps =>
      obtain ⟨eq, lAnc, rAnc, heq, hlAnc, hrAnc, rfl⟩ := hierarchyOverlaps_parts now h
      have hconstant := constant_of_ancestorOf hl hr hlAnc
      have htruth : (Expr.or [eq, lAnc, rAnc]).truth engine db env =
          .ofBool (decide (a = d) || loweredAncestor delimiter (isConstant lv) a d ||
            loweredAncestor delimiter (isConstant rv) d a) := by
        rw [Expr.truth_combine, if_neg Bool.false_ne_true]
        simp only [List.map_cons, List.map_nil, Truth.any_cons, Truth.any_nil, Truth.or_no,
          truth_compare_texts hl hr hconstant heq, truth_ancestorOf hlike hdelimiter hl hr hlAnc,
          truth_ancestorOf hlike hdelimiter hr hl hrAnc, Truth.or_ofBool, Bool.or_assoc]
      rw [htruth, Truth.ofBool_inj]
      exact loweredOverlaps_iff hdelimiter (isConstant lv) (isConstant rv) a d

end Operators

/-! ## The translation -/

/-- A `hierarchy()` call, with a delimiter or with the dot it stands for. -/
def hierarchyNode (leaf : Node) (delimiter : Option String) : Node :=
  .expression .hierarchy (leaf :: delimiter.toList.map fun d => .value (.string d))

def delimiterOf (delimiter : Option String) : String :=
  delimiter.getD "."

/-- An operand of a hierarchy: a constant, or an attribute stored in a column. -/
inductive TextLeaf (m : Mapper) : Node → Val → Prop
  | constant (s : String) : TextLeaf m (.value (.string s)) (.constant (.string s))
  | column {reference : String} {entry : Entry} (hentry : m.resolve reference = some entry)
      (hcolumn : entry.isColumn = true) :
      TextLeaf m (.var reference) (.expr (.column (elementColumn entry.qualifier entry)))

section Translation

variable {m : Mapper} {s : Nat}

variable {leaf : Node} {lv : Val}

theorem newHierarchy_leaf (h : TextLeaf m leaf lv) :
    newHierarchy lv none = .ok (.hierarchy lv ".") := by
  cases h <;> rfl

theorem newHierarchy_delimited {v : Val} {delimiter : String} (h : TextLeaf m leaf lv)
    (hv : newHierarchy lv (some (.constant (.string delimiter))) = .ok v) :
    delimiter ≠ "" ∧ v = .hierarchy lv delimiter := by
  have hnew : newHierarchy lv (some (.constant (.string delimiter))) =
      if delimiter = "" then errorf "hierarchy() delimiter must be a non-empty string" []
      else .ok (.hierarchy lv delimiter) := by
    cases h <;> rfl
  rw [hnew] at hv
  split at hv
  · cases hv
  next hne => exact ⟨hne, (Except.ok.inj hv).symm⟩

variable [Double.Rounding] {opts : Options} {now : Int} {fuel : Nat}

theorem yields_textLeaf (h : TextLeaf m leaf lv) :
    Yields ((builder opts now fuel).value leaf m) s fun v s' => v = lv ∧ s' = s := by
  cases h with
  | constant => exact yields_value_literal _
  | column hentry hcolumn => exact yields_value_column hentry hcolumn

theorem yields_hierarchy (h : TextLeaf m leaf lv) (delimiter : Option String) :
    Yields ((builder opts now fuel).value (hierarchyNode leaf delimiter) m) s fun v s' =>
      (delimiterOf delimiter ≠ "" ∧ v = .hierarchy lv (delimiterOf delimiter)) ∧ s' = s := by
  cases fuel with
  | zero => exact Yields.throw _
  | succ fuel =>
      cases delimiter with
      | none =>
          show Yields ((builder opts now fuel).value leaf m >>= fun v =>
            liftM (newHierarchy v none)) s _
          refine (yields_textLeaf h).bind fun v s₁ hv => ?_
          obtain ⟨rfl, rfl⟩ := hv
          rw [newHierarchy_leaf h]
          exact Yields.pure ⟨⟨by decide, rfl⟩, rfl⟩
      | some delimiter =>
          show Yields ((builder opts now fuel).value leaf m >>= fun target =>
            (builder opts now fuel).value (.value (.string delimiter)) m >>= fun delimiter =>
              liftM (newHierarchy target (some delimiter))) s _
          refine (yields_textLeaf h).bind fun v s₁ hv => ?_
          obtain ⟨rfl, rfl⟩ := hv
          refine (yields_value_literal _).bind fun r s₂ hr => ?_
          obtain ⟨rfl, rfl⟩ := hr
          exact Yields.lift fun v hv => newHierarchy_delimited h hv

theorem predicateStep_hierarchies {b : Builder} (operator : HierarchyOperator)
    (left right : List Node) (negated : Bool) :
    b.predicateStep
        (.expression operator.toPlan [.expression .hierarchy left, .expression .hierarchy right])
        m negated = (do
      let l ← b.value (.expression .hierarchy left) m
      let r ← b.value (.expression .hierarchy right) m
      return negate (← lowerHierarchies b.now operator l r) negated) := by
  cases operator <;> rfl

/-- The hierarchies of an operator are lowered to its lowering of their operands. -/
theorem yields_hierarchies {operator : HierarchyOperator} {left right : Node} {rv : Val}
    {dl dr : Option String} {negated : Bool} (hl : TextLeaf m left lv) (hr : TextLeaf m right rv) :
    Yields ((builder opts now fuel).predicate
        (.expression operator.toPlan [hierarchyNode left dl, hierarchyNode right dr]) m negated) s
      fun e _ => delimiterOf dl = delimiterOf dr ∧ delimiterOf dl ≠ "" ∧
        ∃ lowered, lowerHierarchies now operator (.hierarchy lv (delimiterOf dl))
            (.hierarchy rv (delimiterOf dl)) = .ok lowered ∧ e = negate lowered negated := by
  refine yields_of_step (fun fuel => ?_) fuel
  rw [hierarchyNode, hierarchyNode, predicateStep_hierarchies]
  refine (yields_hierarchy hl dl).bind fun l s₁ hlv => ?_
  obtain ⟨⟨hne, rfl⟩, rfl⟩ := hlv
  refine (yields_hierarchy hr dr).bind fun r s₂ hrv => ?_
  obtain ⟨⟨-, rfl⟩, rfl⟩ := hrv
  rw [builder_now]
  refine (Yields.lift (P := fun lowered => lowerHierarchies now operator
    (.hierarchy lv (delimiterOf dl)) (.hierarchy rv (delimiterOf dr)) = .ok lowered)
    fun lowered hlowered => hlowered).bind fun lowered s₃ hlowered => ?_
  have hsame := lowerHierarchies_delimiter now hlowered.1
  refine Yields.pure ⟨hsame, hne, lowered, ?_, rfl⟩
  rw [hsame] at hlowered ⊢
  exact hlowered.1

/-- Over texts, an operator over two hierarchies is lowered to CEL's exactly where each
text prefix that it reads ends at a delimiter. -/
theorem hierarchies_agree_iff {engine : Engine} {db : Database} {env : RowEnv}
    {operator : HierarchyOperator} {left right : Node} {lv rv : Val} {a d : String}
    {dl dr : Option String} {negated : Bool} {e : Expr} {s' : Nat}
    (hlike : StandardLike engine likeEscape) (hleft : TextLeaf m left lv)
    (hright : TextLeaf m right rv) (hl : HoldsText env lv a) (hr : HoldsText env rv d)
    (hrun : (builder opts now fuel).predicate
      (.expression operator.toPlan [hierarchyNode left dl, hierarchyNode right dr]) m negated s =
        .ok (e, s')) :
    e.truth engine db env =
        (Truth.ofBool (operator.test (splitDelimited a (delimiterOf dl))
          (splitDelimited d (delimiterOf dr)))).polarised negated ↔
      operator.separated (delimiterOf dl) left.isValue right.isValue a d := by
  obtain ⟨hsame, hne, lowered, hlowered, rfl⟩ := (yields_hierarchies hleft hright).of_run hrun
  have hvalue : ∀ {leaf : Node} {v : Val}, TextLeaf m leaf v → leaf.isValue = isConstant v := by
    intro leaf v h
    cases h <;> rfl
  rw [truth_negate, Truth.polarised_inj, ← hsame, hvalue hleft, hvalue hright]
  exact truth_lowerHierarchies_iff now hlike hne hl hr hlowered

end Translation

/-! A delimiter of two colons, which a third one hides. -/

def likeEngine : Engine :=
  { Engine.bare with
    like := fun receiver pattern =>
      match receiver, pattern with
      | .text receiver, .text pattern => .ofBool (likeMatches likeEscape pattern receiver)
      | _, _ => .unknown }

theorem likeEngine_standard : StandardLike likeEngine likeEscape :=
  ⟨fun _ => rfl, fun _ _ => rfl⟩

def pathEntry : Entry :=
  { nameEntry with column := "path", valueType := .string, nullConvention := .omitted }

def pathMapper (entry : Entry) : Mapper where
  resolve reference := if reference = "R.attr.path" then some entry else none

def pathRoot : Mapper :=
  rootMapper (guardedMapper (pathMapper pathEntry)) "documents"

def pathRow (path : SqlValue) : RowEnv := fun _ column =>
  if column = "path" then path else .null

def pathDescends (a : String) : Node :=
  .expression .ancestorOf [hierarchyNode (.value (.string a)) (some "::"),
    hierarchyNode (.var "R.attr.path") (some "::")]

/-- A row is selected whose segments the constant's are no beginning of. -/
theorem hiddenDelimiter_selected :
    ∃ e, build 4 0 (pathDescends "x:") (pathMapper pathEntry) tagsOptions = .ok e ∧
      e.truth likeEngine (fun _ => []) (pathRow (.text "x:::y")) = .yes ∧
        isStrictAncestor (splitDelimited "x:" "::") (splitDelimited "x:::y" "::") = false :=
  ⟨_, rfl, by decide, by decide⟩

theorem hierarchies_agree_iff_hidden :
    (Expr.like (.column (elementColumn "documents" pathEntry)) (.lit (.string "x:::%"))).truth
        likeEngine (fun _ => []) (pathRow (.text "x:::y")) =
      (Truth.ofBool (HierarchyOperator.ancestorOf.test (splitDelimited "x:" (delimiterOf (some "::")))
        (splitDelimited "x:::y" (delimiterOf (some "::"))))).polarised false ↔
    HierarchyOperator.ancestorOf.separated (delimiterOf (some "::")) true false "x:" "x:::y" :=
  @hierarchies_agree_iff pathRoot 0 _ tagsOptions 0 3 likeEngine (fun _ => [])
    (pathRow (.text "x:::y")) .ancestorOf (.value (.string "x:")) (.var "R.attr.path") _ _ "x:"
    "x:::y" (some "::") (some "::") false _ 0 likeEngine_standard (.constant "x:")
    (@TextLeaf.column pathRoot "R.attr.path" { pathEntry with qualifier := "documents" } rfl rfl)
    (.constant "x:") (.column rfl rfl) rfl

/-! ## Hierarchies that are errors -/

section Errors

variable {engine : Engine} {db : Database} {env : RowEnv} {c : Column}

/-- Whether a column has no hierarchy: its value is NULL, or its type no string. -/
def LacksHierarchy (c : Column) (x : SqlValue) : Prop :=
  x = .null ∨ c.type = .number ∨ c.type = .bool

variable {e : Expr}

theorem knownNonString_iff :
    knownNonString (.expr (.column c)) = true ↔ c.type = .number ∨ c.type = .bool := by
  rw [knownNonString, Val.scalarKind, Expr.scalarKind, Column.scalarKind]
  cases c.type <;> simp

theorem hierarchyOutcome_error {sending : Sending} {convention : NullConvention} {x : SqlValue}
    (hholds : c.type.holds x = true) (h : LacksHierarchy c x) (delimiter : String) :
    hierarchyOutcome delimiter (sending.outcome convention x) = .error := by
  have hvalue : hierarchyOutcome delimiter (.value (sending.value x)) = .error := by
    obtain rfl | h | h := h
    · rfl
    · cases x <;> simp [h, ValueType.holds] at hholds <;> rfl
    · cases x <;> simp [h, ValueType.holds] at hholds <;> rfl
  rw [Sending.outcome]
  split
  · rfl
  · exact hvalue

theorem properPrefixes_isEmpty (d delimiter : String) :
    (properPrefixes d delimiter).isEmpty = decide ((splitDelimited d delimiter).length ≤ 1) := by
  rw [properPrefixes, Bool.eq_iff_iff, List.isEmpty_iff, decide_eq_true_eq, List.map_eq_nil_iff,
    List.range'_eq_nil_iff]
  omega

theorem any_isNull_texts (texts : List String) :
    (texts.map (PlanValue.string : String → Literal)).any isNullLiteral = false := by
  rw [List.any_map, List.any_eq_false]
  intro s _
  exact Bool.false_ne_true

/-- A column as the ancestor: a NULL is looked up among the constant's beginnings, if there
are any, and any other value is none of them. -/
theorem truth_ancestor_error (h : LacksHierarchy c (env c.qualifier c.name)) {d delimiter : String}
    (he : ancestorOf (.hierarchy (.expr (.column c)) delimiter)
      (.hierarchy (.constant (.string d)) delimiter) = .ok e) :
    e.truth engine db env =
      if env c.qualifier c.name = .null ∧ c.explicitNull = false ∧
        1 < (splitDelimited d delimiter).length then .unknown else .no := by
  rw [ancestorOf_column_constant] at he
  obtain rfl := Except.ok.inj he
  cases hx : (env c.qualifier c.name).isNull with
  | true =>
      have hnull : env c.qualifier c.name = .null := by
        cases hv : env c.qualifier c.name <;> rw [hv] at hx <;> first | rfl | cases hx
      have heval : (Expr.column c).eval engine db env = .null := hnull
      have hexplicit : (explicitNullColumn (.column c)).isSome = c.explicitNull := by
        cases hc : c.explicitNull <;> simp [explicitNullColumn, hc]
      rw [truth_membership_null _ heval, any_isNull_texts, if_neg Bool.false_ne_true, hexplicit,
        List.isEmpty_map, properPrefixes_isEmpty]
      cases c.explicitNull with
      | true => simp
      | false =>
          by_cases hlength : (splitDelimited d delimiter).length ≤ 1
          · rw [if_pos (by simp [hlength]), if_neg (by omega)]
          · rw [if_neg (by simp [hlength]), if_pos ⟨hnull, rfl, by omega⟩]
  | false =>
      have hnull : env c.qualifier c.name ≠ .null := by
        intro hv
        rw [hv] at hx
        cases hx
      have hforeign : ((properPrefixes d delimiter).map (PlanValue.string : String → Literal)).filter
          (isComparableMember (Expr.column c).scalarKind) = [] := by
        rw [List.filter_eq_nil_iff]
        intro v hv
        obtain ⟨s, -, rfl⟩ := List.mem_map.mp hv
        obtain hnil | htype | htype := h
        · exact absurd hnil hnull
        · simp [isComparableMember, isForeignMember, Expr.scalarKind, Column.scalarKind,
            Val.scalarKind, htype]
        · simp [isComparableMember, isForeignMember, Expr.scalarKind, Column.scalarKind,
            Val.scalarKind, htype]
      rw [truth_membership_present _ (by exact hx), hforeign, if_neg (fun hcond => hnull hcond.1)]
      rfl

/-- A column as the descendant has no text to match. -/
theorem truth_descendant_error (hlike : StandardLike engine likeEscape)
    (h : LacksHierarchy c (env c.qualifier c.name)) {a delimiter : String}
    (he : ancestorOf (.hierarchy (.constant (.string a)) delimiter)
      (.hierarchy (.expr (.column c)) delimiter) = .ok e) :
    e.truth engine db env = .unknown := by
  rw [ancestorOf_constant_column] at he
  obtain rfl := Except.ok.inj he
  split
  · rfl
  next hstring =>
    have hnull : env c.qualifier c.name = .null := by
      rw [knownNonString_iff] at hstring
      exact h.resolve_right hstring
    show (SqlValue.ofTruth (engine.like (env c.qualifier c.name) _)).asTruth = _
    rw [SqlValue.asTruth_ofTruth, hnull, hlike.null_left]

theorem truth_equalTexts_ne_yes {equality : Expr}
    (h : equality.truth engine db env = .unknown) :
    (equalTexts c equality).truth engine db env ≠ .yes := by
  rw [equalTexts]
  split
  · simp [h]
  · simp [h]

theorem truth_whenPresent_ne_yes :
    (whenPresent (.boolConst false) (.expr (.column c))).truth engine db env ≠ .yes := by
  rw [whenPresent]
  split
  · simp
  · rw [Expr.truth_case_singleton]
    split <;> simp

/-- A disjunction of which no part holds and one is UNKNOWN. -/
theorem truth_or_unknown {parts : List Expr} (hnone : ∀ e ∈ parts, e.truth engine db env ≠ .yes)
    (hunknown : ∃ e ∈ parts, e.truth engine db env = .unknown) :
    (Expr.or parts).truth engine db env = .unknown := by
  rw [Expr.truth_combine, if_neg Bool.false_ne_true, Truth.any_eq_ite, if_neg, if_pos]
  · obtain ⟨e, he, htruth⟩ := hunknown
    exact List.mem_map.mpr ⟨e, he, htruth⟩
  · rintro hyes
    obtain ⟨e, he, htruth⟩ := List.mem_map.mp hyes
    exact hnone e he htruth

variable [Double.Rounding] {now : Int}

/-- A column without a hierarchy is no text that equals a constant. -/
theorem truth_compare_error (h : LacksHierarchy c (env c.qualifier c.name)) {s : String}
    (he : compare now .eq (.expr (.column c)) (.constant (.string s)) = .ok e ∨
      compare now .eq (.constant (.string s)) (.expr (.column c)) = .ok e) :
    e.truth engine db env ≠ .yes := by
  cases hstring : knownNonString (.expr (.column c)) with
  | true =>
      have hmixed : compare now .eq (.expr (.column c)) (.constant (.string s)) =
            .ok (whenPresent (.boolConst false) (.expr (.column c))) ∧
          compare now .eq (.constant (.string s)) (.expr (.column c)) =
            .ok (whenPresent (.boolConst false) (.expr (.column c))) := by
        have hleft : compare now .eq (.expr (.column c)) (.constant (.string s)) =
            comparePlain .eq (.expr (.column c)) (.constant (.string s)) := rfl
        have hright : compare now .eq (.constant (.string s)) (.expr (.column c)) =
            comparePlain .eq (.constant (.string s)) (.expr (.column c)) := rfl
        rw [hleft, hright]
        obtain htype | htype := knownNonString_iff.mp hstring <;> cases hnull : c.explicitNull <;>
          simp [comparePlain, compareMixedTypes, Val.scalarKind, Expr.scalarKind,
            Column.scalarKind, htype, whenPresent, explicitNullColumn, hnull, mixedTypeEquality,
            Val.explicitNullColumn, ComparisonOperator.isOrdering]
      have hlowered : e = whenPresent (.boolConst false) (.expr (.column c)) := by
        obtain he | he := he
        · exact Except.ok.inj (he.symm.trans hmixed.1)
        · exact Except.ok.inj (he.symm.trans hmixed.2)
      rw [hlowered]
      exact truth_whenPresent_ne_yes
  | false =>
      have hnull : env c.qualifier c.name = .null := by
        apply h.resolve_right
        rw [← knownNonString_iff, hstring]
        exact Bool.false_ne_true
      rw [(compare_texts now hstring _).1, (compare_texts now hstring _).2] at he
      obtain he | he := he
      · obtain rfl := Except.ok.inj he
        apply truth_equalTexts_ne_yes
        rw [Expr.truth_cmp, Expr.eval_column, hnull, Engine.compare_null_left]
      · obtain rfl := Except.ok.inj he
        apply truth_equalTexts_ne_yes
        rw [Expr.truth_cmp, Expr.eval_column, hnull, Engine.compare_null_right]

/-- Where the column of an operator stands as the ancestor. -/
def HierarchyOperator.columnIsAncestor : HierarchyOperator → (columnFirst : Bool) → Bool
  | ancestorOf, columnFirst => columnFirst
  | descendentOf, columnFirst => !columnFirst
  | overlaps, _ => false

/-- An overlap has no text that equals the constant or that begins it. -/
theorem truth_overlaps_error {delimiter text : String} {eq l r : Expr}
    (hlike : StandardLike engine likeEscape) (h : LacksHierarchy c (env c.qualifier c.name))
    (heq : compare now .eq (.expr (.column c)) (.constant (.string text)) = .ok eq ∨
      compare now .eq (.constant (.string text)) (.expr (.column c)) = .ok eq)
    (hl : ancestorOf (.hierarchy (.expr (.column c)) delimiter)
      (.hierarchy (.constant (.string text)) delimiter) = .ok l)
    (hr : ancestorOf (.hierarchy (.constant (.string text)) delimiter)
      (.hierarchy (.expr (.column c)) delimiter) = .ok r)
    {parts : List Expr} (hparts : parts.Perm [eq, l, r]) :
    (Expr.or parts).truth engine db env = .unknown := by
  have hleft : l.truth engine db env ≠ .yes := by
    rw [truth_ancestor_error h hl]
    split <;> nofun
  have hright : r.truth engine db env = .unknown := truth_descendant_error hlike h hr
  apply truth_or_unknown
  · intro e he
    obtain rfl | rfl | rfl : e = eq ∨ e = l ∨ e = r := by simpa using hparts.mem_iff.mp he
    · exact truth_compare_error h heq
    · exact hleft
    · rw [hright]
      nofun
  · exact ⟨r, hparts.mem_iff.mpr (by simp), hright⟩

/-- A column without a hierarchy leaves an operator UNKNOWN, save as an ancestor that is
looked up among the beginnings of a constant. -/
theorem truth_lowerHierarchies_error {operator : HierarchyOperator} {columnFirst : Bool}
    {delimiter text : String} {e : Expr} (hlike : StandardLike engine likeEscape)
    (h : LacksHierarchy c (env c.qualifier c.name))
    (he : (if columnFirst then
        lowerHierarchies now operator (.hierarchy (.expr (.column c)) delimiter)
          (.hierarchy (.constant (.string text)) delimiter)
      else lowerHierarchies now operator (.hierarchy (.constant (.string text)) delimiter)
        (.hierarchy (.expr (.column c)) delimiter)) = .ok e) :
    e.truth engine db env = .unknown ↔
      (operator.columnIsAncestor columnFirst = true →
        env c.qualifier c.name = .null ∧ c.explicitNull = false ∧
          1 < (splitDelimited text delimiter).length) := by
  have hancestor : ancestorOf (.hierarchy (.expr (.column c)) delimiter)
      (.hierarchy (.constant (.string text)) delimiter) = .ok e →
        (e.truth engine db env = .unknown ↔ (true = true →
          env c.qualifier c.name = .null ∧ c.explicitNull = false ∧
            1 < (splitDelimited text delimiter).length)) := by
    intro he
    rw [truth_ancestor_error h he]
    split
    next hcond => exact iff_of_true rfl fun _ => hcond
    next hcond => exact iff_of_false nofun fun hall => hcond (hall rfl)
  cases operator with
  | ancestorOf =>
      cases columnFirst with
      | true => exact hancestor he
      | false => exact iff_of_true (truth_descendant_error hlike h he) nofun
  | descendentOf =>
      cases columnFirst with
      | true => exact iff_of_true (truth_descendant_error hlike h he) nofun
      | false => exact hancestor he
  | overlaps =>
      refine iff_of_true ?_ nofun
      cases columnFirst with
      | true =>
          obtain ⟨eq, l, r, heq, hl, hr, rfl⟩ := hierarchyOverlaps_parts now he
          exact truth_overlaps_error hlike h (.inl heq) hl hr (List.Perm.refl _)
      | false =>
          obtain ⟨eq, l, r, heq, hl, hr, rfl⟩ := hierarchyOverlaps_parts now he
          exact truth_overlaps_error hlike h (.inr heq) hr hl
            (List.Perm.cons eq (List.Perm.swap ..))

/-- Where CEL has no hierarchy of a column, an operator over it and a constant is UNKNOWN
exactly where the column is no ancestor, or a NULL that the constant has beginnings for. -/
theorem hierarchyError_iff {opts : Options} {fuel : Nat} {m : Mapper} {reference : String}
    {entry : Entry} {operator : HierarchyOperator} {columnFirst : Bool} {dl dr : Option String}
    {text : String} {negated : Bool} {s s' : Nat} {e : Expr} {spell : Int → String}
    (hlike : StandardLike engine likeEscape) (hentry : m.resolve reference = some entry)
    (hcolumn : entry.isColumn = true)
    (hholds : entry.valueType.holds (env entry.qualifier entry.column) = true)
    (hlacks : env entry.qualifier entry.column = .null ∨ entry.valueType = .number ∨
      entry.valueType = .bool)
    (hrun : (builder opts now fuel).predicate
      (.expression operator.toPlan
        (if columnFirst then
          [hierarchyNode (.var reference) dl, hierarchyNode (.value (.string text)) dr]
        else [hierarchyNode (.value (.string text)) dr, hierarchyNode (.var reference) dl]))
      m negated s = .ok (e, s')) :
    hierarchyOutcome (delimiterOf dl)
        (Sending.read ⟨opts.nullRepresentation, spell⟩ engine db
          { entry := entry, row := env entry.qualifier }) = .error ∧
      (e.truth engine db env = .unknown ↔
        (operator.columnIsAncestor columnFirst = true →
          env entry.qualifier entry.column = .null ∧ entry.nullConvention ≠ .explicit ∧
            1 < (splitDelimited text (delimiterOf dr)).length)) := by
  have hlacks : LacksHierarchy (elementColumn entry.qualifier entry)
      (env entry.qualifier entry.column) := hlacks
  have hread : Sending.read ⟨opts.nullRepresentation, spell⟩ engine db
      { entry := entry, row := env entry.qualifier } =
        Sending.outcome ⟨opts.nullRepresentation, spell⟩ entry.nullConvention
          (env entry.qualifier entry.column) := by
    obtain ⟨-, hscalar⟩ := Entry.isColumn_iff.mp hcolumn
    rw [Sending.read, Sending.stored, hscalar]
    rfl
  have hexplicit : (elementColumn entry.qualifier entry).explicitNull = false ↔
      entry.nullConvention ≠ .explicit := decide_eq_false_iff_not
  have hleaf := TextLeaf.column hentry hcolumn
  constructor
  · rw [hread]
    exact hierarchyOutcome_error hholds hlacks (delimiterOf dl)
  · rw [← hexplicit]
    cases columnFirst with
    | true =>
        obtain ⟨hsame, -, lowered, hlowered, rfl⟩ :=
          (yields_hierarchies hleaf (.constant text)).of_run hrun
        rw [truth_negate, Truth.polarised_eq_unknown_iff, ← hsame]
        exact @truth_lowerHierarchies_error engine db env _ _ now operator true _ _ _ hlike hlacks
          hlowered
    | false =>
        obtain ⟨hsame, -, lowered, hlowered, rfl⟩ :=
          (yields_hierarchies (.constant text) hleaf).of_run hrun
        rw [truth_negate, Truth.polarised_eq_unknown_iff]
        exact @truth_lowerHierarchies_error engine db env _ _ now operator false _ _ _ hlike hlacks
          hlowered

end Errors

/-! A column of numbers, which has no hierarchy. -/

def numberedEntry : Entry :=
  { pathEntry with valueType := .number }

def pathAncestor : Node :=
  .expression .ancestorOf [hierarchyNode (.var "R.attr.path") none,
    hierarchyNode (.value (.string "a.b")) none]

def numberedAncestor : Expr :=
  loweredMembership (.column (elementColumn "documents" numberedEntry)) [.string "a"]

/-- The negation of the operator selects the row, on which CEL has an error. -/
theorem notAncestor_selected :
    build 5 0 (.expression .not [pathAncestor]) (pathMapper numberedEntry) tagsOptions =
        .ok (negate numberedAncestor true) ∧
      (negate numberedAncestor true).truth likeEngine (fun _ => []) (pathRow (.number 5)) = .yes ∧
        hierarchyOutcome "." (.value (.number 5)) = .error :=
  ⟨rfl, rfl, rfl⟩

theorem hierarchyError_iff_numbered :
    hierarchyOutcome (delimiterOf none)
        (Sending.read ⟨.explicit, fun _ => ""⟩ likeEngine (fun _ => [])
          { entry := { numberedEntry with qualifier := "documents" }
            row := pathRow (.number 5) "documents" }) = .error ∧
      (numberedAncestor.truth likeEngine (fun _ => []) (pathRow (.number 5)) = .unknown ↔
        (HierarchyOperator.ancestorOf.columnIsAncestor true = true →
          pathRow (.number 5) "documents" "path" = .null ∧ NullConvention.omitted ≠ .explicit ∧
            1 < (splitDelimited "a.b" (delimiterOf none)).length)) :=
  @hierarchyError_iff likeEngine (fun _ => []) (pathRow (.number 5)) _ 0 tagsOptions 3
    (rootMapper (guardedMapper (pathMapper numberedEntry)) "documents") "R.attr.path"
    { numberedEntry with qualifier := "documents" } .ancestorOf true none none "a.b" false 0 0 _
    (fun _ => "") likeEngine_standard rfl rfl rfl (.inr (.inl rfl)) rfl

end QueryPlanAdapters.Go
