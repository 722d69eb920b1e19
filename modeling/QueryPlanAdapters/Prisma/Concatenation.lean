import QueryPlanAdapters.Prisma.FieldReferences
import QueryPlanAdapters.Go.Meaning
import QueryPlanAdapters.Sql.Like
import Mathlib.Data.List.Range

/-!
# Prisma: splitting a concatenation

An equality of concatenated string columns with a literal is rewritten to one arm for
each way of splitting the literal into consecutive pieces, one for each column. The
enumeration walks the terms with an offset into the literal and stops at a bound on the
arms. A further arm for each column is undecided where the column is NULL.
-/

namespace QueryPlanAdapters.Prisma

open Sql

/-! ## The rewrite -/

inductive ConcatenationTerm where
  | column (name : String)
  | literal (text : String)
  deriving DecidableEq

namespace ConcatenationTerm

def columnName? : ConcatenationTerm → Option String
  | column name => some name
  | literal _ => none

end ConcatenationTerm

/-- The terms of a nested `add` of string columns and string literals, left to right. -/
def concatenationTerms : Node → Option (List ConcatenationTerm)
  | .var name => some [.column name]
  | .value (.string text) => some [.literal text]
  | .expression .add [left, right] => do
      return (← concatenationTerms left) ++ (← concatenationTerms right)
  | _ => none
termination_by structural expr => expr

/-- Past this many code points, a literal is not split across a concatenation of columns. -/
def maxConcatenationSplits : Nat := 256

/-- Past this many ways to split the literal, the concatenation is left to the translator. -/
def maxConcatenationArms : Nat := 256

/-- `column == "piece"` -/
def pieceEquality (name : String) (piece : List Char) : Node :=
  .expression .eq [.var name, .value (.string (String.ofList piece))]

/-- `!startsWith(column, "")` -/
def absence (name : String) : Node :=
  .expression .not [.expression .startsWith [.var name, .value (.string "")]]

/-- The pieces of one way to split the literal. -/
def splitArm : List Node → Node
  | [piece] => piece
  | pieces => .expression .and pieces

/-- Where the piece of a column may stop: the last takes the rest. -/
def pieceStops (isLast : Bool) (offset total : Nat) : List Nat :=
  let start := if isLast then total else offset
  List.range' start (total + 1 - start)

/-- The arms found before, and those of every way to give the terms the code points from an
offset on; nothing as soon as there are too many. -/
def split (codePoints : List Char) : List ConcatenationTerm → (offset : Nat) →
    (pieces arms : List Node) → Option (List Node)
  | [], offset, pieces, arms =>
      if offset ≠ codePoints.length then some arms
      else if (arms ++ [splitArm pieces]).length ≤ maxConcatenationArms then
        some (arms ++ [splitArm pieces])
      else none
  | .literal text :: terms, offset, pieces, arms =>
      if text.toList.zipIdx.all fun (point, i) => codePoints[offset + i]? = some point then
        split codePoints terms (offset + text.toList.length) pieces arms
      else some arms
  | .column name :: terms, offset, pieces, arms =>
      (pieceStops terms.isEmpty offset codePoints.length).foldlM (fun arms stop =>
        let piece := (codePoints.drop offset).take (stop - offset)
        split codePoints terms stop (pieces ++ [pieceEquality name piece]) arms) arms

/-- Whether every reference is a string column of the current record. -/
def areStringColumns (context : TranslationContext) : List String → Reading Bool
  | [] => pure true
  | name :: names => do
      let fieldRef ← resolveFieldReference name context
      if fieldRef.valueType = some .string && (fieldRef.relations.getD []).isEmpty then
        areStringColumns context names
      else return false

/-- The terms of a concatenation and the literal it is compared with. -/
def concatenationEquality (operator : PlanOperator) (operands : List Node) :
    Option (List ConcatenationTerm × String) :=
  match operator, operands with
  | .eq, [first, second] | .ne, [first, second] =>
      match if first.isExpression then (first, second) else (second, first) with
      | (.expression .add terms, .value (.string literal)) =>
          (concatenationTerms (.expression .add terms)).map (·, literal)
      | _ => none
  | _, _ => none

/-- The arms of a concatenation, in one disjunction. -/
def splitConcatenation (operator : PlanOperator) (terms : List ConcatenationTerm)
    (literal : String) : Option Node := do
  if literal.toList.length > maxConcatenationSplits then none
  else
    let arms ← split literal.toList terms 0 [] []
    let equality := .expression .or (arms ++ (terms.filterMap (·.columnName?)).map absence)
    return if operator = .eq then equality else .expression .not [equality]

/-- `a + "sep" + b == "lit"`, over at least two string columns. -/
def rewriteConcatenation (operator : PlanOperator) (operands : List Node)
    (context : TranslationContext) : Reading (Option Node) :=
  match concatenationEquality operator operands with
  | none => pure none
  | some (terms, literal) => do
      let columns := terms.filterMap (·.columnName?)
      if columns.length < 2 then return none
      else if ← areStringColumns context columns then
        return splitConcatenation operator terms literal
      else return none

/-! ## The enumeration -/

/-- A list, unless it is longer than a bound. -/
def bounded {α : Type} (limit : Nat) (items : List α) : Option (List α) :=
  if items.length ≤ limit then some items else none

variable {offset : Nat}

theorem bounded_of_le {α : Type} {limit : Nat} {items : List α} (h : items.length ≤ limit) :
    bounded limit items = some items :=
  if_pos h

/-- A loop that appends to a bounded list appends everything, or stops. -/
theorem foldlM_bounded {α β : Type} {limit : Nat} {step : List α → β → Option (List α)}
    {found : β → List α} {bs : List β}
    (hstep : ∀ b ∈ bs, ∀ items, items.length ≤ limit →
      step items b = bounded limit (items ++ found b))
    {items : List α} (hitems : items.length ≤ limit) :
    bs.foldlM step items = bounded limit (items ++ bs.flatMap found) := by
  induction bs generalizing items with
  | nil =>
      rw [List.flatMap_nil, List.append_nil, bounded_of_le hitems]
      rfl
  | cons b bs ih =>
      rw [List.foldlM_cons, hstep b List.mem_cons_self items hitems, List.flatMap_cons,
        ← List.append_assoc]
      by_cases h : (items ++ found b).length ≤ limit
      · rw [bounded_of_le h]
        exact ih (fun b hb => hstep b (List.mem_cons_of_mem _ hb)) h
      · have hmore : ¬ (items ++ found b ++ bs.flatMap found).length ≤ limit := by
          rw [List.length_append]
          omega
        rw [bounded, bounded, if_neg h, if_neg hmore]
        rfl

theorem mem_pieceStops {isLast : Bool} {total stop : Nat} :
    stop ∈ pieceStops isLast offset total ↔
      (if isLast then total else offset) ≤ stop ∧ stop ≤ total := by
  rw [pieceStops, List.mem_range'_1]
  omega

theorem pieceStops_eq_map {isLast : Bool} {total : Nat} (h : offset ≤ total) :
    pieceStops isLast offset total =
      (pieceStops isLast 0 (total - offset)).map (offset + ·) := by
  rw [pieceStops, pieceStops, List.map_add_range']
  cases isLast with
  | true =>
      congr 1
      · exact (Nat.add_sub_of_le h).symm
      · simp
  | false =>
      congr 1
      simp only [Bool.false_eq_true, if_false]
      omega

/-- Every way of giving the terms the code points, as the equalities of its pieces. -/
def splits : List ConcatenationTerm → List Char → List (List Node)
  | [], codePoints => if codePoints.isEmpty then [[]] else []
  | .literal text :: terms, codePoints =>
      if text.toList.isPrefixOf codePoints then splits terms (codePoints.drop text.toList.length)
      else []
  | .column name :: terms, codePoints =>
      (pieceStops terms.isEmpty 0 codePoints.length).flatMap fun stop =>
        (splits terms (codePoints.drop stop)).map (pieceEquality name (codePoints.take stop) :: ·)

/-- A text stands at an offset when it begins what follows the offset. -/
theorem all_getElem?_iff_isPrefixOf (codePoints text : List Char) (offset : Nat) :
    (text.zipIdx.all fun (point, i) => codePoints[offset + i]? = some point) =
      text.isPrefixOf (codePoints.drop offset) := by
  rw [Bool.eq_iff_iff, List.isPrefixOf_iff_prefix, List.prefix_iff_getElem?, List.all_eq_true]
  constructor
  · intro h i hi
    have hpoint := h (text[i], i) (List.mk_mem_zipIdx_iff_getElem?.mpr (List.getElem?_eq_getElem hi))
    rw [List.getElem?_drop]
    exact of_decide_eq_true hpoint
  · rintro h ⟨point, i⟩ hmem
    have hpoint := List.mk_mem_zipIdx_iff_getElem?.mp hmem
    obtain ⟨hi, rfl⟩ := List.getElem?_eq_some_iff.mp hpoint
    rw [decide_eq_true_eq, ← List.getElem?_drop]
    exact h i hi

/-- The walk finds every way to split what follows the offset, unless there are too many. -/
theorem split_eq (codePoints : List Char) (terms : List ConcatenationTerm)
    (pieces : List Node) {arms : List Node} (hoffset : offset ≤ codePoints.length)
    (harms : arms.length ≤ maxConcatenationArms) :
    split codePoints terms offset pieces arms =
      bounded maxConcatenationArms (arms ++ (splits terms (codePoints.drop offset)).map fun found =>
        splitArm (pieces ++ found)) := by
  induction terms generalizing offset pieces arms with
  | nil =>
      rw [split, splits]
      by_cases h : offset = codePoints.length
      · simp [h, bounded]
      · have hrest : (codePoints.drop offset).isEmpty = false := by
          simp only [List.isEmpty_eq_false_iff, ne_eq, List.drop_eq_nil_iff]
          omega
        rw [if_pos h, hrest]
        simpa using (bounded_of_le harms).symm
  | cons term terms ih =>
      cases term with
      | literal text =>
          rw [split, splits, all_getElem?_iff_isPrefixOf]
          split
          next hstart =>
            have hlength := (List.isPrefixOf_iff_prefix.mp hstart).length_le
            rw [List.length_drop] at hlength
            rw [ih pieces (by omega) harms, List.drop_drop]
          next => simpa using (bounded_of_le harms).symm
      | column name =>
          rw [split, splits, List.length_drop, pieceStops_eq_map hoffset]
          have hstep : ∀ stop ∈ (pieceStops terms.isEmpty 0 (codePoints.length - offset)).map
                (offset + ·), ∀ items : List Node, items.length ≤ maxConcatenationArms →
              split codePoints terms stop
                (pieces ++ [pieceEquality name ((codePoints.drop offset).take (stop - offset))])
                items =
              bounded maxConcatenationArms (items ++
                (splits terms (codePoints.drop stop)).map fun found =>
                  splitArm (pieces ++ [pieceEquality name
                    ((codePoints.drop offset).take (stop - offset))] ++ found)) := by
            intro stop hstop items hitems
            obtain ⟨length, hlength, rfl⟩ := List.mem_map.mp hstop
            have hle := (mem_pieceStops.mp hlength).2
            exact ih _ (by omega) hitems
          rw [foldlM_bounded hstep harms]
          simp [List.flatMap_map, List.map_flatMap, Function.comp_def]

/-- The arms of a concatenation: the ways to split the literal, and the columns. -/
def concatenationArms (terms : List ConcatenationTerm) (codePoints : List Char) : List Node :=
  (splits terms codePoints).map splitArm ++ (terms.filterMap (·.columnName?)).map absence

/-- What a rewritten comparison is. -/
theorem splitConcatenation_eq_some {operator : PlanOperator} {terms : List ConcatenationTerm}
    {literal : String} {rewritten : Node}
    (h : splitConcatenation operator terms literal = some rewritten) :
    rewritten =
      if operator = .eq then .expression .or (concatenationArms terms literal.toList)
      else .expression .not [.expression .or (concatenationArms terms literal.toList)] := by
  rw [splitConcatenation] at h
  split at h
  · cases h
  · rw [split_eq literal.toList terms [] (Nat.zero_le _) (Nat.zero_le _)] at h
    obtain ⟨arms, harms, hrewritten⟩ := Option.bind_eq_some_iff.mp h
    rw [bounded] at harms
    split at harms
    · obtain rfl := Option.some_inj.mp harms
      exact (Option.some_inj.mp hrewritten).symm
    · cases harms

/-- The literal is split exactly within the two bounds. -/
theorem splitConcatenation_isSome (operator : PlanOperator) {terms : List ConcatenationTerm}
    {literal : String} (hlength : literal.toList.length ≤ maxConcatenationSplits)
    (harms : (splits terms literal.toList).length ≤ maxConcatenationArms) :
    (splitConcatenation operator terms literal).isSome = true := by
  have hbounded : ((splits terms literal.toList).map splitArm).length ≤ maxConcatenationArms := by
    rwa [List.length_map]
  rw [splitConcatenation, if_neg (Nat.not_lt.mpr hlength),
    split_eq literal.toList terms [] (Nat.zero_le _) (Nat.zero_le _)]
  simp only [List.nil_append, List.drop_zero, bounded_of_le hbounded]
  rfl

/-! ## What the arms say -/

/-- The concatenation of the terms, nothing as soon as a column has no text. -/
def concatenation (text? : String → Option String) : List ConcatenationTerm → Option (List Char)
  | [] => some []
  | .literal text :: terms => (concatenation text? terms).map (text.toList ++ ·)
  | .column name :: terms => do
      let text ← text? name
      (concatenation text? terms).map (text.toList ++ ·)

/-- Whether the concatenation is the literal, undecided when a column has no text. -/
def concatenationIs (text? : String → Option String) (terms : List ConcatenationTerm)
    (literal : String) : Truth :=
  match concatenation text? terms with
  | some whole => .ofBool (whole = literal.toList)
  | none => .unknown

/-- A reading of conditions whose connectives are Kleene's. -/
structure KleeneReading (truth : Node → Truth) : Prop where
  and (operands : List Node) :
    truth (.expression .and operands) = Truth.all (operands.map truth)
  or (operands : List Node) :
    truth (.expression .or operands) = Truth.any (operands.map truth)
  not (operand : Node) : truth (.expression .not [operand]) = (truth operand).not

/-- How the leaves of a split read a column. One that has no text may be unequal to a piece, or
undecided. -/
structure ReadsTextColumn (truth : Node → Truth) (text? : String → Option String) (name : String) :
    Prop where
  piece_some {text : String} (h : text? name = some text) (piece : List Char) :
    truth (pieceEquality name piece) = .ofBool (text.toList = piece)
  piece_none (h : text? name = none) (piece : List Char) :
    truth (pieceEquality name piece) ≠ .yes
  start : truth (.expression .startsWith [.var name, .value (.string "")]) =
    if (text? name).isSome then .yes else .unknown

section Readings

variable {truth : Node → Truth} {text? : String → Option String}
  {terms : List ConcatenationTerm} {codePoints : List Char}

variable {whole : List Char}

theorem KleeneReading.splitArm (h : KleeneReading truth) (pieces : List Node) :
    truth (splitArm pieces) = Truth.all (pieces.map truth) := by
  rcases pieces with _ | ⟨piece, _ | ⟨second, pieces⟩⟩
  · exact h.and []
  · exact (Truth.and_yes _).symm
  · exact h.and (piece :: second :: pieces)

/-- Where the stops are, a cut of the code points is a text with what follows it. -/
theorem exists_stop_iff {text : List Char} (hlast : terms = [] → whole = []) :
    (∃ stop ∈ pieceStops terms.isEmpty 0 codePoints.length,
        text = codePoints.take stop ∧ whole = codePoints.drop stop) ↔
      text ++ whole = codePoints := by
  constructor
  · rintro ⟨stop, -, rfl, rfl⟩
    exact List.take_append_drop stop codePoints
  · rintro rfl
    refine ⟨text.length, mem_pieceStops.mpr ⟨?_, by simp⟩, by simp, by simp⟩
    cases terms with
    | nil => simp [hlast rfl]
    | cons term terms => simp

/-- With every text present, an arm is TRUE exactly when the texts make up the literal. -/
theorem exists_split_iff
    (hreads : ∀ name ∈ terms.filterMap (·.columnName?), ReadsTextColumn truth text? name) (hwhole : concatenation text? terms = some whole) :
    (∃ found ∈ splits terms codePoints, ∀ piece ∈ found, truth piece = .yes) ↔
      whole = codePoints := by
  induction terms generalizing codePoints whole with
  | nil =>
      obtain rfl := Option.some_inj.mp hwhole
      cases codePoints <;> simp [splits]
  | cons term terms ih =>
      cases term with
      | literal text =>
          obtain ⟨rest, hrest, rfl⟩ := Option.map_eq_some_iff.mp hwhole
          rw [splits]
          split
          next hstart =>
            obtain ⟨after, rfl⟩ := List.isPrefixOf_iff_prefix.mp hstart
            rw [List.drop_left, ih hreads hrest, List.append_cancel_left_eq]
          next hstart =>
            refine iff_of_false (by simp) ?_
            rintro rfl
            exact hstart (List.isPrefixOf_iff_prefix.mpr (List.prefix_append ..))
      | column name =>
          obtain ⟨text, htext, hmap⟩ := Option.bind_eq_some_iff.mp hwhole
          obtain ⟨rest, hrest, rfl⟩ := Option.map_eq_some_iff.mp hmap
          have hname : ReadsTextColumn truth text? name := hreads name List.mem_cons_self
          have htail : ∀ stop, (∃ found ∈ splits terms (codePoints.drop stop),
              ∀ piece ∈ found, truth piece = .yes) ↔ rest = codePoints.drop stop := fun stop =>
            ih (fun other hother => hreads other (List.mem_cons_of_mem _ hother)) hrest
          have hlast : terms = [] → rest = [] := by
            rintro rfl
            exact (Option.some_inj.mp hrest).symm
          rw [← exists_stop_iff hlast, splits]
          constructor
          · rintro ⟨found, hfound, htrue⟩
            obtain ⟨stop, hstop, hfound⟩ := List.mem_flatMap.mp hfound
            obtain ⟨after, hafter, rfl⟩ := List.mem_map.mp hfound
            obtain ⟨hpiece, htrue⟩ := List.forall_mem_cons.mp htrue
            rw [hname.piece_some htext, Truth.ofBool_eq_yes_iff, decide_eq_true_eq] at hpiece
            exact ⟨stop, hstop, hpiece, (htail _).mp ⟨after, hafter, htrue⟩⟩
          · rintro ⟨stop, hstop, hpiece, hdrop⟩
            obtain ⟨after, hafter, htrue⟩ := (htail _).mpr hdrop
            refine ⟨_, List.mem_flatMap.mpr ⟨stop, hstop, List.mem_map_of_mem hafter⟩,
              List.forall_mem_cons.mpr ⟨?_, htrue⟩⟩
            rw [hname.piece_some htext, Truth.ofBool_eq_yes_iff, decide_eq_true_eq]
            exact hpiece

/-- With every text present, no piece is undecided. -/
theorem piece_ne_unknown
    (hreads : ∀ name ∈ terms.filterMap (·.columnName?), ReadsTextColumn truth text? name) (hwhole : concatenation text? terms = some whole) {found : List Node}
    (hfound : found ∈ splits terms codePoints) : ∀ piece ∈ found, truth piece ≠ .unknown := by
  induction terms generalizing codePoints whole found with
  | nil =>
      cases codePoints <;> simp_all [splits]
  | cons term terms ih =>
      cases term with
      | literal text =>
          obtain ⟨rest, hrest, -⟩ := Option.map_eq_some_iff.mp hwhole
          rw [splits] at hfound
          split at hfound
          · exact ih hreads hrest hfound
          · cases hfound
      | column name =>
          obtain ⟨text, htext, hmap⟩ := Option.bind_eq_some_iff.mp hwhole
          obtain ⟨rest, hrest, -⟩ := Option.map_eq_some_iff.mp hmap
          obtain ⟨stop, -, hfound⟩ := List.mem_flatMap.mp hfound
          obtain ⟨after, hafter, rfl⟩ := List.mem_map.mp hfound
          rw [List.forall_mem_cons]
          constructor
          · rw [(hreads name List.mem_cons_self).piece_some htext]
            exact Truth.ofBool_ne_unknown _
          · exact ih (fun other hother => hreads other (List.mem_cons_of_mem _ hother)) hrest hafter

/-- Every column of the terms has a piece in each arm. -/
theorem exists_piece_of_column {name : String}
    (hname : name ∈ terms.filterMap (·.columnName?)) {found : List Node}
    (hfound : found ∈ splits terms codePoints) : ∃ piece, pieceEquality name piece ∈ found := by
  induction terms generalizing codePoints found with
  | nil => cases hname
  | cons term terms ih =>
      cases term with
      | literal text =>
          rw [splits] at hfound
          split at hfound
          · exact ih hname hfound
          · cases hfound
      | column other =>
          obtain ⟨stop, -, hfound⟩ := List.mem_flatMap.mp hfound
          obtain ⟨after, hafter, rfl⟩ := List.mem_map.mp hfound
          rcases List.mem_cons.mp hname with rfl | hname
          · exact ⟨_, List.mem_cons_self⟩
          · obtain ⟨piece, hpiece⟩ := ih hname hafter
            exact ⟨piece, List.mem_cons_of_mem _ hpiece⟩

theorem concatenation_eq_none_iff :
    concatenation text? terms = none ↔
      ∃ name ∈ terms.filterMap (·.columnName?), text? name = none := by
  induction terms with
  | nil => simp [concatenation]
  | cons term terms ih =>
      cases term with
      | literal text =>
          rw [concatenation, Option.map_eq_none_iff, ih]
          rfl
      | column name =>
          have hcolumns : (ConcatenationTerm.column name :: terms).filterMap (·.columnName?) =
              name :: terms.filterMap (·.columnName?) := rfl
          rw [hcolumns, List.exists_mem_cons_iff, ← ih, concatenation]
          cases text? name <;> simp

variable (hkleene : KleeneReading truth)
include hkleene

/-- On a record that lacks a text, a column's own arm is undecided; on one that has it, FALSE. -/
theorem truth_absence {name : String}
    (hname : ReadsTextColumn truth text? name) :
    truth (absence name) = if (text? name).isSome then .no else .unknown := by
  rw [absence, hkleene.not, hname.start]
  split <;> rfl

theorem yes_mem_arms_iff
    (hreads : ∀ name ∈ terms.filterMap (·.columnName?), ReadsTextColumn truth text? name) :
    Truth.yes ∈ (concatenationArms terms codePoints).map truth ↔
      ∃ found ∈ splits terms codePoints, ∀ piece ∈ found, truth piece = .yes := by
  constructor
  · intro h
    obtain ⟨arm, harm, hyes⟩ := List.mem_map.mp h
    rcases List.mem_append.mp harm with harm | harm
    · obtain ⟨found, hfound, rfl⟩ := List.mem_map.mp harm
      rw [hkleene.splitArm, Truth.all_eq_yes_iff, List.forall_mem_map] at hyes
      exact ⟨found, hfound, hyes⟩
    · obtain ⟨name, hname, rfl⟩ := List.mem_map.mp harm
      rw [truth_absence hkleene (hreads name hname)] at hyes
      split at hyes <;> cases hyes
  · rintro ⟨found, hfound, hpieces⟩
    apply List.mem_map.mpr
    refine ⟨splitArm found, List.mem_append_left _ (List.mem_map_of_mem hfound), ?_⟩
    rwa [hkleene.splitArm, Truth.all_eq_yes_iff, List.forall_mem_map]

/-- On a record on which every column has a text, every arm is decided. -/
theorem unknown_notMem_arms
    (hreads : ∀ name ∈ terms.filterMap (·.columnName?), ReadsTextColumn truth text? name) (hwhole : concatenation text? terms = some whole) :
    Truth.unknown ∉ (concatenationArms terms codePoints).map truth := by
  intro h
  obtain ⟨arm, harm, hunknown⟩ := List.mem_map.mp h
  rcases List.mem_append.mp harm with harm | harm
  · obtain ⟨found, hfound, rfl⟩ := List.mem_map.mp harm
    have hpieces : Truth.unknown ∉ found.map truth := by
      intro h
      obtain ⟨piece, hpiece, hunknown⟩ := List.mem_map.mp h
      exact piece_ne_unknown hreads hwhole hfound piece hpiece hunknown
    rw [hkleene.splitArm, Truth.all_eq_ite, if_neg hpieces] at hunknown
    split at hunknown <;> cases hunknown
  · obtain ⟨name, hname, rfl⟩ := List.mem_map.mp harm
    have hpresent : (text? name).isSome = true := by
      rw [Option.isSome_iff_ne_none]
      intro hnone
      rw [concatenation_eq_none_iff.mpr ⟨name, hname, hnone⟩] at hwhole
      cases hwhole
    rw [truth_absence hkleene (hreads name hname), if_pos hpresent] at hunknown
    cases hunknown

/-- The arms decide a record on which every column has a text, and no other. -/
theorem any_arms
    (hreads : ∀ name ∈ terms.filterMap (·.columnName?), ReadsTextColumn truth text? name)
    (literal : String) :
    Truth.any ((concatenationArms terms literal.toList).map truth) =
      concatenationIs text? terms literal := by
  have hyes : Truth.yes ∈ (concatenationArms terms literal.toList).map truth ↔
      ∃ found ∈ splits terms literal.toList, ∀ piece ∈ found, truth piece = .yes :=
    yes_mem_arms_iff hkleene hreads
  rw [Truth.any_eq_ite, concatenationIs]
  cases hwhole : concatenation text? terms with
  | some whole =>
      rw [exists_split_iff hreads hwhole] at hyes
      by_cases h : whole = literal.toList
      · rw [if_pos (hyes.mpr h)]
        simp [h]
      · rw [if_neg (hyes.not.mpr h),
          if_neg (unknown_notMem_arms hkleene hreads hwhole)]
        simp [h]
  | none =>
      obtain ⟨name, hname, hnone⟩ := concatenation_eq_none_iff.mp hwhole
      have hno : ¬ ∃ found ∈ splits terms literal.toList, ∀ piece ∈ found, truth piece = .yes := by
        rintro ⟨found, hfound, hpieces⟩
        obtain ⟨piece, hpiece⟩ := exists_piece_of_column hname hfound
        exact (hreads name hname).piece_none hnone piece (hpieces _ hpiece)
      have hunknown : Truth.unknown ∈ (concatenationArms terms literal.toList).map truth := by
        apply List.mem_map.mpr
        refine ⟨absence name, List.mem_append_right _ (List.mem_map_of_mem hname), ?_⟩
        rw [truth_absence hkleene (hreads name hname), hnone]
        rfl
      rw [if_neg (hyes.not.mpr hno), if_pos hunknown]

/-- The rewritten comparison is the comparison of the concatenation. -/
theorem truth_splitConcatenation
    (hreads : ∀ name ∈ terms.filterMap (·.columnName?), ReadsTextColumn truth text? name)
    {operator : PlanOperator} {literal : String} {rewritten : Node}
    (h : splitConcatenation operator terms literal = some rewritten) :
    truth rewritten = (concatenationIs text? terms literal).polarised (operator ≠ .eq) := by
  have harms := splitConcatenation_eq_some h
  have hor : truth (.expression .or (concatenationArms terms literal.toList)) =
      concatenationIs text? terms literal := by
    rw [hkleene.or, any_arms hkleene hreads]
  by_cases hoperator : operator = .eq
  · rw [harms, if_pos hoperator, hor]
    simp [hoperator]
  · rw [harms, if_neg hoperator, hkleene.not, hor]
    simp [hoperator]

end Readings

/-! ## CEL's reading -/

section Cel

open Go

/-- What CEL answers for the empty beginning of a text, and of a null. -/
structure StartsWithEmpty (functions : Functions) : Prop where
  string (text : String) :
    functions.call .startsWith [.string text, .string ""] = .value (.bool true)
  null : functions.call .startsWith [.null, .string ""] = .error

/-- The text that a reference reads. -/
def textRead (env : Valuation) (name : String) : Option String :=
  match env name with
  | .value (.string text) => some text
  | _ => none

/-- A string column: a text, a null, or a missing attribute. -/
def ReadsText (env : Valuation) (name : String) : Prop :=
  (∃ text, env name = .value (.string text)) ∨ env name = .value .null ∨ env name = .error

variable {functions : Functions} {env : Valuation}

theorem kleeneReading_meaning (functions : Functions) (env : Valuation) :
    KleeneReading fun node => (meaning functions node env).asBoolean where
  and operands := by
    rw [meaning_expression]
    simp [expressionMeaning, Function.comp_def]
  or operands := by
    rw [meaning_or]
    simp
  not operand := by
    rw [meaning_not]
    simp

/-- A function of a reference and a string. -/
theorem meaning_of_string {operator : PlanOperator} (h : isStrict operator = true)
    (name text : String) :
    meaning functions (.expression operator [.var name, .value (.string text)]) env =
      (env name).toValue.elim .error fun v => functions.apply operator [v, .string text] := by
  have hread : meaning functions (.value (.string text)) env = .value (.string text) := rfl
  rw [meaning_strict h, valuesOf_cons, valuesOf_cons, meaning_var, hread]
  cases env name with
  | error => rfl
  | value v => rfl

theorem meaning_pieceEquality (name : String) (piece : List Char) :
    meaning functions (pieceEquality name piece) env =
      (env name).toValue.elim .error fun v =>
        functions.apply .eq [v, .string (String.ofList piece)] :=
  meaning_of_string rfl name _

theorem readsTextColumn_meaning (hfunctions : StartsWithEmpty functions) {name : String}
    (hname : ReadsText env name) :
    ReadsTextColumn (fun node => (meaning functions node env).asBoolean) (textRead env) name where
  piece_some {text} h piece := by
    have hread : env name = .value (.string text) := by
      obtain ⟨other, hother⟩ | hnull | herror := hname
      · rw [textRead, hother] at h
        rw [hother, Option.some_inj.mp h]
      · simp [textRead, hnull] at h
      · simp [textRead, herror] at h
    have hiff : text.toList = piece ↔ text = String.ofList piece := by
      rw [← String.toList_inj, String.toList_ofList]
    show (meaning functions (pieceEquality name piece) env).asBoolean = _
    rw [meaning_pieceEquality, hread]
    simp [Outcome.toValue, Functions.apply, comparisonOps, comparisonOutcome,
      ComparisonOperator.isOrdering, Outcome.asBoolean, Value.valuesEqual, hiff]
  piece_none h piece := by
    show (meaning functions (pieceEquality name piece) env).asBoolean ≠ _
    rw [meaning_pieceEquality]
    obtain ⟨other, hother⟩ | hnull | herror := hname
    · simp [textRead, hother] at h
    · rw [hnull]
      show Truth.no ≠ .yes
      decide
    · rw [herror]
      show Truth.unknown ≠ .yes
      decide
  start := by
    show (meaning functions (.expression .startsWith [.var name, .value (.string "")]) env).asBoolean
      = _
    rw [meaning_of_string rfl]
    obtain ⟨other, hother⟩ | hnull | herror := hname
    · rw [textRead, hother]
      exact congrArg Outcome.asBoolean (hfunctions.string other)
    · rw [textRead, hnull]
      exact congrArg Outcome.asBoolean hfunctions.null
    · rw [textRead, herror]
      rfl

end Cel

/-! ## The database's reading -/

/-- The truth of a condition whose connectives are SQL's, from that of its leaves. -/
def connectiveTruth (leaf : PlanOperator → List Node → Truth) : Node → Truth :=
  Operand.fold (fun _ => .unknown) (fun _ => .unknown) fun operator operands each _ =>
    match operator, each with
    | .and, truths => Truth.all truths
    | .or, truths => Truth.any truths
    | .not, [truth] => truth.not
    | operator, _ => leaf operator operands

theorem connectiveTruth_expression (leaf : PlanOperator → List Node → Truth)
    (operator : PlanOperator) (operands : List Node) :
    connectiveTruth leaf (.expression operator operands) =
      match operator, operands.map (connectiveTruth leaf) with
      | .and, truths => Truth.all truths
      | .or, truths => Truth.any truths
      | .not, [truth] => truth.not
      | operator, _ => leaf operator operands :=
  Operand.fold_expression _ _ _ operator operands

theorem kleeneReading_connectiveTruth (leaf : PlanOperator → List Node → Truth) :
    KleeneReading (connectiveTruth leaf) where
  and operands := connectiveTruth_expression leaf .and operands
  or operands := connectiveTruth_expression leaf .or operands
  not operand := connectiveTruth_expression leaf .not [operand]

section Database

variable {ρ : Type} (engine : Engine) (store : Store ρ) (context : TranslationContext) (r : ρ)

/-- The truth of the filter of a column's comparison. -/
def leafTruth (operator : PlanOperator) (operands : List Node) : Truth :=
  let filter := match operator, operands with
    | .eq, [.var name, .value v] =>
        buildComparisonFilter context (resolveFieldReference name context).result .eq v
    | .startsWith, [.var name, .value v] =>
        buildFieldFilter (resolveFieldReference name context).result .startsWith v
    | operator, _ => unsupported ("Unsupported operator: " ++ operator.name)
  match filter with
  | .ok filter => filter.truth engine store r
  | .error _ => .unknown

/-- The truth of a condition's filter, whose connectives are SQL's. -/
def conditionTruth : Node → Truth :=
  Operand.fold (fun _ => .unknown) (fun _ => .unknown) fun operator operands each _ =>
    match operator, each with
    | .and, truths => Truth.all truths
    | .or, truths => Truth.any truths
    | .not, [truth] => truth.not
    | operator, _ => leafTruth engine store context r operator operands

/-- The text that a reference's column holds. -/
def textStored (name : String) : Option String :=
  match getLeafField (resolveFieldReference name context).result.path with
  | .ok field => match store.column r field with
    | .text text => some text
    | _ => none
  | .error _ => none

/-- A string column of the current record, which holds a text or NULL. -/
structure StoresText (name : String) : Prop where
  valueType : (resolveFieldReference name context).result.valueType = some .string
  direct : (resolveFieldReference name context).result.relations.getD [] = []
  column : ∃ field, getLeafField (resolveFieldReference name context).result.path = .ok field ∧
    (store.column r field = .null ∨ ∃ text, store.column r field = .text text)

variable {engine store context r}

theorem conditionTruth_expression (operator : PlanOperator) (operands : List Node) :
    conditionTruth engine store context r (.expression operator operands) =
      match operator, operands.map (conditionTruth engine store context r) with
      | .and, truths => Truth.all truths
      | .or, truths => Truth.any truths
      | .not, [truth] => truth.not
      | operator, _ => leafTruth engine store context r operator operands :=
  connectiveTruth_expression _ operator operands

theorem kleeneReading_conditionTruth :
    KleeneReading (conditionTruth engine store context r) :=
  kleeneReading_connectiveTruth _

/-- The filter of an equality with a text, guarded where a NULL is the value null. -/
theorem StoresText.leafTruth_eq {name field : String} (hname : StoresText store context r name)
    (hfield : getLeafField (resolveFieldReference name context).result.path = .ok field)
    (text : String) :
    leafTruth engine store context r .eq [.var name, .value (.string text)] =
      if isExplicitNullReference (resolveFieldReference name context).result then
        (Truth.ofBool !(store.column r field).isNull).and
          (engine.compare .eq (store.column r field) (.text text))
      else engine.compare .eq (store.column r field) (.text text) := by
  have hscalar : assertScalarValue (resolveFieldReference name context).result (.string text)
      ComparisonOperator.eq.name = .ok () := by
    simp [assertScalarValue, hname.valueType, MappedType.holds]
  have hrelations : (resolveFieldReference name context).result.relations.getD [] = [] :=
    hname.direct
  simp only [leafTruth, buildComparisonFilter, hscalar, guardedFieldFilter, buildFieldFilter,
    hfield, hrelations, wrapInRelations, List.foldr_nil, bind, Except.bind, pure, Except.pure]
  cases isExplicitNullReference (resolveFieldReference name context).result with
  | true => simp [ComparisonOperator.isOrdering, fieldTruth, boundLiteral,
      FieldOperator.comparison]
  | false => rfl

theorem readsTextColumn_conditionTruth (hlike : PlainLike engine)
    (hnull : ∀ pattern, engine.like .null pattern = .unknown) {name : String}
    (hname : StoresText store context r name) :
    ReadsTextColumn (conditionTruth engine store context r) (textStored store context r) name := by
  obtain ⟨field, hfield, hcolumn⟩ := hname.column
  have htext : textStored store context r name =
      match store.column r field with
      | .text text => some text
      | _ => none := by
    rw [textStored, hfield]
  have hpiece : ∀ piece, conditionTruth engine store context r (pieceEquality name piece) =
      leafTruth engine store context r .eq [.var name, .value (.string (String.ofList piece))] :=
    fun piece => conditionTruth_expression .eq _
  constructor
  case piece_some =>
    intro text h piece
    obtain hcolumn | ⟨other, hcolumn⟩ := hcolumn
    · simp [htext, hcolumn] at h
    · rw [htext, hcolumn] at h
      obtain rfl := Option.some_inj.mp h
      have hcompare : engine.compare .eq (.text other) (.text (String.ofList piece)) =
          .ofBool (other.toList = piece) := by
        simp [Engine.compare, SqlValue.isNull, SqlValue.sameTypeKeys, ComparisonOperator.test,
          compareCodePoints_eq_zero_iff]
      rw [hpiece, hname.leafTruth_eq hfield, hcolumn, hcompare]
      split <;> rfl
  case piece_none =>
    intro h piece
    obtain hcolumn | ⟨other, hcolumn⟩ := hcolumn
    · rw [hpiece, hname.leafTruth_eq hfield, hcolumn, Engine.compare_null_left]
      split <;> decide
    · simp [htext, hcolumn] at h
  case start =>
    have hleaf : conditionTruth engine store context r
        (.expression .startsWith [.var name, .value (.string "")]) =
        engine.like (store.column r field) (.text "%") := by
      have hrelations : (resolveFieldReference name context).result.relations.getD [] = [] :=
        hname.direct
      rw [conditionTruth_expression]
      simp [leafTruth, buildFieldFilter, hfield, hrelations, wrapInRelations, bind, Except.bind,
        pure, Except.pure, fieldTruth]
    rw [hleaf, htext]
    obtain hcolumn | ⟨other, hcolumn⟩ := hcolumn
    · rw [hcolumn, hnull]
      rfl
    · have hstart : likeMatches '\\' ("" ++ "%") other = true := by
        rw [likeMatches_plain_run other (by simp)]
        simp [startsWithText]
      rw [hcolumn, hlike.text other "%" (by simp)]
      exact congrArg Truth.ofBool hstart

end Database

/-! ## The rewritten comparison -/

section Rewritten

open Go

variable {operator : PlanOperator} {operands : List Node} {context : TranslationContext}
  {terms : List ConcatenationTerm} {literal : String}

/-- A concatenation of at least two string columns is split within the bounds. -/
theorem rewriteConcatenation_result
    (hterms : concatenationEquality operator operands = some (terms, literal))
    (htwo : 2 ≤ (terms.filterMap (·.columnName?)).length)
    (hcolumns : (areStringColumns context (terms.filterMap (·.columnName?))).result = true) :
    (rewriteConcatenation operator operands context).result =
      splitConcatenation operator terms literal := by
  rw [rewriteConcatenation, hterms]
  simp only [if_neg (Nat.not_lt.mpr htwo), Reading.bind_result, hcolumns, if_true]
  rfl

/-- The rewritten comparison of a concatenation with a literal is TRUE or FALSE where every
column has a text, as the concatenation is the literal or not, and undecided where one is NULL,
in CEL and in the database. -/
theorem rewriteConcatenation_evaluates
    (hterms : concatenationEquality operator operands = some (terms, literal))
    (htwo : 2 ≤ (terms.filterMap (·.columnName?)).length)
    (hcolumns : (areStringColumns context (terms.filterMap (·.columnName?))).result = true)
    (hlength : literal.toList.length ≤ maxConcatenationSplits)
    (harms : (splits terms literal.toList).length ≤ maxConcatenationArms) :
    ∃ rewritten, (rewriteConcatenation operator operands context).result = some rewritten ∧
      (∀ (functions : Functions) (env : Valuation), StartsWithEmpty functions →
        (∀ name ∈ terms.filterMap (·.columnName?), ReadsText env name) →
        (meaning functions rewritten env).asBoolean =
          (concatenationIs (textRead env) terms literal).polarised (operator ≠ .eq)) ∧
      (∀ (ρ : Type) (engine : Engine) (store : Store ρ) (r : ρ), PlainLike engine →
        (∀ pattern, engine.like .null pattern = .unknown) →
        (∀ name ∈ terms.filterMap (·.columnName?), StoresText store context r name) →
        conditionTruth engine store context r rewritten =
          (concatenationIs (textStored store context r) terms literal).polarised
            (operator ≠ .eq)) := by
  obtain ⟨rewritten, hrewritten⟩ :=
    Option.isSome_iff_exists.mp (splitConcatenation_isSome operator hlength harms)
  refine ⟨rewritten, ?_, ?_, ?_⟩
  · rw [rewriteConcatenation_result hterms htwo hcolumns, hrewritten]
  · intro functions env hfunctions hreads
    exact truth_splitConcatenation (kleeneReading_meaning functions env)
      (fun name hname => readsTextColumn_meaning hfunctions (hreads name hname)) hrewritten
  · intro ρ engine store r hlike hnull hstores
    exact truth_splitConcatenation kleeneReading_conditionTruth
      (fun name hname => readsTextColumn_conditionTruth hlike hnull (hstores name hname)) hrewritten

end Rewritten

/-! ## A concatenation of two columns -/

def textCall : PlanOperator → List Value → Outcome
  | .startsWith, [.string text, .string start] => .value (.bool (startsWithText text start))
  | _, _ => .error

/-- The functions of CEL that a split needs. -/
def textFunctions : Go.Functions :=
  .filtering textCall

/-- An engine whose LIKE is the standard one, and that compares nothing across types. -/
def likeEngine : Engine :=
  { Engine.bare with
    like := fun text pattern => match text, pattern with
      | .text text, .text pattern => .ofBool (likeMatches '\\' pattern text)
      | _, _ => .unknown }

/-- Two string columns, the second of which declares its NULL to be a null. -/
def twoStrings : TranslationContext where
  mapper := .object fun key =>
    some { MapperConfig.ofField key with
      valueType := some .string
      nullAttributeRepresentation := if key = "b" then some .explicit else none }
  rootModel := none
  nullRepresentation := .omitted
  scopes := []

/-- `a + ("-" + b) == "x-y"`, on a request that gives both texts and on a record that lacks one. -/
theorem rewriteConcatenation_evaluates_twoStrings :
    ∃ rewritten,
      (rewriteConcatenation .eq [.expression .add [.var "a", .expression .add
        [.value (.string "-"), .var "b"]], .value (.string "x-y")] twoStrings).result =
        some rewritten ∧
      (Go.meaning textFunctions rewritten fun name =>
        .value (.string (if name = "a" then "x" else "y"))).asBoolean = .yes ∧
      conditionTruth likeEngine nullAndText twoStrings () rewritten = .unknown := by
  have hterms : concatenationEquality .eq [.expression .add [.var "a", .expression .add
      [.value (.string "-"), .var "b"]], .value (.string "x-y")] =
      some ([.column "a", .literal "-", .column "b"], "x-y") := rfl
  have hcolumns : (areStringColumns twoStrings ["a", "b"]).result = true := rfl
  obtain ⟨rewritten, hrewritten, hcel, hdatabase⟩ := rewriteConcatenation_evaluates hterms
    (by decide) hcolumns (by decide) (by decide)
  have hfunctions : StartsWithEmpty textFunctions := by
    refine ⟨fun text => ?_, rfl⟩
    show Outcome.value (.bool (startsWithText text "")) = _
    simp [startsWithText]
  have hstores : ∀ name ∈ ["a", "b"], StoresText nullAndText twoStrings () name := by
    intro name hname
    rcases List.mem_pair.mp hname with rfl | rfl
    · exact ⟨rfl, rfl, "a", rfl, .inl rfl⟩
    · exact ⟨rfl, rfl, "b", rfl, .inr ⟨"x", rfl⟩⟩
  refine ⟨rewritten, hrewritten, ?_, ?_⟩
  · rw [hcel textFunctions _ hfunctions fun name _ => .inl ⟨_, rfl⟩]
    decide
  · rw [hdatabase Unit likeEngine nullAndText () ⟨fun text pattern _ => rfl⟩ (fun _ => rfl) hstores]
    decide

end QueryPlanAdapters.Prisma
