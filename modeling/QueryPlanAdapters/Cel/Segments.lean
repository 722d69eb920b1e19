import QueryPlanAdapters.Cel.Hierarchy
import QueryPlanAdapters.Logic.Segments

/-!
# Hierarchies of a text against constant segments

A constant hierarchy is a list of segments, which need not be the parts of a text: its own
delimiter may be another one than the field's. What a filter on the text can ask is compared
with CEL's relation between the segments and the parts of the text, for all texts at once.
-/

namespace QueryPlanAdapters

/-- What a relation asks of the text's hierarchy. -/
inductive HierarchyRole where
  | ancestor | descendant | overlapping
  deriving DecidableEq, Repr

namespace HierarchyRole

/-- The operator of a relation, for either place of the text. -/
def operator : HierarchyRole → (fieldFirst : Bool) → PlanOperator
  | ancestor, true | descendant, false => .ancestorOf
  | ancestor, false | descendant, true => .descendentOf
  | overlapping, _ => .overlaps

/-- CEL's relation between the segments of the text and those of the constant. -/
def test : HierarchyRole → (field constant : List String) → Bool
  | ancestor, field, constant => isStrictAncestor field constant
  | descendant, field, constant => isStrictAncestor constant field
  | overlapping, field, constant => hierarchiesOverlap field constant

end HierarchyRole

/-- The segments stand before a delimiter put after their text. -/
def SegmentsFound (delimiter : String) (segments : List String) : Prop :=
  splitDelimited (delimiter.intercalate segments ++ delimiter) delimiter = segments ++ [""]

/-- The texts of the first segments. -/
def IsTextOfFirst (delimiter : String) (segments : List String) (text : String) : Prop :=
  ∃ k, 0 < k ∧ k < segments.length ∧ text = delimiter.intercalate (segments.take k)

/-- Each text of first segments splits into first segments. -/
def FirstSegmentsFound (delimiter : String) (segments : List String) : Prop :=
  ∀ k, 0 < k → k < segments.length →
    StrictPrefix (splitDelimited (delimiter.intercalate (segments.take k)) delimiter) segments

/-! ## Segments as lists of characters -/

section Characters

variable {delimiter : String} {segments : List String}

/-- The parts of a text, as lists of characters. -/
def characterParts (delimiter : String) (cs : List Char) : List (List Char) :=
  if delimiter = "" then elements cs else splitOnText delimiter.toList 0 cs

theorem splitDelimited_eq_map (text : String) :
    splitDelimited text delimiter = (characterParts delimiter text.toList).map String.ofList := by
  rw [splitDelimited, characterParts]
  split
  next => rw [elements, List.map_map]; rfl
  next => rfl

theorem segments_eq_map (segments : List String) :
    (segments.map String.toList).map String.ofList = segments := by
  rw [List.map_map]
  exact (List.map_congr_left fun _ _ => String.ofList_toList).trans (List.map_id _)

theorem strictPrefix_parts_right (text : String) :
    StrictPrefix segments (splitDelimited text delimiter) ↔
      StrictPrefix (segments.map String.toList) (characterParts delimiter text.toList) := by
  rw [splitDelimited_eq_map, ← strictPrefix_map_iff fun _ _ => String.ofList_injective,
    segments_eq_map]

theorem strictPrefix_parts_left (text : String) :
    StrictPrefix (splitDelimited text delimiter) segments ↔
      StrictPrefix (characterParts delimiter text.toList) (segments.map String.toList) := by
  rw [splitDelimited_eq_map, ← strictPrefix_map_iff fun _ _ => String.ofList_injective,
    segments_eq_map]

theorem parts_eq_iff (text : String) :
    splitDelimited text delimiter = segments ↔
      characterParts delimiter text.toList = segments.map String.toList := by
  have hinjective : Function.Injective (List.map String.ofList) :=
    List.map_injective_iff.mpr fun _ _ => String.ofList_injective
  rw [splitDelimited_eq_map, ← hinjective.eq_iff, segments_eq_map]

theorem comparable_parts (text : String) :
    Comparable (splitDelimited text delimiter) segments ↔
      Comparable (characterParts delimiter text.toList) (segments.map String.toList) := by
  rw [Comparable, parts_eq_iff, strictPrefix_parts_left, strictPrefix_parts_right, Comparable]

/-- The relation asked of a text, as a relation between lists of segments. -/
theorem HierarchyRole.test_iff (role : HierarchyRole) (field constant : List String) :
    role.test field constant = true ↔
      match role with
      | .ancestor => StrictPrefix field constant
      | .descendant => StrictPrefix constant field
      | .overlapping => Comparable field constant := by
  cases role with
  | ancestor => exact isStrictAncestor_iff
  | descendant => exact isStrictAncestor_iff
  | overlapping => exact hierarchiesOverlap_iff

theorem toList_text (k : Nat) :
    (delimiter.intercalate (segments.take k)).toList =
      delimiter.toList.intercalate ((segments.map String.toList).take k) := by
  rw [String.toList_intercalate, List.map_take]

theorem isTextOfFirst_iff (text : String) :
    IsTextOfFirst delimiter segments text ↔
      IsFlatBeginning delimiter.toList (segments.map String.toList) text.toList := by
  simp only [IsTextOfFirst, IsFlatBeginning, List.length_map, ← String.toList_inj, toList_text]

theorem text_eq_iff (text : String) :
    text = delimiter.intercalate segments ↔
      text.toList = delimiter.toList.intercalate (segments.map String.toList) := by
  rw [← String.toList_inj, String.toList_intercalate]

theorem startsWith_text_iff (text : String) :
    startsWithText text (delimiter.intercalate segments ++ delimiter) = true ↔
      delimiter.toList.intercalate (segments.map String.toList) ++ delimiter.toList <+:
        text.toList := by
  rw [startsWithText, List.isPrefixOf_iff_prefix, String.toList_append, String.toList_intercalate]

/-- All texts are all lists of characters. -/
theorem forall_text_iff {P : List Char → Prop} : (∀ text : String, P text.toList) ↔ ∀ cs, P cs := by
  constructor
  · intro h cs
    have hcs := h (String.ofList cs)
    rwa [String.toList_ofList] at hcs
  · exact fun h text => h text.toList

end Characters

/-! ## The exact conditions -/

section Conditions

variable {delimiter : String} {segments : List String}

theorem segmentsFound_iff (hdelimiter : delimiter ≠ "") :
    SegmentsFound delimiter segments ↔
      FoundBefore delimiter.toList (splitOnText delimiter.toList 0) (segments.map String.toList) := by
  rw [SegmentsFound, parts_eq_iff, characterParts, if_neg hdelimiter, String.toList_append,
    String.toList_intercalate, List.map_append, FoundBefore]
  rfl

/-- No text ends in an empty segment when its characters are the segments. -/
theorem not_segmentsFound_empty : ¬ SegmentsFound "" segments := by
  rw [SegmentsFound, parts_eq_iff, characterParts, if_pos rfl, List.map_append]
  intro h
  have hlast := (eq_elements_of_append h).2
  cases hlast

theorem flat_empty : ("" : String).toList.intercalate (segments.map String.toList) =
    (segments.map String.toList).flatten :=
  intercalate_nil_eq_flatten _

/-- The texts that begin with the constant's and a delimiter after it are those that it is
an ancestor of. -/
theorem forall_startsWith_iff :
    (∀ text, startsWithText text (delimiter.intercalate segments ++ delimiter) = true ↔
        StrictPrefix segments (splitDelimited text delimiter)) ↔
      SegmentsFound delimiter segments := by
  simp only [startsWith_text_iff, strictPrefix_parts_right, characterParts]
  rw [forall_text_iff (P := fun cs => _ <+: cs ↔ StrictPrefix _ (if delimiter = "" then elements cs
    else splitOnText delimiter.toList 0 cs))]
  by_cases hdelimiter : delimiter = ""
  · subst hdelimiter
    refine iff_of_false ?_ not_segmentsFound_empty
    rw [flat_empty]
    simpa using @not_forall_flatten_prefix_iff Char (segments.map String.toList)
  · rw [segmentsFound_iff hdelimiter]
    simp only [if_neg hdelimiter]
    exact forall_separator_after_iff (by simpa using hdelimiter) (splits_toList hdelimiter)

theorem firstSegmentsFound_iff :
    FirstSegmentsFound delimiter segments ↔
      ∀ k, 0 < k → k < (segments.map String.toList).length →
        StrictPrefix (characterParts delimiter
          (delimiter.toList.intercalate ((segments.map String.toList).take k)))
            (segments.map String.toList) := by
  simp only [FirstSegmentsFound, strictPrefix_parts_left, toList_text, List.length_map]

/-- The texts of the first segments are the ancestors of the constant. -/
theorem forall_textOfFirst_iff :
    (∀ text, IsTextOfFirst delimiter segments text ↔
        StrictPrefix (splitDelimited text delimiter) segments) ↔
      FirstSegmentsFound delimiter segments ∧
        (delimiter = "" → segments = [] ∨ ∃ rest, rest ≠ [] ∧ segments = "" :: rest) := by
  rw [firstSegmentsFound_iff]
  simp only [isTextOfFirst_iff, strictPrefix_parts_left, characterParts]
  rw [forall_text_iff (P := fun cs => IsFlatBeginning _ _ cs ↔
    StrictPrefix (if delimiter = "" then elements cs else splitOnText delimiter.toList 0 cs) _)]
  by_cases hdelimiter : delimiter = ""
  · subst hdelimiter
    have hfirst : (segments.map String.toList = [] ∨
        ∃ rest, rest ≠ [] ∧ segments.map String.toList = [] :: rest) ↔
          (segments = [] ∨ ∃ rest, rest ≠ [] ∧ segments = "" :: rest) := by
      cases segments with
      | nil => simp
      | cons s segments => cases segments <;> simp [and_comm]
    have helements := @forall_flatBeginning_elements_iff Char (segments.map String.toList)
    rw [hfirst] at helements
    simpa only [if_true, true_implies, String.toList_empty, intercalate_nil_eq_flatten] using
      helements
  · simp only [hdelimiter, if_false, false_implies, and_true]
    exact forall_flatBeginning_iff (splits_toList hdelimiter)

/-- All three are the texts that the constant overlaps. -/
theorem forall_overlaps_text_iff :
    (∀ text, (IsTextOfFirst delimiter segments text ∨ text = delimiter.intercalate segments ∨
        startsWithText text (delimiter.intercalate segments ++ delimiter) = true) ↔
          Comparable (splitDelimited text delimiter) segments) ↔
      if delimiter = "" then segments = [] else SegmentsFound delimiter segments := by
  simp only [isTextOfFirst_iff, text_eq_iff, startsWith_text_iff, comparable_parts, characterParts]
  rw [forall_text_iff (P := fun cs => (IsFlatBeginning _ _ cs ∨ cs = _ ∨ _ <+: cs) ↔
    Comparable (if delimiter = "" then elements cs else splitOnText delimiter.toList 0 cs) _)]
  by_cases hdelimiter : delimiter = ""
  · subst hdelimiter
    have helements := @forall_flat_overlaps_elements_iff Char (segments.map String.toList) _
    rw [List.map_eq_nil_iff] at helements
    simpa only [if_true, String.toList_empty, intercalate_nil_eq_flatten, List.append_nil] using
      helements
  · have hcharacters : Nontrivial Char := ⟨'a', 'b', by decide⟩
    simp only [if_neg hdelimiter]
    rw [segmentsFound_iff hdelimiter]
    exact forall_overlaps_iff (by simpa using hdelimiter) (splits_toList hdelimiter)

/-- What a lowering of the relation asks of the text. -/
def HierarchyRole.Selects (role : HierarchyRole) (delimiter : String) (segments : List String)
    (text : String) : Prop :=
  match role with
  | ancestor => IsTextOfFirst delimiter segments text
  | descendant => startsWithText text (delimiter.intercalate segments ++ delimiter) = true
  | overlapping =>
      IsTextOfFirst delimiter segments text ∨ text = delimiter.intercalate segments ∨
        startsWithText text (delimiter.intercalate segments ++ delimiter) = true

/-- Whether the constant's segments are found in the texts that the lowering compares. -/
def HierarchyRole.Decided (role : HierarchyRole) (delimiter : String) (segments : List String) :
    Prop :=
  match role with
  | ancestor => FirstSegmentsFound delimiter segments ∧
      (delimiter = "" → segments = [] ∨ ∃ rest, rest ≠ [] ∧ segments = "" :: rest)
  | descendant => SegmentsFound delimiter segments
  | overlapping => if delimiter = "" then segments = [] else SegmentsFound delimiter segments

/-- The relation holds of the texts that are selected, whatever the text, exactly where the
constant's segments are found. -/
theorem HierarchyRole.forall_selects_iff (role : HierarchyRole) :
    (∀ text, role.Selects delimiter segments text ↔
        role.test (splitDelimited text delimiter) segments = true) ↔
      role.Decided delimiter segments := by
  simp only [HierarchyRole.test_iff]
  cases role with
  | ancestor => exact forall_textOfFirst_iff
  | descendant => exact forall_startsWith_iff
  | overlapping => exact forall_overlaps_text_iff

/-! ### One segment for each character -/

/-- The text continues the constant's by a character or more. -/
def Continues (segments : List String) (text : String) : Prop :=
  ∃ c after, text.toList = ("".intercalate segments).toList ++ c :: after

/-- The text of the first segments, no segments among them. -/
def IsTextOfInitial (segments : List String) (text : String) : Prop :=
  ∃ k < segments.length, text = "".intercalate (segments.take k)

theorem toList_text_empty (segments : List String) :
    ("".intercalate segments).toList = (segments.map String.toList).flatten := by
  rw [String.toList_intercalate]
  exact flat_empty

/-- The segments are the characters of their text. -/
theorem segments_eq_characters_iff :
    splitDelimited ("".intercalate segments) "" = segments ↔
      elements (segments.map String.toList).flatten = segments.map String.toList := by
  rw [parts_eq_iff, characterParts, if_pos rfl, toList_text_empty]

/-- A text split into its characters is their text. -/
theorem intercalate_characters (text : String) : "".intercalate (splitDelimited text "") = text := by
  rw [← String.toList_inj, toList_text_empty, splitDelimited_eq_map, characterParts, if_pos rfl,
    List.map_map]
  have hid : (elements text.toList).map (String.toList ∘ String.ofList) = elements text.toList :=
    (List.map_congr_left fun _ _ => String.toList_ofList).trans (List.map_id _)
  rw [hid, flatten_elements]

/-- Characters begin with the characters of each of their beginnings. -/
theorem firstSegmentsFound_of_characters
    (h : splitDelimited ("".intercalate segments) "" = segments) :
    FirstSegmentsFound "" segments := by
  rw [segments_eq_characters_iff] at h
  rw [firstSegmentsFound_iff]
  intro k _ hk
  have hparts : elements (segments.map String.toList).flatten =
      (segments.map String.toList).take k ++ (segments.map String.toList).drop k :=
    h.trans (List.take_append_drop k _).symm
  rw [characterParts, if_pos rfl, String.toList_empty, intercalate_nil_eq_flatten,
    ← (eq_elements_of_append hparts).1]
  exact strictPrefix_take hk

theorem forall_continues_iff :
    (∀ text, Continues segments text ↔ StrictPrefix segments (splitDelimited text "")) ↔
      splitDelimited ("".intercalate segments) "" = segments := by
  rw [segments_eq_characters_iff, ← forall_element_after_iff]
  simp only [Continues, strictPrefix_parts_right, characterParts, toList_text_empty, if_true]
  exact forall_text_iff (P := fun cs => (∃ c after, cs = _ ++ c :: after) ↔ StrictPrefix _ (elements cs))

theorem forall_textOfInitial_iff :
    (∀ text, IsTextOfInitial segments text ↔ StrictPrefix (splitDelimited text "") segments) ↔
      FirstSegmentsFound "" segments := by
  have hinitial : ∀ text, IsTextOfInitial segments text ↔
      IsElementBeginning (segments.map String.toList) text.toList := by
    intro text
    simp only [IsTextOfInitial, IsElementBeginning, List.length_map, ← String.toList_inj,
      toList_text_empty, List.map_take]
  simp only [hinitial, strictPrefix_parts_left, characterParts, if_true]
  rw [forall_text_iff (P := fun cs => IsElementBeginning _ cs ↔ StrictPrefix (elements cs) _),
    forall_elementBeginning_iff, firstSegmentsFound_iff]
  simp only [characterParts, if_true, String.toList_empty, intercalate_nil_eq_flatten]
  constructor
  · intro h k _ hk
    exact h k hk
  · intro h k hk
    cases k with
    | zero =>
        apply strictPrefix_nil.mpr
        exact List.length_pos_iff.mp hk
    | succ k => exact h (k + 1) (Nat.succ_pos k) hk

theorem forall_initial_overlaps_iff :
    (∀ text, (IsTextOfInitial segments text ∨ text = "".intercalate segments ∨
        startsWithText text ("".intercalate segments) = true) ↔
          Comparable (splitDelimited text "") segments) ↔
      splitDelimited ("".intercalate segments) "" = segments := by
  rw [segments_eq_characters_iff, ← forall_element_overlaps_iff]
  simp only [IsTextOfInitial, IsElementBeginning, startsWithText, List.isPrefixOf_iff_prefix,
    List.length_map, ← String.toList_inj, toList_text_empty, ← List.map_take, comparable_parts,
    characterParts, if_true]
  exact forall_text_iff (P := fun cs =>
    ((∃ k < segments.length, cs = ((segments.take k).map String.toList).flatten) ∨
      cs = (segments.map String.toList).flatten ∨ (segments.map String.toList).flatten <+: cs) ↔
        Comparable (elements cs) (segments.map String.toList))

end Conditions

/-! ## Listing the texts of the first segments -/

section Listing

variable (delimiter : String)

/-- The texts of one segment more each time, but for the last one's. -/
def continuedTexts : (current : String) → (segments : List String) → List String
  | _, [] | _, [_] => []
  | current, segment :: segments =>
      (current ++ delimiter ++ segment) ::
        continuedTexts (current ++ delimiter ++ segment) segments

/-- The texts of the first segments, each made from the one before. -/
def textsOfFirst : (segments : List String) → List String
  | [] | [_] => []
  | segment :: segments => segment :: continuedTexts delimiter segment segments

variable {delimiter}

theorem intercalate_snoc {done : List String} (hdone : done ≠ []) (segment : String) :
    delimiter.intercalate done ++ delimiter ++ segment = delimiter.intercalate (done ++ [segment]) := by
  rw [← String.toList_inj]
  simp only [String.toList_append, String.toList_intercalate, List.map_append, List.map_singleton]
  rw [intercalate_append (by simpa using hdone) (List.cons_ne_nil _ _), List.intercalate_singleton]

theorem mem_continuedTexts {text : String} {done segments : List String} (hdone : done ≠ []) :
    text ∈ continuedTexts delimiter (delimiter.intercalate done) segments ↔
      ∃ k, 0 < k ∧ k < segments.length ∧ text = delimiter.intercalate (done ++ segments.take k) := by
  induction segments generalizing done with
  | nil => simp [continuedTexts]
  | cons segment segments ih =>
      cases segments with
      | nil => simp [continuedTexts]
      | cons next segments =>
          have hnext : done ++ [segment] ≠ [] := by simp
          rw [continuedTexts, List.mem_cons, intercalate_snoc hdone, ih hnext]
          · constructor
            · rintro (rfl | ⟨k, hpos, hk, rfl⟩)
              · exact ⟨1, Nat.one_pos, by simp, by simp⟩
              · exact ⟨k + 1, Nat.succ_pos k, by simpa using hk, by simp⟩
            · rintro ⟨k, hpos, hk, rfl⟩
              obtain ⟨n, rfl⟩ : ∃ n, k = n + 1 := ⟨k - 1, by omega⟩
              cases n with
              | zero => exact .inl (by simp)
              | succ n => exact .inr ⟨n + 1, Nat.succ_pos n, by simpa using hk, by simp⟩
          · simp

theorem mem_textsOfFirst {text : String} {segments : List String} :
    text ∈ textsOfFirst delimiter segments ↔ IsTextOfFirst delimiter segments text := by
  rw [IsTextOfFirst]
  cases segments with
  | nil => simp [textsOfFirst]
  | cons segment segments =>
      cases segments with
      | nil => simp [textsOfFirst]
      | cons next segments =>
          have hsegment : delimiter.intercalate [segment] = segment := String.intercalate_singleton
          have hrest : text ∈ continuedTexts delimiter segment (next :: segments) ↔
              ∃ k, 0 < k ∧ k < (next :: segments).length ∧
                text = delimiter.intercalate ([segment] ++ (next :: segments).take k) := by
            rw [← mem_continuedTexts (List.cons_ne_nil segment []), hsegment]
          rw [textsOfFirst, List.mem_cons, hrest]
          constructor
          · rintro (rfl | ⟨k, hpos, hk, rfl⟩)
            · exact ⟨1, Nat.one_pos, by simp, by simp⟩
            · exact ⟨k + 1, Nat.succ_pos k, by simpa using hk, by simp⟩
          · rintro ⟨k, hpos, hk, rfl⟩
            obtain ⟨n, rfl⟩ : ∃ n, k = n + 1 := ⟨k - 1, by omega⟩
            cases n with
            | zero => exact .inl (by simp)
            | succ n => exact .inr ⟨n + 1, Nat.succ_pos n, by simpa using hk, by simp⟩
          · simp

theorem textsOfFirst_eq_nil {segments : List String} :
    textsOfFirst delimiter segments = [] ↔ segments.length ≤ 1 := by
  cases segments with
  | nil => simp [textsOfFirst]
  | cons segment segments => cases segments <;> simp [textsOfFirst]

end Listing

end QueryPlanAdapters
