import QueryPlanAdapters.Cel.Value
import QueryPlanAdapters.Logic.Splitting

/-!
# Hierarchies over delimited texts

A text is split into the segments of a hierarchy from the left. One hierarchy begins
another where the text does with a delimiter after it, save that the delimiter may not
be found at that place when it overlaps itself.
-/

namespace QueryPlanAdapters

theorem splitOnText_skip (separator : List Char) (skip : Nat) (cs : List Char) :
    splitOnText separator skip cs = splitOnText separator 0 (cs.drop skip) := by
  induction cs generalizing skip with
  | nil => cases skip <;> simp [splitOnText]
  | cons c cs ih =>
      cases skip with
      | zero => rfl
      | succ skip => rw [splitOnText, ih, List.drop_succ_cons]

/-- The loop over a text finds its parts. -/
theorem splits_splitOnText {separator : List Char} (hseparator : separator ≠ [])
    (cs : List Char) : Splits separator cs (splitOnText separator 0 cs) := by
  induction hlength : cs.length using Nat.strong_induction_on generalizing cs with
  | h length ih =>
      cases cs with
      | nil =>
          rw [splitOnText]
          exact Splits.last (by simpa [List.infix_nil] using hseparator)
      | cons c cs =>
          rw [splitOnText]
          by_cases hfound : separator <+: c :: cs
          · -- An occurrence is dropped whole: its first character here, the rest by skipping.
            obtain ⟨rest, hrest⟩ := hfound
            obtain ⟨c', more, rfl⟩ := List.exists_cons_of_ne_nil hseparator
            obtain ⟨rfl, rfl⟩ : c' = c ∧ more ++ rest = cs := by simpa using hrest
            rw [if_pos (by simp), splitOnText_skip, List.length_cons, Nat.add_sub_cancel,
              List.drop_left]
            have hshort : rest.length < length := by
              rw [← hlength, List.length_cons, List.length_append]
              omega
            exact Splits.step upTo_nil (ih _ hshort rest rfl)
          · rw [if_neg (by simpa using hfound)]
            have hrest := ih cs.length (by simp [← hlength]) cs rfl
            obtain ⟨part, parts, hparts⟩ := List.exists_cons_of_ne_nil hrest.ne_nil
            rw [hparts] at hrest ⊢
            exact hrest.cons hfound

theorem isStrictAncestor_iff {ps qs : List String} :
    isStrictAncestor ps qs = true ↔ StrictPrefix ps qs := by
  rw [isStrictAncestor, Bool.and_eq_true, decide_eq_true_eq, List.isPrefixOf_iff_prefix]
  constructor
  · rintro ⟨hlength, rest, rfl⟩
    refine ⟨rest, ?_, rfl⟩
    rintro rfl
    simp at hlength
  · rintro ⟨rest, hrest, rfl⟩
    have hpos : 0 < rest.length := List.length_pos_iff.mpr hrest
    exact ⟨by rw [List.length_append]; omega, List.prefix_append ..⟩

theorem hierarchiesOverlap_iff {ps qs : List String} :
    hierarchiesOverlap ps qs = true ↔ ps = qs ∨ StrictPrefix ps qs ∨ StrictPrefix qs ps := by
  have hprefix : ∀ {ps qs : List String}, ps.length ≤ qs.length →
      (ps <+: qs ↔ ps = qs ∨ StrictPrefix ps qs ∨ StrictPrefix qs ps) := by
    intro ps qs hle
    constructor
    · rintro ⟨rest, rfl⟩
      by_cases hrest : rest = []
      · exact .inl (by simp [hrest])
      · exact .inr (.inl ⟨rest, hrest, rfl⟩)
    · rintro (rfl | ⟨rest, -, rfl⟩ | ⟨rest, hrest, rfl⟩)
      · exact List.prefix_rfl
      · exact List.prefix_append ..
      · have hpos : 0 < rest.length := List.length_pos_iff.mpr hrest
        rw [List.length_append] at hle
        omega
  rw [hierarchiesOverlap]
  split
  next hle => rw [List.isPrefixOf_iff_prefix, hprefix hle]
  next hle =>
    rw [List.isPrefixOf_iff_prefix, hprefix (by omega), eq_comm, or_comm (a := StrictPrefix ps qs)]

section Texts

variable {delimiter : String}

variable (hdelimiter : delimiter ≠ "")
include hdelimiter

theorem splits_toList (cs : List Char) :
    Splits delimiter.toList cs (splitOnText delimiter.toList 0 cs) :=
  splits_splitOnText (by simpa using hdelimiter) cs

theorem splitDelimited_eq (text : String) :
    splitDelimited text delimiter =
      (splitOnText delimiter.toList 0 text.toList).map String.ofList :=
  if_neg hdelimiter

theorem intercalate_take_eq (text : String) (count : Nat) :
    (delimiter.intercalate ((splitDelimited text delimiter).take count)).toList =
      delimiter.toList.intercalate
        ((splitOnText delimiter.toList 0 text.toList).take count) := by
  rw [String.toList_intercalate, splitDelimited_eq hdelimiter, ← List.map_take, List.map_map]
  congr 1
  exact (List.map_congr_left fun _ _ => String.toList_ofList).trans (List.map_id _)

/-- Two texts of one hierarchy are one text. -/
theorem splitDelimited_inj {a b : String} :
    splitDelimited a delimiter = splitDelimited b delimiter ↔ a = b := by
  constructor
  · intro h
    rw [splitDelimited_eq hdelimiter, splitDelimited_eq hdelimiter] at h
    have hparts := (List.map_injective_iff.mpr fun _ _ => String.ofList_injective) h
    have ha := (splits_toList hdelimiter a.toList).intercalate_eq
    rw [hparts, (splits_toList hdelimiter b.toList).intercalate_eq] at ha
    exact (String.toList_inj.mp ha).symm
  · rintro rfl
    rfl

/-- A constant ancestor: its text begins the other one, a delimiter after it, which is
found there. -/
theorem isStrictAncestor_iff_startsWith (a d : String) :
    isStrictAncestor (splitDelimited a delimiter) (splitDelimited d delimiter) = true ↔
      startsWithText d (a ++ delimiter) = true ∧
        splitDelimited (a ++ delimiter) delimiter = splitDelimited a delimiter ++ [""] := by
  have hinjective : Function.Injective (List.map String.ofList) :=
    List.map_injective_iff.mpr fun _ _ => String.ofList_injective
  have hparts : splitDelimited (a ++ delimiter) delimiter = splitDelimited a delimiter ++ [""] ↔
      splitOnText delimiter.toList 0 (a.toList ++ delimiter.toList) =
        splitOnText delimiter.toList 0 a.toList ++ [[]] := by
    rw [splitDelimited_eq hdelimiter, splitDelimited_eq hdelimiter, String.toList_append,
      ← hinjective.eq_iff, List.map_append]
    rfl
  rw [isStrictAncestor_iff, hparts, startsWithText, List.isPrefixOf_iff_prefix,
    String.toList_append, splitDelimited_eq hdelimiter, splitDelimited_eq hdelimiter,
    strictPrefix_map_iff fun _ _ => String.ofList_injective]
  exact strictPrefix_split_iff (by simpa using hdelimiter) (splits_toList hdelimiter)

/-- A constant descendant: the ancestor is one of its beginnings at a delimiter. -/
theorem isStrictAncestor_iff_take (a d : String) :
    isStrictAncestor (splitDelimited a delimiter) (splitDelimited d delimiter) = true ↔
      ∃ count, 0 < count ∧ count < (splitDelimited d delimiter).length ∧
        a = delimiter.intercalate ((splitDelimited d delimiter).take count) := by
  have hlength : (splitDelimited d delimiter).length =
      (splitOnText delimiter.toList 0 d.toList).length := by
    rw [splitDelimited_eq hdelimiter, List.length_map]
  rw [isStrictAncestor_iff, splitDelimited_eq hdelimiter a, splitDelimited_eq hdelimiter d,
    strictPrefix_map_iff fun _ _ => String.ofList_injective,
    strictPrefix_iff_exists_take (by simpa using hdelimiter) (splits_toList hdelimiter),
    ← splitDelimited_eq hdelimiter d, hlength]
  simp only [← String.toList_inj, intercalate_take_eq hdelimiter]

end Texts

end QueryPlanAdapters
