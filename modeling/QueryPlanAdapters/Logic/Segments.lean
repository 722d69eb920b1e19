import QueryPlanAdapters.Logic.Splitting
import Mathlib.Logic.Nontrivial.Basic

/-!
# Lists of segments as flat lists

A list of segments is flattened with a separator, and its relations to the parts of
another list are asked of the flat lists instead: whether one begins the other, and whether
it is one of the other's beginnings. Each way of asking is compared with the relation on
every list at once, and the exact condition on the segments and the separator is found. An
empty separator splits a list into its elements.
-/

namespace QueryPlanAdapters

/-- One list is a beginning of the other. -/
def Comparable {β : Type*} (ps qs : List β) : Prop :=
  ps = qs ∨ StrictPrefix ps qs ∨ StrictPrefix qs ps

section Flattening

variable {α : Type*} {sep : List α} {ps qs : List (List α)}

theorem intercalate_append (hps : ps ≠ []) (hqs : qs ≠ []) :
    sep.intercalate (ps ++ qs) = sep.intercalate ps ++ sep ++ sep.intercalate qs := by
  induction ps with
  | nil => exact absurd rfl hps
  | cons p ps ih =>
      cases ps with
      | nil =>
          rw [List.singleton_append, List.intercalate_cons_of_ne_nil hqs,
            List.intercalate_singleton]
      | cons p' ps =>
          rw [List.intercalate_cons_cons, List.append_assoc, List.append_assoc, List.append_assoc,
            List.cons_append, List.cons_append, List.intercalate_cons_cons, ← List.cons_append,
            ih (List.cons_ne_nil p' ps)]
          simp only [List.append_assoc]

theorem intercalate_eq_nil (hsep : sep ≠ []) (h : sep.intercalate ps = []) :
    ps = [] ∨ ps = [[]] := by
  cases ps with
  | nil => exact .inl rfl
  | cons p ps =>
      cases ps with
      | nil => rw [List.intercalate_singleton] at h; exact .inr (by rw [h])
      | cons p' ps =>
          rw [List.intercalate_cons_cons] at h
          simp [hsep] at h

/-- A longer list of segments is a longer flat list. -/
theorem exists_intercalate_of_strictPrefix (hps : ps ≠ []) (h : StrictPrefix ps qs) :
    ∃ after, sep.intercalate qs = sep.intercalate ps ++ sep ++ after := by
  obtain ⟨rest, hrest, rfl⟩ := h
  exact ⟨_, intercalate_append hps hrest⟩

theorem strictPrefix_take {β : Type*} {xs : List β} {k : Nat} (hk : k < xs.length) :
    StrictPrefix (xs.take k) xs := by
  refine ⟨xs.drop k, ?_, (List.take_append_drop k xs).symm⟩
  rw [Ne, List.drop_eq_nil_iff]
  omega

theorem strictPrefix_iff_take {β : Type*} {xs ys : List β} :
    StrictPrefix xs ys ↔ xs.length < ys.length ∧ xs = ys.take xs.length := by
  constructor
  · rintro ⟨rest, hrest, rfl⟩
    have hpos : 0 < rest.length := List.length_pos_iff.mpr hrest
    exact ⟨by rw [List.length_append]; omega, List.take_left.symm⟩
  · rintro ⟨hlength, htake⟩
    rw [htake]
    exact strictPrefix_take hlength

theorem strictPrefix_nil {β : Type*} {xs : List β} : StrictPrefix [] xs ↔ xs ≠ [] := by
  constructor
  · rintro ⟨rest, hrest, rfl⟩
    exact hrest
  · intro h
    exact ⟨xs, h, rfl⟩

end Flattening

/-! ## A separator that is not empty -/

section Separated

variable {α : Type*} {sep : List α} {split : List α → List (List α)} {segs : List (List α)}

/-- The segments are what is found in their flat list with a separator after it. -/
def FoundBefore (sep : List α) (split : List α → List (List α)) (segs : List (List α)) : Prop :=
  split (sep.intercalate segs ++ sep) = segs ++ [[]]

theorem FoundBefore.ne_nil (hsep : sep ≠ []) (hsplit : ∀ cs, Splits sep cs (split cs))
    (h : FoundBefore sep split segs) : segs ≠ [] := by
  rintro rfl
  have hflat := (hsplit (sep.intercalate [] ++ sep)).intercalate_eq
  rw [h, List.nil_append, List.intercalate_singleton, List.intercalate_nil, List.nil_append] at hflat
  exact hsep hflat.symm

/-- If the segments begin what is found there, an empty part is all that follows them. -/
theorem FoundBefore.of_strictPrefix (hsep : sep ≠ []) (hsplit : ∀ cs, Splits sep cs (split cs))
    (hsegs : segs ≠ []) (h : StrictPrefix segs (split (sep.intercalate segs ++ sep))) :
    FoundBefore sep split segs := by
  obtain ⟨rest, hrest, hparts⟩ := h
  have hflat := (hsplit (sep.intercalate segs ++ sep)).intercalate_eq
  rw [hparts, intercalate_append hsegs hrest] at hflat
  have hnil : sep.intercalate rest = [] := List.append_right_eq_self.mp hflat
  obtain rfl | rfl := intercalate_eq_nil hsep hnil
  · exact absurd rfl hrest
  · exact hparts

theorem FoundBefore.strictPrefix_iff (hsep : sep ≠ []) (hsplit : ∀ cs, Splits sep cs (split cs))
    (h : FoundBefore sep split segs) (cs : List α) :
    sep.intercalate segs ++ sep <+: cs ↔ StrictPrefix segs (split cs) := by
  have hsegs := h.ne_nil hsep hsplit
  have hwhole := hsplit (sep.intercalate segs ++ sep)
  rw [h] at hwhole
  constructor
  · rintro ⟨after, rfl⟩
    have hparts := (hwhole.separated hsegs (List.cons_ne_nil _ _)).2 after (split after) (hsplit after)
    exact ⟨split after, (hsplit after).ne_nil, (hsplit _).unique hparts⟩
  · rintro ⟨rest, hrest, hparts⟩
    have hcs := hsplit cs
    rw [hparts] at hcs
    exact (hcs.separated hsegs hrest).1

/-- The flat list with a separator after it begins the lists that the segments begin,
exactly when the segments are found before the separator. -/
theorem forall_separator_after_iff (hsep : sep ≠ []) (hsplit : ∀ cs, Splits sep cs (split cs)) :
    (∀ cs, sep.intercalate segs ++ sep <+: cs ↔ StrictPrefix segs (split cs)) ↔
      FoundBefore sep split segs := by
  constructor
  · intro h
    by_cases hsegs : segs = []
    · have hempty := (h []).mpr (hsegs ▸ strictPrefix_nil.mpr (hsplit []).ne_nil)
      rw [List.prefix_nil, List.append_eq_nil_iff] at hempty
      exact absurd hempty.2 hsep
    · exact .of_strictPrefix hsep hsplit hsegs ((h _).mp (List.prefix_refl _))
  · intro h cs
    exact h.strictPrefix_iff hsep hsplit cs

/-- The flat lists of the first segments. -/
def IsFlatBeginning (sep : List α) (segs : List (List α)) (cs : List α) : Prop :=
  ∃ k, 0 < k ∧ k < segs.length ∧ cs = sep.intercalate (segs.take k)

theorem isFlatBeginning_of_strictPrefix (hsplit : ∀ cs, Splits sep cs (split cs)) {cs : List α}
    (h : StrictPrefix (split cs) segs) : IsFlatBeginning sep segs cs := by
  obtain ⟨hlength, htake⟩ := strictPrefix_iff_take.mp h
  refine ⟨(split cs).length, List.length_pos_iff.mpr (hsplit cs).ne_nil, hlength, ?_⟩
  rw [← htake, (hsplit cs).intercalate_eq]

/-- The beginnings' flat lists are the lists whose parts begin the segments, exactly when
each of them is such a list. -/
theorem forall_flatBeginning_iff (hsplit : ∀ cs, Splits sep cs (split cs)) :
    (∀ cs, IsFlatBeginning sep segs cs ↔ StrictPrefix (split cs) segs) ↔
      ∀ k, 0 < k → k < segs.length →
        StrictPrefix (split (sep.intercalate (segs.take k))) segs := by
  constructor
  · intro h k hpos hk
    exact (h _).mp ⟨k, hpos, hk, rfl⟩
  · intro h cs
    constructor
    · rintro ⟨k, hpos, hk, rfl⟩
      exact h k hpos hk
    · exact isFlatBeginning_of_strictPrefix hsplit

/-- The first segments are found in their flat list. -/
theorem FoundBefore.split_take (hsep : sep ≠ []) (hsplit : ∀ cs, Splits sep cs (split cs))
    (h : FoundBefore sep split segs) {k : Nat} (hpos : 0 < k) (hk : k ≤ segs.length) :
    split (sep.intercalate (segs.take k)) = segs.take k := by
  have hwhole := hsplit (sep.intercalate segs ++ sep)
  rw [h] at hwhole
  have htake := hwhole.take hsep hpos
  rw [List.take_append_of_le_length hk] at htake
  exact (hsplit _).unique htake

theorem FoundBefore.overlaps_iff (hsep : sep ≠ []) (hsplit : ∀ cs, Splits sep cs (split cs))
    (h : FoundBefore sep split segs) (cs : List α) :
    (IsFlatBeginning sep segs cs ∨ cs = sep.intercalate segs ∨ sep.intercalate segs ++ sep <+: cs) ↔
      Comparable (split cs) segs := by
  have hpos : 0 < segs.length := List.length_pos_iff.mpr (h.ne_nil hsep hsplit)
  have hall := h.split_take hsep hsplit hpos le_rfl
  rw [List.take_length] at hall
  rw [h.strictPrefix_iff hsep hsplit]
  constructor
  · rintro (⟨k, hk, hlt, rfl⟩ | rfl | hbegins)
    · rw [h.split_take hsep hsplit hk hlt.le]
      exact .inr (.inl (strictPrefix_take hlt))
    · exact .inl hall
    · exact .inr (.inr hbegins)
  · rintro (hsame | hbegins | hbegins)
    · rw [← hsame, (hsplit cs).intercalate_eq]
      exact .inr (.inl rfl)
    · exact .inl (isFlatBeginning_of_strictPrefix hsplit hbegins)
    · exact .inr (.inr hbegins)

/-- All three together are the lists whose parts are comparable with the segments, exactly
when the segments are found before the separator. -/
theorem forall_overlaps_iff [Nontrivial α] (hsep : sep ≠ [])
    (hsplit : ∀ cs, Splits sep cs (split cs)) :
    (∀ cs, (IsFlatBeginning sep segs cs ∨ cs = sep.intercalate segs ∨
        sep.intercalate segs ++ sep <+: cs) ↔ Comparable (split cs) segs) ↔
      FoundBefore sep split segs := by
  constructor
  · intro h
    by_cases hsegs : segs = []
    · subst hsegs
      -- Every list is comparable with no segments, but only some are selected.
      obtain ⟨first, more, rfl⟩ := List.exists_cons_of_ne_nil hsep
      obtain ⟨other, hother⟩ := exists_ne first
      have hselected := (h [other]).mpr (.inr (.inr (strictPrefix_nil.mpr (hsplit _).ne_nil)))
      obtain ⟨k, _, hk, _⟩ | hnil | ⟨after, hbegins⟩ := hselected
      · simp at hk
      · cases hnil
      · simp at hbegins
        exact absurd hbegins.1.symm hother
    · have hlonger : ∀ {cs qs : List α} (after : List α), cs = qs ++ sep ++ after → cs ≠ qs := by
        rintro cs qs after rfl hsame
        have hlength := congrArg List.length hsame
        have hpos : 0 < sep.length := List.length_pos_iff.mpr hsep
        rw [List.length_append, List.length_append] at hlength
        omega
      refine .of_strictPrefix hsep hsplit hsegs ?_
      have hflat := (hsplit (sep.intercalate segs ++ sep)).intercalate_eq
      obtain hsame | hbegins | hbegins := (h _).mp (.inr (.inr (List.prefix_refl _)))
      · rw [hsame] at hflat
        exact absurd hflat.symm (hlonger [] (List.append_nil _).symm)
      · obtain ⟨after, hafter⟩ := exists_intercalate_of_strictPrefix (hsplit _).ne_nil hbegins
        rw [hflat, List.append_assoc] at hafter
        exact absurd rfl (hlonger (sep ++ after) hafter)
      · exact hbegins
  · intro h cs
    exact h.overlaps_iff hsep hsplit cs

end Separated

/-! ## An empty separator -/

section Elements

variable {α : Type*} {segs : List (List α)}

/-- Each element of a list, as a segment. -/
def elements (cs : List α) : List (List α) :=
  cs.map fun c => [c]

theorem flatten_elements (cs : List α) : (elements cs).flatten = cs := by
  induction cs with
  | nil => rfl
  | cons c cs ih =>
      rw [elements, List.map_cons, List.flatten_cons, ← elements, ih, List.singleton_append]

theorem elements_append (cs ds : List α) : elements (cs ++ ds) = elements cs ++ elements ds :=
  List.map_append

/-- Segments that begin the elements of a list are elements of their flat list. -/
theorem eq_elements_of_append {rest : List (List α)} {cs : List α}
    (h : elements cs = segs ++ rest) : segs = elements segs.flatten ∧ rest = elements rest.flatten := by
  obtain ⟨first, more, rfl, rfl, rfl⟩ := List.map_eq_append_iff.mp h
  exact ⟨congrArg elements (flatten_elements first).symm,
    congrArg elements (flatten_elements more).symm⟩

/-- The flat list with an element after it begins the lists whose elements the segments
begin, exactly when the segments are elements. -/
theorem forall_element_after_iff [Nonempty α] :
    (∀ cs : List α, (∃ c after, cs = segs.flatten ++ c :: after) ↔ StrictPrefix segs (elements cs)) ↔
      elements segs.flatten = segs := by
  constructor
  · intro h
    obtain ⟨c⟩ := ‹Nonempty α›
    obtain ⟨rest, -, hrest⟩ := (h (segs.flatten ++ [c])).mp ⟨c, [], rfl⟩
    exact (eq_elements_of_append hrest).1.symm
  · intro h cs
    constructor
    · rintro ⟨c, after, rfl⟩
      exact ⟨elements (c :: after), List.cons_ne_nil _ _, by rw [elements_append, h]⟩
    · rintro ⟨rest, hrest, hcs⟩
      have hflat := congrArg List.flatten hcs
      rw [flatten_elements, List.flatten_append] at hflat
      cases hafter : rest.flatten with
      | nil =>
          have hnone := (eq_elements_of_append hcs).2
          rw [hafter] at hnone
          exact absurd hnone hrest
      | cons c after => exact ⟨c, after, by rw [hflat, hafter]⟩

/-- The flat list itself is one that it begins, but no longer than itself. -/
theorem not_forall_flatten_prefix_iff :
    ¬ ∀ cs : List α, segs.flatten <+: cs ↔ StrictPrefix segs (elements cs) := by
  intro h
  obtain ⟨rest, hrest, hparts⟩ := (h segs.flatten).mp (List.prefix_refl _)
  have hflat := congrArg List.flatten hparts
  rw [flatten_elements, List.flatten_append] at hflat
  have hnone := (eq_elements_of_append hparts).2
  rw [List.append_right_eq_self.mp hflat.symm] at hnone
  exact hrest hnone

/-- The flat lists of the first segments, no segments among them. -/
def IsElementBeginning (segs : List (List α)) (cs : List α) : Prop :=
  ∃ k < segs.length, cs = (segs.take k).flatten

theorem isElementBeginning_of_strictPrefix {cs : List α} (h : StrictPrefix (elements cs) segs) :
    IsElementBeginning segs cs := by
  obtain ⟨hlength, htake⟩ := strictPrefix_iff_take.mp h
  exact ⟨(elements cs).length, hlength, by rw [← htake, flatten_elements]⟩

theorem forall_elementBeginning_iff :
    (∀ cs : List α, IsElementBeginning segs cs ↔ StrictPrefix (elements cs) segs) ↔
      ∀ k < segs.length, StrictPrefix (elements (segs.take k).flatten) segs := by
  constructor
  · intro h k hk
    exact (h _).mp ⟨k, hk, rfl⟩
  · intro h cs
    constructor
    · rintro ⟨k, hk, rfl⟩
      exact h k hk
    · exact isElementBeginning_of_strictPrefix

/-- All three together are the lists whose elements are comparable with the segments,
exactly when the segments are elements. -/
theorem forall_element_overlaps_iff [Nonempty α] :
    (∀ cs : List α, (IsElementBeginning segs cs ∨ cs = segs.flatten ∨ segs.flatten <+: cs) ↔
        Comparable (elements cs) segs) ↔ elements segs.flatten = segs := by
  constructor
  · intro h
    obtain ⟨c⟩ := ‹Nonempty α›
    -- One element more is not a beginning of the segments, so that the segments begin it.
    have hafter := (h (segs.flatten ++ [c])).mp (.inr (.inr (List.prefix_append ..)))
    have hlonger : ∀ rest : List (List α), segs ≠ elements (segs.flatten ++ [c]) ++ rest := by
      intro rest heq
      have hflat := congrArg (List.length ∘ List.flatten) heq
      simp [flatten_elements] at hflat
    obtain hsame | ⟨rest, -, heq⟩ | ⟨rest, -, heq⟩ := hafter
    · exact absurd (hsame.symm.trans (List.append_nil _).symm) (hlonger [])
    · exact absurd heq (hlonger rest)
    · exact (eq_elements_of_append heq).1.symm
  · intro h cs
    constructor
    · rintro (⟨k, hk, rfl⟩ | rfl | ⟨after, rfl⟩)
      · have hparts : elements segs.flatten = segs.take k ++ segs.drop k :=
          h.trans (List.take_append_drop k segs).symm
        have htake := eq_elements_of_append hparts
        rw [← htake.1]
        exact .inr (.inl (strictPrefix_take hk))
      · exact .inl h
      · rw [elements_append, h]
        by_cases hafter : after = []
        · exact .inl (by rw [hafter]; exact List.append_nil _)
        · exact .inr (.inr ⟨elements after, by simpa [elements] using hafter, rfl⟩)
    · rintro (hsame | hbegins | ⟨rest, hrest, heq⟩)
      · exact .inr (.inl (by rw [← hsame, flatten_elements]))
      · exact .inl (isElementBeginning_of_strictPrefix hbegins)
      · have hflat := congrArg List.flatten heq
        rw [flatten_elements, List.flatten_append] at hflat
        exact .inr (.inr ⟨rest.flatten, hflat.symm⟩)

theorem intercalate_nil_eq_flatten (segs : List (List α)) : ([] : List α).intercalate segs = segs.flatten := by
  induction segs with
  | nil => rfl
  | cons s segs ih =>
      cases segs with
      | nil => simp
      | cons s' segs => rw [List.intercalate_cons_cons, ih, List.append_nil]; rfl

/-- The elements of a list do not begin with an empty segment. -/
theorem elements_ne_nil_cons {cs : List α} {rest : List (List α)} : elements cs ≠ [] :: rest := by
  cases cs <;> simp [elements]

/-- An empty list of first segments is missing from the beginnings, where the first segment
is not empty itself. -/
theorem forall_flatBeginning_elements_iff :
    (∀ cs : List α, IsFlatBeginning [] segs cs ↔ StrictPrefix (elements cs) segs) ↔
      (∀ k, 0 < k → k < segs.length → StrictPrefix (elements (segs.take k).flatten) segs) ∧
        (segs = [] ∨ ∃ rest, rest ≠ [] ∧ segs = [] :: rest) := by
  have hempty : (segs ≠ [] → IsFlatBeginning [] segs []) ↔
      (segs = [] ∨ ∃ rest, rest ≠ [] ∧ segs = [] :: rest) := by
    cases segs with
    | nil => simp
    | cons s rest =>
        simp only [ne_eq, reduceCtorEq, not_false_eq_true, true_implies, List.cons.injEq, false_or]
        constructor
        · rintro ⟨k, hpos, hk, hflat⟩
          obtain ⟨n, rfl⟩ : ∃ n, k = n + 1 := ⟨k - 1, by omega⟩
          rw [intercalate_nil_eq_flatten, List.take_succ_cons, List.flatten_cons] at hflat
          refine ⟨rest, ?_, (List.append_eq_nil_iff.mp hflat.symm).1, rfl⟩
          rintro rfl
          simp at hk
        · rintro ⟨_, hrest, rfl, rfl⟩
          have hpos : 0 < rest.length := List.length_pos_iff.mpr hrest
          exact ⟨1, Nat.one_pos, by rw [List.length_cons]; omega, rfl⟩
  rw [← hempty]
  constructor
  · intro h
    refine ⟨fun k hpos hk => (h _).mp ⟨k, hpos, hk, (intercalate_nil_eq_flatten _).symm⟩, ?_⟩
    intro hsegs
    exact (h []).mpr (strictPrefix_nil.mpr hsegs)
  · rintro ⟨hlisted, hnone⟩ cs
    constructor
    · rintro ⟨k, hpos, hk, rfl⟩
      rw [intercalate_nil_eq_flatten]
      exact hlisted k hpos hk
    · intro h
      by_cases hcs : cs = []
      · subst hcs
        exact hnone (strictPrefix_nil.mp h)
      · obtain ⟨hlength, htake⟩ := strictPrefix_iff_take.mp h
        refine ⟨(elements cs).length, ?_, hlength, ?_⟩
        · rw [elements, List.length_map]
          exact List.length_pos_iff.mpr hcs
        · rw [← htake, intercalate_nil_eq_flatten, flatten_elements]

/-- Without the empty list of first segments only no segments at all are left. -/
theorem forall_flat_overlaps_elements_iff [Nonempty α] :
    (∀ cs : List α, (IsFlatBeginning [] segs cs ∨ cs = segs.flatten ∨ segs.flatten <+: cs) ↔
        Comparable (elements cs) segs) ↔ segs = [] := by
  constructor
  · intro h
    obtain ⟨c⟩ := ‹Nonempty α›
    by_contra hsegs
    have hfirst : ∃ rest, segs = [] :: rest := by
      obtain ⟨s, rest, rfl⟩ := List.exists_cons_of_ne_nil hsegs
      have hnone : s = [] := by
        obtain ⟨k, hpos, -, hflat⟩ | hflat | hflat :=
          (h []).mpr (.inr (.inl (strictPrefix_nil.mpr hsegs)))
        · obtain ⟨n, rfl⟩ : ∃ n, k = n + 1 := ⟨k - 1, by omega⟩
          rw [intercalate_nil_eq_flatten, List.take_succ_cons, List.flatten_cons] at hflat
          exact (List.append_eq_nil_iff.mp hflat.symm).1
        · exact (List.append_eq_nil_iff.mp hflat.symm).1
        · exact (List.append_eq_nil_iff.mp (List.prefix_nil.mp hflat)).1
      exact ⟨rest, by rw [hnone]⟩
    obtain ⟨rest, rfl⟩ := hfirst
    -- A list with an element is not comparable with the segments, but their flat list is.
    have hshort : ∀ cs : List α, Comparable (elements cs) ([] :: rest) → cs = [] := by
      rintro cs (heq | ⟨more, -, heq⟩ | ⟨more, -, heq⟩)
      · exact absurd heq elements_ne_nil_cons
      · cases cs with
        | nil => rfl
        | cons d cs => simp [elements] at heq
      · exact absurd heq elements_ne_nil_cons
    have hflat := hshort _ ((h _).mp (.inr (.inl rfl)))
    have hlonger := hshort [c] ((h [c]).mp (.inr (.inr (by rw [hflat]; exact List.nil_prefix))))
    cases hlonger
  · rintro rfl cs
    refine iff_of_true (.inr (.inr List.nil_prefix)) ?_
    by_cases hcs : cs = []
    · exact .inl (by rw [hcs]; rfl)
    · refine .inr (.inr (strictPrefix_nil.mpr ?_))
      simpa [elements] using hcs

end Elements

end QueryPlanAdapters
