import Mathlib.Data.List.Infix

/-!
# Splitting at a separator

The parts of a list between the occurrences of a separator that are found from the
left and do not overlap. When one list of parts begins another is compared with when
one list begins another: a separator that overlaps itself keeps the two apart.
-/

namespace QueryPlanAdapters

variable {α : Type*} {sep : List α}

/-- Whether the separator that follows a part is the first to occur. -/
def UpTo (sep part : List α) : Prop :=
  ∀ k < part.length, ¬ sep <+: (part ++ sep).drop k

/-- A list and its parts. -/
inductive Splits (sep : List α) : List α → List (List α) → Prop
  | last {cs : List α} (h : ¬ sep <:+: cs) : Splits sep cs [cs]
  | step {part rest : List α} {parts : List (List α)} (h : UpTo sep part)
      (hrest : Splits sep rest parts) : Splits sep (part ++ sep ++ rest) (part :: parts)

/-- A list is a beginning of another one, and not all of it. -/
def StrictPrefix {β : Type*} (ps qs : List β) : Prop :=
  ∃ rest, rest ≠ [] ∧ qs = ps ++ rest

theorem strictPrefix_map_iff {β γ : Type*} {f : β → γ} (hf : f.Injective) {ps qs : List β} :
    StrictPrefix (ps.map f) (qs.map f) ↔ StrictPrefix ps qs := by
  constructor
  · rintro ⟨rest, hrest, hparts⟩
    obtain ⟨first, more, rfl, hfirst, hmore⟩ := List.map_eq_append_iff.mp hparts
    obtain rfl := hf.list_map hfirst
    refine ⟨more, ?_, rfl⟩
    rintro rfl
    exact hrest hmore.symm
  · rintro ⟨rest, hrest, rfl⟩
    exact ⟨rest.map f, by simpa using hrest, List.map_append⟩

theorem upTo_nil : UpTo sep [] := by
  intro k hk
  cases hk

/-- A part goes on to its left as long as the separator does not occur there. -/
theorem UpTo.cons {part rest : List α} {c : α} (h : UpTo sep part)
    (hfirst : ¬ sep <+: c :: (part ++ sep ++ rest)) : UpTo sep (c :: part) := by
  intro k hk
  cases k with
  | zero =>
      intro hsep
      apply hfirst
      have hwhole : c :: part ++ sep <+: c :: (part ++ sep ++ rest) := ⟨rest, by simp⟩
      exact hsep.trans hwhole
  | succ k =>
      have hshift : (c :: part ++ sep).drop (k + 1) = (part ++ sep).drop k := rfl
      rw [hshift]
      exact h k (by simpa using hk)

/-- A part holds no separator. -/
theorem UpTo.not_infix {part : List α} (hsep : sep ≠ []) (h : UpTo sep part) :
    ¬ sep <:+: part := by
  rintro ⟨before, after, rfl⟩
  have hlength : 0 < sep.length := List.length_pos_iff.mpr hsep
  apply h before.length (by simp; omega)
  exact ⟨after ++ sep, by simp⟩

/-- The separator found first is found at one place. -/
theorem UpTo.not_lt {part part' rest rest' : List α} (h' : UpTo sep part')
    (heq : part ++ sep ++ rest = part' ++ sep ++ rest') : ¬ part.length < part'.length := by
  intro hlt
  apply h' part.length hlt
  have hleft : sep <+: (part' ++ sep ++ rest').drop part.length := by
    rw [← heq, List.append_assoc, List.drop_left]
    exact List.prefix_append ..
  have hright : (part' ++ sep).drop part.length <+: (part' ++ sep ++ rest').drop part.length := by
    have hle : part.length ≤ (part' ++ sep).length := by
      rw [List.length_append]
      omega
    rw [List.drop_append_of_le_length hle]
    exact List.prefix_append ..
  exact List.prefix_of_prefix_length_le hleft hright (by simp; omega)

namespace Splits

variable {cs cs' : List α} {ps qs : List (List α)}

theorem ne_nil (h : Splits sep cs ps) : ps ≠ [] := by
  cases h <;> simp

/-- The parts give the list back. -/
theorem intercalate_eq (h : Splits sep cs ps) : sep.intercalate ps = cs := by
  induction h with
  | last => exact List.intercalate_singleton
  | @step part rest parts _ hrest ih =>
      obtain ⟨p, more, rfl⟩ := List.exists_cons_of_ne_nil hrest.ne_nil
      rw [List.intercalate_cons_cons, ih]

/-- A list splits in one way. -/
theorem unique (h : Splits sep cs ps) (h' : Splits sep cs qs) : ps = qs := by
  induction h generalizing qs with
  | last hnone =>
      cases h' with
      | last => rfl
      | step => exact absurd ⟨_, _, rfl⟩ hnone
  | @step part rest parts hpart hrest ih =>
      generalize hcs : part ++ sep ++ rest = cs at h'
      cases h' with
      | last hnone => exact absurd ⟨_, _, hcs⟩ hnone
      | @step part' rest' parts' hpart' hrest' =>
          have hlength : part.length = part'.length := by
            have hle := UpTo.not_lt hpart' hcs
            have hge := UpTo.not_lt hpart hcs.symm
            omega
          rw [List.append_assoc, List.append_assoc] at hcs
          obtain ⟨rfl, hrests⟩ := List.append_inj hcs hlength
          obtain rfl := List.append_cancel_left hrests
          rw [ih hrest']

/-- A list goes on to its left as long as the separator does not occur there. -/
theorem cons {part : List α} {c : α} (h : Splits sep cs (part :: ps))
    (hfirst : ¬ sep <+: c :: cs) : Splits sep (c :: cs) ((c :: part) :: ps) := by
  cases h with
  | last hnone =>
      apply Splits.last
      rw [List.infix_cons_iff]
      exact not_or.mpr ⟨hfirst, hnone⟩
  | step hpart hrest => exact Splits.step (hpart.cons hfirst) hrest

/-- The first parts of a list are the parts of its beginning. -/
theorem take (hsep : sep ≠ []) (h : Splits sep cs ps) {count : Nat} (hpos : 0 < count) :
    Splits sep (sep.intercalate (ps.take count)) (ps.take count) := by
  induction h generalizing count with
  | last hnone =>
      obtain ⟨n, rfl⟩ : ∃ n, count = n + 1 := ⟨count - 1, by omega⟩
      rw [List.take_succ_cons, List.take_nil, List.intercalate_singleton]
      exact Splits.last hnone
  | @step part rest parts hpart hrest ih =>
      obtain ⟨n, rfl⟩ : ∃ n, count = n + 1 := ⟨count - 1, by omega⟩
      rw [List.take_succ_cons]
      cases n with
      | zero =>
          rw [List.take_zero, List.intercalate_singleton]
          exact Splits.last (hpart.not_infix hsep)
      | succ n =>
          have hrest' := ih (Nat.succ_pos n)
          obtain ⟨p, more, hmore⟩ := List.exists_cons_of_ne_nil hrest'.ne_nil
          rw [hmore] at hrest' ⊢
          rw [List.intercalate_cons_cons]
          exact Splits.step hpart hrest'

/-- The first parts end at a separator, whatever follows it. -/
theorem separated (h : Splits sep cs (ps ++ qs)) (hps : ps ≠ []) (hqs : qs ≠ []) :
    sep.intercalate ps ++ sep <+: cs ∧
      ∀ after parts, Splits sep after parts →
        Splits sep (sep.intercalate ps ++ sep ++ after) (ps ++ parts) := by
  induction ps generalizing cs with
  | nil => exact absurd rfl hps
  | cons p ps ih =>
      generalize hparts : p :: ps ++ qs = parts at h
      cases h with
      | last => simp [hqs] at hparts
      | @step part rest parts hpart hrest =>
          obtain ⟨rfl, rfl⟩ : p = part ∧ ps ++ qs = parts := by simpa using hparts
          cases ps with
          | nil =>
              rw [List.intercalate_singleton]
              exact ⟨List.prefix_append .., fun after parts hafter => Splits.step hpart hafter⟩
          | cons p' ps =>
              obtain ⟨hbegins, hreplaced⟩ := ih hrest (by simp)
              rw [List.intercalate_cons_cons]
              constructor
              · rw [List.append_assoc]
                exact (List.prefix_append_right_inj _).mpr hbegins
              · intro after parts hafter
                have hstep := Splits.step hpart (hreplaced after parts hafter)
                simpa using hstep

end Splits

section Splitting

variable {split : List α → List (List α)} {cs cs' : List α}

/-- The parts of one list begin those of another one exactly where the list itself, with
the separator put after it, begins the other, and the separator is found there. -/
theorem strictPrefix_split_iff (hsep : sep ≠ []) (hsplit : ∀ cs, Splits sep cs (split cs)) :
    StrictPrefix (split cs) (split cs') ↔
      cs ++ sep <+: cs' ∧ split (cs ++ sep) = split cs ++ [[]] := by
  have htext := (hsplit cs).intercalate_eq
  have hempty : Splits sep [] [[]] := Splits.last (by simpa [List.infix_nil] using hsep)
  constructor
  · rintro ⟨rest, hrest, hparts⟩
    have hwhole := hsplit cs'
    rw [hparts] at hwhole
    obtain ⟨hbegins, hreplaced⟩ := hwhole.separated (hsplit cs).ne_nil hrest
    have hseparated := hreplaced [] [[]] hempty
    rw [htext] at hbegins hseparated
    rw [List.append_nil] at hseparated
    exact ⟨hbegins, (hsplit _).unique hseparated⟩
  · rintro ⟨⟨after, rfl⟩, hseparated⟩
    have hwhole := hsplit (cs ++ sep)
    rw [hseparated] at hwhole
    have hreplaced :=
      (hwhole.separated (hsplit cs).ne_nil (by simp)).2 after (split after) (hsplit after)
    rw [htext] at hreplaced
    exact ⟨split after, (hsplit after).ne_nil, (hsplit _).unique hreplaced⟩

/-- The beginnings of a list at its separators are the lists whose parts begin its own. -/
theorem strictPrefix_iff_exists_take (hsep : sep ≠ [])
    (hsplit : ∀ cs, Splits sep cs (split cs)) :
    StrictPrefix (split cs) (split cs') ↔
      ∃ count, 0 < count ∧ count < (split cs').length ∧
        cs = sep.intercalate ((split cs').take count) := by
  constructor
  · rintro ⟨rest, hrest, hparts⟩
    refine ⟨(split cs).length, List.length_pos_iff.mpr (hsplit cs).ne_nil, ?_, ?_⟩
    · have hpos : 0 < rest.length := List.length_pos_iff.mpr hrest
      rw [hparts, List.length_append]
      omega
    · rw [hparts, List.take_left, (hsplit cs).intercalate_eq]
  · rintro ⟨count, hpos, hlt, rfl⟩
    have htake := (hsplit cs').take hsep hpos
    rw [(hsplit _).unique htake]
    refine ⟨(split cs').drop count, ?_, (List.take_append_drop ..).symm⟩
    rw [Ne, List.drop_eq_nil_iff]
    omega

end Splitting

end QueryPlanAdapters
