import Mathlib.Data.List.Lex
import Mathlib.Order.Lattice

/-!
# Lexicographic order through an encoding

An encoding that writes each symbol as a code, so that the codes of two distinct
symbols part at a place where the smaller symbol's code is smaller, keeps the
lexicographic order of sequences. A comparison that answers with a sign answers
with that order's.
-/

namespace QueryPlanAdapters

section Encoding

variable {α β : Type} [LinearOrder α] [LinearOrder β] {code : α → List β}

/-- The two codes part at a place where the first is smaller. -/
def PartsBelow : List β → List β → Prop
  | x :: xs, y :: ys => x < y ∨ x = y ∧ PartsBelow xs ys
  | _, _ => False

theorem PartsBelow.append_lt {xs ys : List β} (h : PartsBelow xs ys) (s t : List β) :
    xs ++ s < ys ++ t := by
  induction xs generalizing ys with
  | nil => cases ys <;> exact h.elim
  | cons x xs ih =>
      cases ys with
      | nil => exact h.elim
      | cons y ys =>
          rw [List.cons_append, List.cons_append, List.cons_lt_cons_iff]
          obtain h | ⟨rfl, h⟩ := h
          · exact .inl h
          · exact .inr ⟨rfl, ih h⟩

theorem flatMap_lt_flatMap (hcode : ∀ a, code a ≠ [])
    (hparts : ∀ a b, a < b → PartsBelow (code a) (code b)) {as bs : List α} (h : as < bs) :
    as.flatMap code < bs.flatMap code := by
  induction as generalizing bs with
  | nil =>
      cases bs with
      | nil => exact absurd h (lt_irrefl _)
      | cons b bs =>
          obtain ⟨x, xs, hx⟩ := List.exists_cons_of_ne_nil (hcode b)
          rw [List.flatMap_nil, List.flatMap_cons, hx, List.cons_append]
          exact List.nil_lt_cons _ _
  | cons a as ih =>
      cases bs with
      | nil => exact absurd h (List.not_lt_nil _)
      | cons b bs =>
          rw [List.flatMap_cons, List.flatMap_cons]
          obtain hab | ⟨rfl, hrest⟩ := List.cons_lt_cons_iff.mp h
          · exact (hparts a b hab).append_lt _ _
          · exact List.append_left_lt (ih hrest)

/-- Two sequences stand in the order of their encodings. -/
theorem flatMap_lt_flatMap_iff (hcode : ∀ a, code a ≠ [])
    (hparts : ∀ a b, a < b → PartsBelow (code a) (code b)) {as bs : List α} :
    as.flatMap code < bs.flatMap code ↔ as < bs := by
  constructor
  · intro h
    by_contra hnot
    obtain rfl | hlt := eq_or_lt_of_le (not_lt.mp hnot)
    · exact lt_irrefl _ h
    · exact lt_asymm h (flatMap_lt_flatMap hcode hparts hlt)
  · exact flatMap_lt_flatMap hcode hparts

end Encoding

section Sign

variable {α : Type} [LinearOrder α]

/-- Negative, zero or positive as `a` stands below, at or above `b`. -/
def orderSign (a b : α) : Int :=
  if a < b then -1 else if a = b then 0 else 1

variable {a b : α}

theorem orderSign_lt_zero_iff : orderSign a b < 0 ↔ a < b := by
  rw [orderSign]
  split
  · exact iff_of_true (by decide) ‹_›
  · exact iff_of_false (by split <;> decide) ‹_›

theorem orderSign_eq_zero_iff : orderSign a b = 0 ↔ a = b := by
  rw [orderSign]
  split
  next h => exact iff_of_false (by decide) h.ne
  next => split <;> simp_all

theorem zero_lt_orderSign_iff : 0 < orderSign a b ↔ b < a := by
  have hsign : ¬ 0 < orderSign a b ↔ orderSign a b < 0 ∨ orderSign a b = 0 := by omega
  rw [← not_iff_not, hsign, orderSign_lt_zero_iff, orderSign_eq_zero_iff, not_lt,
    le_iff_lt_or_eq]

/-- The sign depends on the order only. -/
theorem orderSign_congr {β : Type} [LinearOrder β] {c d : β} (hlt : a < b ↔ c < d)
    (heq : a = b ↔ c = d) : orderSign a b = orderSign c d := by
  by_cases h : a < b
  · rw [orderSign, orderSign, if_pos h, if_pos (hlt.mp h)]
  · rw [orderSign, orderSign, if_neg h, if_neg (mt hlt.mpr h)]
    by_cases h' : a = b
    · rw [if_pos h', if_pos (heq.mp h')]
    · rw [if_neg h', if_neg (mt heq.mpr h')]

variable {as bs : List α}

theorem orderSign_cons_of_ne (h : a ≠ b) : orderSign (a :: as) (b :: bs) = orderSign a b := by
  apply orderSign_congr
  · rw [List.cons_lt_cons_iff]
    simp [h]
  · simp [h]

theorem orderSign_cons_self : orderSign (a :: as) (a :: bs) = orderSign as bs := by
  apply orderSign_congr
  · rw [List.cons_lt_cons_iff]
    simp
  · simp

theorem orderSign_nil_cons : orderSign [] (b :: bs) = -1 :=
  if_pos (List.nil_lt_cons _ _)

theorem orderSign_cons_nil : orderSign (a :: as) [] = 1 := by
  simp [orderSign]

theorem orderSign_self (a : α) : orderSign a a = 0 := by
  simp [orderSign]

end Sign

end QueryPlanAdapters
