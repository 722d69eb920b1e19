import Mathlib.Algebra.Order.Ring.Int

/-!
# Bisection over the integers

The loop that halves an interval whose upper end satisfies a test. It ends on an
integer that satisfies the test and whose predecessor in the interval does not, which
is the least of all when the test holds upwards from any integer it holds on.
-/

/-- `while (low < high) { … }`, the upper end moved down to a middle that satisfies the test,
the lower end moved past one that does not. -/
def searchLeast (holds : Int → Bool) (low high : Int) : Int :=
  if low < high then
    let mid := low + (high - low).tdiv 2
    if holds mid then searchLeast holds low mid else searchLeast holds (mid + 1) high
  else low
termination_by (high - low).toNat
decreasing_by
  · rw [Int.tdiv_eq_ediv_of_nonneg (by omega)]
    omega
  · rw [Int.tdiv_eq_ediv_of_nonneg (by omega)]
    omega

section Search

variable {holds : Int → Bool} {low high : Int}

/-- What the loop ends on, whatever the test is below. -/
structure IsEdge (holds : Int → Bool) (low high found : Int) : Prop where
  low_le : low ≤ found
  le_high : found ≤ high
  holds_found : holds found = true
  before : found = low ∨ holds (found - 1) = false

theorem isEdge_searchLeast (hle : low ≤ high) (hhigh : holds high = true) :
    IsEdge holds low high (searchLeast holds low high) := by
  have hmiddle : ∀ {low high : Int}, low < high →
      low ≤ low + (high - low).tdiv 2 ∧ low + (high - low).tdiv 2 < high := by
    intro low high hlt
    rw [Int.tdiv_eq_ediv_of_nonneg (by omega)]
    omega
  fun_induction searchLeast holds low high with
  | case1 low high hlt mid hmid ih =>
      obtain ⟨hlow, hupper⟩ := hmiddle hlt
      obtain ⟨hfrom, hupto, hfound, hbefore⟩ := ih hlow hmid
      exact ⟨hfrom, Int.le_trans hupto (Int.le_of_lt hupper), hfound, hbefore⟩
  | case2 low high hlt mid hmid ih =>
      obtain ⟨hlow, hupper⟩ := hmiddle hlt
      obtain ⟨hfrom, hupto, hfound, hbefore⟩ := ih (by omega) hhigh
      refine ⟨by omega, hupto, hfound, ?_⟩
      right
      obtain hfirst | hbefore := hbefore
      · rw [hfirst, Int.add_sub_cancel]
        simpa using hmid
      · exact hbefore
  | case3 low high hlt =>
      obtain rfl : low = high := by omega
      exact ⟨Int.le_refl low, Int.le_refl low, hhigh, .inl rfl⟩

/-- Of a test that holds upwards, the loop finds the threshold. -/
theorem holds_iff_searchLeast_le (hle : low ≤ high) (hhigh : holds high = true)
    (hup : ∀ a b, low ≤ a → a ≤ b → b ≤ high → holds a = true → holds b = true)
    {k : Int} (hlow : low ≤ k) (hupper : k ≤ high) :
    holds k = true ↔ searchLeast holds low high ≤ k := by
  obtain ⟨hfrom, hupto, hfound, hbefore⟩ := isEdge_searchLeast hle hhigh
  constructor
  · intro hk
    by_contra hlt
    obtain hfirst | hbefore := hbefore
    · omega
    · rw [hup k _ hlow (by omega) (by omega) hk] at hbefore
      cases hbefore
  · intro hk
    exact hup _ k hfrom hk hupper hfound

end Search
