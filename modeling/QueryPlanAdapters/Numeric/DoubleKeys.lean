import QueryPlanAdapters.Numeric.Exact
import Mathlib.Algebra.Order.Field.Basic
import Mathlib.Algebra.Order.Field.Power
import Mathlib.Data.Int.ConditionallyCompleteOrder
import Mathlib.Order.Monotone.Basic
import Mathlib.Tactic.Linarith
import Mathlib.Tactic.Positivity

/-!
# The keys of the finite doubles

A finite double is read off the 64 bits that store it, and the magnitude of these bits
with their sign is an integer key. The keys from that of the least finite double to
that of the greatest count the finite doubles in their order, the two zeros as one.
-/

namespace Double

/-- The magnitude of a finite double that is stored in these bits. -/
def keyValue (bits : Nat) : ℚ :=
  let exponent : Nat := bits / 2 ^ 52
  let significand : Nat := (if exponent = 0 then 0 else 2 ^ 52) + bits % 2 ^ 52
  significand * 2 ^ (max (exponent : ℤ) 1 - 1075)

/-- The double that 64 bits store. -/
def ofBits (bits : Nat) : Double :=
  let isNegative := bits / 2 ^ 63 % 2 = 1
  let magnitude := bits % 2 ^ 63
  if magnitude / 2 ^ 52 = 2047 then
    if magnitude % 2 ^ 52 ≠ 0 then nan else if isNegative then negInf else posInf
  else if isNegative then if keyValue magnitude = 0 then negZero else finite (-keyValue magnitude)
  else finite (keyValue magnitude)

/-- The double of an integer key. -/
def fromKey (key : Int) : Double :=
  ofBits (if key < 0 then (-key).toNat + 2 ^ 63 else key.toNat)

/-- The key of `Number.MAX_VALUE`. -/
def maxKey : Int := 0x7FEFFFFFFFFFFFFF

def minKey : Int := -maxKey

example : fromKey maxKey = finite ((2 ^ 53 - 1) * 2 ^ 971) := by decide +kernel

/-- A finite double: that of a key, or the other zero. -/
def IsStored (d : Double) : Prop :=
  d = negZero ∨ ∃ key, minKey ≤ key ∧ key ≤ maxKey ∧ d = fromKey key

/-! ## The magnitudes grow -/

theorem keyValue_lt_succ (bits : Nat) : keyValue bits < keyValue (bits + 1) := by
  simp only [keyValue]
  by_cases hlast : bits % 2 ^ 52 = 2 ^ 52 - 1
  · -- The next binade begins where its predecessor's significands end.
    have hexponent : (bits + 1) / 2 ^ 52 = bits / 2 ^ 52 + 1 := by omega
    have hsignificand : (bits + 1) % 2 ^ 52 = 0 := by omega
    rw [hexponent, hsignificand, hlast, if_neg (Nat.succ_ne_zero _)]
    by_cases hzero : bits / 2 ^ 52 = 0
    · rw [hzero, if_pos rfl]
      norm_num
    · have hmax : max ((bits / 2 ^ 52 : ℕ) : ℤ) 1 = (bits / 2 ^ 52 : ℕ) := by omega
      have hmaxSucc : max ((bits / 2 ^ 52 + 1 : ℕ) : ℤ) 1 - 1075 =
          ((bits / 2 ^ 52 : ℕ) : ℤ) - 1075 + 1 := by omega
      rw [if_neg hzero, hmax, hmaxSucc, zpow_add_one₀ two_ne_zero]
      have hulp : (0 : ℚ) < 2 ^ (((bits / 2 ^ 52 : ℕ) : ℤ) - 1075) := by positivity
      generalize (2 : ℚ) ^ (((bits / 2 ^ 52 : ℕ) : ℤ) - 1075) = ulp at hulp ⊢
      push_cast
      linarith
  · have hexponent : (bits + 1) / 2 ^ 52 = bits / 2 ^ 52 := by omega
    have hsignificand : (bits + 1) % 2 ^ 52 = bits % 2 ^ 52 + 1 := by omega
    rw [hexponent, hsignificand]
    have hulp : (0 : ℚ) < 2 ^ (max ((bits / 2 ^ 52 : ℕ) : ℤ) 1 - 1075) := by positivity
    apply mul_lt_mul_of_pos_right _ hulp
    exact_mod_cast Nat.lt_succ_self _

theorem keyValue_strictMono : StrictMono keyValue :=
  strictMono_nat_of_lt_succ keyValue_lt_succ

@[simp] theorem keyValue_zero : keyValue 0 = 0 := by
  simp [keyValue]

theorem keyValue_pos {bits : Nat} (h : 0 < bits) : 0 < keyValue bits :=
  keyValue_zero ▸ keyValue_strictMono h

/-! ## The order of the keys -/

/-- The rational of a key. -/
def keyRat (key : Int) : ℚ :=
  if key < 0 then -keyValue (-key).toNat else keyValue key.toNat

theorem keyRat_strictMono : StrictMono keyRat := by
  intro a b h
  rw [keyRat, keyRat]
  split
  next ha =>
    split
    next hb => exact neg_lt_neg (keyValue_strictMono (by omega))
    next hb =>
      calc -keyValue (-a).toNat < 0 := neg_neg_of_pos (keyValue_pos (by omega))
        _ ≤ keyValue b.toNat := keyValue_zero ▸ keyValue_strictMono.monotone (Nat.zero_le _)
  next ha =>
    rw [if_neg (by omega)]
    exact keyValue_strictMono (by omega)

@[simp] theorem keyRat_zero : keyRat 0 = 0 := by
  simp [keyRat]

theorem keyRat_neg (key : Int) : keyRat (-key) = -keyRat key := by
  rw [keyRat, keyRat, neg_neg]
  obtain hneg | rfl | hpos := lt_trichotomy key 0
  · rw [if_pos hneg, if_neg (by omega), neg_neg]
  · simp
  · rw [if_pos (by omega), if_neg (by omega)]

/-- Between the least and the greatest key, a key is that of a finite double. -/
theorem hasValue_fromKey {key : Int} (hlow : minKey ≤ key) (hhigh : key ≤ maxKey) :
    (fromKey key).HasValue (keyRat key) := by
  simp only [minKey, maxKey] at hlow hhigh
  rw [fromKey, keyRat]
  split
  next hneg =>
    have hmagnitude : ((-key).toNat + 2 ^ 63) % 2 ^ 63 = (-key).toNat := by omega
    have hsign : ((-key).toNat + 2 ^ 63) / 2 ^ 63 % 2 = 1 := by omega
    have hexponent : ¬ (-key).toNat / 2 ^ 52 = 2047 := by omega
    have hnonzero : ¬ keyValue (-key).toNat = 0 := (keyValue_pos (by omega)).ne'
    simp only [ofBits, hmagnitude, hsign, if_neg hexponent, if_neg hnonzero, if_true]
    exact ⟨rfl, rfl⟩
  next hpos =>
    have hmagnitude : key.toNat % 2 ^ 63 = key.toNat := by omega
    have hsign : ¬ key.toNat / 2 ^ 63 % 2 = 1 := by omega
    have hexponent : ¬ key.toNat / 2 ^ 52 = 2047 := by omega
    simp only [ofBits, hmagnitude, if_neg hsign, if_neg hexponent]
    exact ⟨rfl, rfl⟩

theorem minKey_le_maxKey : minKey ≤ maxKey := by
  decide

/-- The key of a finite double. -/
theorem IsStored.exists_key {d : Double} (h : IsStored d) :
    ∃ key, minKey ≤ key ∧ key ≤ maxKey ∧ d.HasValue (keyRat key) := by
  obtain rfl | ⟨key, hlow, hhigh, rfl⟩ := h
  · exact ⟨0, by decide, by decide, rfl, keyRat_zero.symm⟩
  · exact ⟨key, hlow, hhigh, hasValue_fromKey hlow hhigh⟩

end Double
