import QueryPlanAdapters.Cel.CodeUnits
import QueryPlanAdapters.Cel.Value

/-!
# ChromaDB: comparisons

The post-filter's `compareValues` departs from the Convex evaluator's: a hierarchy
beside anything else has no equality, and the types other than the numbers are
ordered before a NaN is looked for. Both order strings by code point.
-/

namespace QueryPlanAdapters

namespace Chroma

/-- `value instanceof CelHierarchy`. -/
def isHierarchy : Value → Bool
  | .hierarchy _ => true
  | _ => false

/-- The pair of numbers that an ordering within a type other than the numbers
reduces to. -/
def typedKeys : Value → Value → Option (Double × Double)
  | .string a, .string b => some (.finite (compareCodePoints a.toList b.toList), .finite 0)
  | .bool a, .bool b => some (.finite a.toNat, .finite b.toNat)
  | .timestamp a, .timestamp b => some (.finite a, .finite b)
  | .duration a, .duration b => some (.finite a, .finite b)
  | _, _ => none

def compareValues (operator : ComparisonOperator) : (left right : Outcome) → Outcome
  | .value left, .value right =>
      if operator.isOrdering then
        match typedKeys left right with
        | some (a, b) => .value (.bool (operator.test a b))
        | none =>
            if left.isNaN || right.isNaN then .value (.bool false)
            else match left.toNumeric, right.toNumeric with
              | some a, some b => .value (.bool (operator.test a b))
              | _, _ => .error
      else if isHierarchy left ≠ isHierarchy right then .error
      else
        let equal := left.valuesEqual right
        .value (.bool (if operator = .eq then equal else !equal))
  | _, _ => .error

end Chroma

/-! ## The order of strings -/

/-- The in-memory evaluators that order strings by code point. -/
inductive Evaluator where
  | convex | chroma
  deriving DecidableEq, Repr

def Evaluator.compareValues : Evaluator → ComparisonOperator → Outcome → Outcome → Outcome
  | convex => QueryPlanAdapters.compareValues
  | chroma => Chroma.compareValues

/-- What an operator says of two elements of a linear order. -/
def ComparisonOperator.holds {α : Type} [LinearOrder α] (a b : α) : ComparisonOperator → Bool
  | eq => a = b
  | ne => a ≠ b
  | lt => a < b
  | le => a ≤ b
  | gt => b < a
  | ge => b ≤ a

theorem ComparisonOperator.holds_congr {α β : Type} [LinearOrder α] [LinearOrder β] {a b : α}
    {c d : β} (hlt : a < b ↔ c < d) (hgt : b < a ↔ d < c) (operator : ComparisonOperator) :
    operator.holds a b = operator.holds c d := by
  have heq : a = b ↔ c = d := by
    rw [le_antisymm_iff, le_antisymm_iff, ← not_lt (a := a), ← not_lt (a := b), hlt, hgt, not_lt,
      not_lt]
  have hle : a ≤ b ↔ c ≤ d := by rw [← not_lt, hgt, not_lt]
  have hge : b ≤ a ↔ d ≤ c := by rw [← not_lt, hlt, not_lt]
  cases operator <;> simp only [holds, ne_eq, hlt, hgt, heq, hle, hge]

/-- The numbers that a sign is compared as say what the order says. -/
theorem test_orderSign {α : Type} [LinearOrder α] (operator : ComparisonOperator) (a b : α) :
    operator.test (.finite (orderSign a b)) (.finite 0) = operator.holds a b := by
  have hlt : ((orderSign a b : Int) : ℚ) < 0 ↔ a < b := by
    rw [Int.cast_lt_zero, orderSign_lt_zero_iff]
  have hgt : (0 : ℚ) < (orderSign a b : Int) ↔ b < a := by
    rw [Int.cast_pos, zero_lt_orderSign_iff]
  have heq : ((orderSign a b : Int) : ℚ) = 0 ↔ a = b := by
    rw [Int.cast_eq_zero, orderSign_eq_zero_iff]
  have hle : ((orderSign a b : Int) : ℚ) ≤ 0 ↔ a ≤ b := by
    rw [← not_lt, hgt, not_lt]
  have hge : (0 : ℚ) ≤ (orderSign a b : Int) ↔ b ≤ a := by
    rw [← not_lt, hlt, not_lt]
  cases operator <;>
    simp only [ComparisonOperator.test, ComparisonOperator.holds, Double.lt_finite,
      Double.eq_finite, Double.le_finite, hlt, hgt, heq, hle, hge, ne_eq, decide_not]

/-- The string as an evaluator holds it. -/
def Utf16String.value (t : Utf16String) : Outcome :=
  .value (.string t.text)

theorem compareCodePoints_text (a b : Utf16String) :
    compareCodePoints a.text.toList b.text.toList = a.units.compareCodePoints b.units := by
  rw [compareCodePoints_eq_orderSign, CodeUnits.compareCodePoints_eq]
  apply orderSign_congr
  · rw [← map_toNat_lt_iff, Utf16String.map_toNat_text, Utf16String.map_toNat_text]
    rfl
  · rw [String.toList_inj, Utf16String.text_inj]
    rfl

/-- The UTF-8 bytes of two strings stand in the order of their code points. -/
theorem utf8Bytes_lt_iff {a b : Utf16String} :
    utf8Bytes a.text < utf8Bytes b.text ↔ a.codePoints < b.codePoints := by
  have hcode : ∀ c, utf8Code c ≠ [] := fun c h =>
    String.utf8EncodeChar_ne_nil (List.map_eq_nil_iff.mp h)
  rw [utf8Bytes_eq, utf8Bytes_eq, flatMap_lt_flatMap_iff hcode fun _ _ => utf8Code_partsBelow,
    ← map_toNat_lt_iff, Utf16String.map_toNat_text, Utf16String.map_toNat_text]

theorem valuesEqual_text {a b : Utf16String} :
    Value.valuesEqual (.string a.text) (.string b.text) = true ↔ a.codePoints = b.codePoints := by
  rw [Value.valuesEqual, decide_eq_true_eq, Utf16String.text_inj]

/-- A comparison of two strings says what the order of their code points says. -/
theorem Evaluator.compareValues_text (evaluator : Evaluator) (operator : ComparisonOperator)
    (a b : Utf16String) :
    evaluator.compareValues operator a.value b.value =
      .value (.bool (operator.holds a.codePoints b.codePoints)) := by
  have htest : operator.test (.finite (compareCodePoints a.text.toList b.text.toList)) (.finite 0) =
      operator.holds a.codePoints b.codePoints := by
    rw [compareCodePoints_text, CodeUnits.compareCodePoints_eq, test_orderSign]
    rfl
  have hequal : Value.valuesEqual (.string a.text) (.string b.text) =
      decide (a.codePoints = b.codePoints) := by
    rw [Bool.eq_iff_iff, valuesEqual_text, decide_eq_true_eq]
  cases evaluator <;> cases operator
  case convex.eq | convex.ne | chroma.eq | chroma.ne =>
    simp [Evaluator.compareValues, QueryPlanAdapters.compareValues, Chroma.compareValues,
      Chroma.isHierarchy, Utf16String.value, ComparisonOperator.isOrdering,
      ComparisonOperator.holds, hequal]
  all_goals
    rw [← htest]
    rfl

/-- One string stands at or before another. -/
def Evaluator.atOrBefore (evaluator : Evaluator) (a b : Utf16String) : Prop :=
  evaluator.compareValues .le a.value b.value = .value (.bool true)

theorem Evaluator.atOrBefore_iff {evaluator : Evaluator} {a b : Utf16String} :
    evaluator.atOrBefore a b ↔ a.codePoints ≤ b.codePoints := by
  rw [Evaluator.atOrBefore, Evaluator.compareValues_text]
  simp [ComparisonOperator.holds]

/-- The evaluators order strings by code point, which is the order of their UTF-8 bytes
and a total order up to the evaluators' equality. -/
theorem Evaluator.strings_ordered (evaluator : Evaluator) :
    (∀ a b : Utf16String,
      compareCodePoints a.text.toList b.text.toList = a.units.compareCodePoints b.units ∧
        (∀ operator : ComparisonOperator,
          evaluator.compareValues operator a.value b.value =
              .value (.bool (operator.holds a.codePoints b.codePoints)) ∧
            operator.holds a.codePoints b.codePoints =
              operator.holds (utf8Bytes a.text) (utf8Bytes b.text)) ∧
        (Value.valuesEqual (.string a.text) (.string b.text) = true ↔ a.units = b.units)) ∧
      (∀ a b, evaluator.atOrBefore a b ∨ evaluator.atOrBefore b a) ∧
      (∀ a b, evaluator.atOrBefore a b → evaluator.atOrBefore b a →
        Value.valuesEqual (.string a.text) (.string b.text) = true) ∧
      ∀ a b c, evaluator.atOrBefore a b → evaluator.atOrBefore b c → evaluator.atOrBefore a c := by
  refine ⟨fun a b => ⟨compareCodePoints_text a b, fun operator => ⟨?_, ?_⟩, ?_⟩, fun a b => ?_,
    fun a b hab hba => ?_, fun a b c hab hbc => ?_⟩
  · exact evaluator.compareValues_text operator a b
  · exact operator.holds_congr utf8Bytes_lt_iff.symm utf8Bytes_lt_iff.symm
  · rw [valuesEqual_text]
    exact CodeUnits.codePoints_injective
  · rw [Evaluator.atOrBefore_iff, Evaluator.atOrBefore_iff]
    exact le_total _ _
  · rw [valuesEqual_text]
    exact le_antisymm (Evaluator.atOrBefore_iff.mp hab) (Evaluator.atOrBefore_iff.mp hba)
  · rw [Evaluator.atOrBefore_iff] at hab hbc ⊢
    exact le_trans hab hbc

/-- U+FF61 stands before U+1F600, whose first code unit is the smaller one. -/
example : CodeUnits.codePoints [0xD83D, 0xDE00] = [0x1F600] ∧
    orderSign (CodeUnits.codePoints [0xFF61]) (CodeUnits.codePoints [0xD83D, 0xDE00]) = -1 := by
  decide

end QueryPlanAdapters
