import QueryPlanAdapters.Cel.Text
import QueryPlanAdapters.Logic.Truth
import Mathlib.Data.List.Sort

/-!
# Evaluated values

The in-memory evaluators of the Convex and ChromaDB adapters hold their operands
as JavaScript values. An evaluation either yields a value or the evaluation error
that CEL propagates. The definitions here are those the two adapters' `cel.ts`
copies share.
-/

namespace QueryPlanAdapters

/-- A value an evaluator can hold. A number is a CEL double or a safe-range CEL
int; an int beyond the safe range is a `bigint`. The Convex evaluator also holds
a timestamp as a `bigint`, the ChromaDB one as a class of its own. -/
inductive Value where
  | null
  | bool (b : Bool)
  | number (d : Double)
  | bigint (n : Int)
  | string (s : String)
  | array (items : List Value)
  | record (fields : List (String × Value))
  | timestamp (nanos : Int)
  | duration (nanos : Int)
  | hierarchy (segments : List String)
  /-- What a plain object inherits under this name: neither a scalar nor a record. -/
  | inherited (member : String)

/-- A value, or CEL's evaluation error. -/
inductive Outcome where
  | value (v : Value)
  | error

namespace Value

mutual

/-- A JSON value as the evaluator reads it. -/
def ofJson : Json → Value
  | .null => null
  | .bool b => bool b
  | .number n => number n.value
  | .string s => string s
  | .array items => array (ofJsonList items)
  | .object fields => record (ofJsonFields fields)

def ofJsonList : List Json → List Value
  | [] => []
  | item :: items => ofJson item :: ofJsonList items

def ofJsonFields : List (String × Json) → List (String × Value)
  | [] => []
  | (key, field) :: fields => (key, ofJson field) :: ofJsonFields fields

end

theorem ofJsonList_eq_map (items : List Json) : ofJsonList items = items.map ofJson := by
  induction items with
  | nil => rfl
  | cons item items ih => simp [ofJsonList, ih]

theorem ofJsonFields_eq_map (fields : List (String × Json)) :
    ofJsonFields fields = fields.map fun field => (field.1, ofJson field.2) := by
  induction fields with
  | nil => rfl
  | cons field fields ih => simp [ofJsonFields, ih]

/-- The exact number a double or an int denotes; JavaScript compares a bigint
with a number without rounding either. -/
def toNumeric : Value → Option Double
  | number d => some d
  | bigint n => some (.finite n)
  | _ => none

def isNaN : Value → Bool
  | number d => d.isNaN
  | _ => false

/-- `Object.keys(value).sort()`. -/
def sortKeys (fields : List (String × Value)) : List String :=
  (fields.map Prod.fst).insertionSort (· ≤ ·)

mutual

/-- CEL's heterogeneous equality: numbers compare by value, anything else by type. -/
def valuesEqual : (left right : Value) → Bool
  | number a, number b => a.eq b
  | number a, bigint b => a.eq (.finite b)
  | bigint a, number b => Double.eq (.finite a) b
  | bigint a, bigint b => Double.eq (.finite a) (.finite b)
  | timestamp a, timestamp b => a = b
  | duration a, duration b => a = b
  | hierarchy a, hierarchy b => a = b
  | array as, array bs => elementsEqual as bs
  | record as, record bs => sortKeys as = sortKeys bs && fieldsEqual as bs []
  | null, null => true
  | bool a, bool b => a = b
  | string a, string b => a = b
  | inherited a, inherited b => a = b
  | _, _ => false

def elementsEqual : List Value → List Value → Bool
  | [], [] => true
  | a :: as, b :: bs => valuesEqual a b && elementsEqual as bs
  | _, _ => false

/-- Every field of the left record equals the right record's field of that key.
Of several fields under one key the first is read. -/
def fieldsEqual : List (String × Value) → List (String × Value) → (seen : List String) → Bool
  | [], _, _ => true
  | (key, a) :: as, bs, seen =>
      (seen.contains key ||
        match bs.lookup key with
        | some b => valuesEqual a b
        | none => false) && fieldsEqual as bs (key :: seen)

end

/-- Structural induction, with one hypothesis for each member of a container. -/
theorem induction {motive : Value → Prop}
    (array : ∀ items, (∀ item ∈ items, motive item) → motive (.array items))
    (record : ∀ fields, (∀ field ∈ fields, motive field.2) → motive (.record fields))
    (scalar : ∀ v, (∀ items, v ≠ .array items) → (∀ fields, v ≠ .record fields) → motive v) :
    ∀ v, motive v
  | .array items => array items fun item _ => induction array record scalar item
  | .record fields => record fields fun field _ => induction array record scalar field.2
  | .null => scalar _ nofun nofun
  | .bool _ => scalar _ nofun nofun
  | .number _ => scalar _ nofun nofun
  | .bigint _ => scalar _ nofun nofun
  | .string _ => scalar _ nofun nofun
  | .timestamp _ => scalar _ nofun nofun
  | .duration _ => scalar _ nofun nofun
  | .hierarchy _ => scalar _ nofun nofun
  | .inherited _ => scalar _ nofun nofun
termination_by v => v
decreasing_by
  · decreasing_tactic
  · rename_i h
    have := List.sizeOf_lt_of_mem h
    cases field
    simp_wf
    simp at this ⊢
    omega

theorem lookup_cons_of_ne {key key' : String} (h : key' ≠ key) (v : Value)
    (fields : List (String × Value)) : ((key, v) :: fields).lookup key' = fields.lookup key' := by
  rw [List.lookup_cons, beq_eq_false_iff_ne.mpr h]

theorem mem_of_lookup {key : String} {v : Value} {fields : List (String × Value)}
    (h : fields.lookup key = some v) : (key, v) ∈ fields := by
  obtain ⟨before, after, rfl, -⟩ := List.lookup_eq_some_iff.mp h
  simp

theorem fieldsEqual_eq_true_iff {as bs : List (String × Value)} {seen : List String} :
    fieldsEqual as bs seen = true ↔
      ∀ key a, key ∉ seen → as.lookup key = some a →
        ∃ b, bs.lookup key = some b ∧ valuesEqual a b = true := by
  induction as generalizing seen with
  | nil => simp [fieldsEqual]
  | cons field as ih =>
      obtain ⟨key, a⟩ := field
      rw [fieldsEqual, Bool.and_eq_true, ih]
      constructor
      · rintro ⟨hhead, htail⟩ key' a' hseen hlookup
        by_cases hkey : key' = key
        · subst hkey
          obtain rfl : a = a' := by simpa using hlookup
          cases hb : bs.lookup key' with
          | none => simp [hseen, hb] at hhead
          | some b => exact ⟨b, rfl, by simpa [hseen, hb] using hhead⟩
        · refine htail key' a' (by simp [hkey, hseen]) ?_
          rwa [lookup_cons_of_ne hkey] at hlookup
      · intro h
        refine ⟨?_, fun key' a' hseen hlookup => ?_⟩
        · by_cases hseen : key ∈ seen
          · simp [hseen]
          · obtain ⟨b, hb, hab⟩ := h key a hseen (by simp)
            simp [hb, hab]
        · obtain ⟨hkey, hseen⟩ := not_or.mp (List.mem_cons.not.mp hseen)
          refine h key' a' hseen ?_
          rwa [lookup_cons_of_ne hkey]

theorem mem_sortKeys {fields : List (String × Value)} {key : String} :
    key ∈ sortKeys fields ↔ ∃ v, fields.lookup key = some v := by
  rw [sortKeys, List.mem_insertionSort]
  induction fields with
  | nil => simp
  | cons field fields ih =>
      obtain ⟨key', v⟩ := field
      rw [List.map_cons, List.mem_cons, ih]
      by_cases h : key = key'
      · simp [h]
      · rw [lookup_cons_of_ne h]
        simp [h]

/-- Equality does not depend on the order of its operands. -/
theorem valuesEqual_comm (left right : Value) :
    valuesEqual left right = valuesEqual right left := by
  induction left using Value.induction generalizing right with
  | array as ih =>
      cases right with
      | array bs =>
          rw [valuesEqual, valuesEqual]
          induction as generalizing bs with
          | nil => cases bs <;> rfl
          | cons a as ihs =>
              cases bs with
              | nil => rfl
              | cons b bs =>
                  rw [elementsEqual, elementsEqual, ih a List.mem_cons_self b,
                    ihs (fun item h => ih item (List.mem_cons_of_mem _ h)) bs]
      | _ => rfl
  | record as ih =>
      cases right with
      | record bs =>
          rw [valuesEqual, valuesEqual, Bool.eq_iff_iff]
          simp only [Bool.and_eq_true, decide_eq_true_eq, fieldsEqual_eq_true_iff,
            List.not_mem_nil, not_false_eq_true, forall_const]
          constructor
          · rintro ⟨hkeys, hfields⟩
            refine ⟨hkeys.symm, fun key b hb => ?_⟩
            obtain ⟨a, ha⟩ := mem_sortKeys.mp (hkeys ▸ mem_sortKeys.mpr ⟨b, hb⟩)
            obtain ⟨b', hb', hab⟩ := hfields key a ha
            obtain rfl := Option.some.inj (hb.symm.trans hb')
            exact ⟨a, ha, (ih _ (mem_of_lookup ha) b) ▸ hab⟩
          · rintro ⟨hkeys, hfields⟩
            refine ⟨hkeys.symm, fun key a ha => ?_⟩
            obtain ⟨b, hb⟩ := mem_sortKeys.mp (hkeys ▸ mem_sortKeys.mpr ⟨a, ha⟩)
            obtain ⟨a', ha', hba⟩ := hfields key b hb
            obtain rfl := Option.some.inj (ha.symm.trans ha')
            exact ⟨b, hb, (ih _ (mem_of_lookup ha) b).symm ▸ hba⟩
      | _ => rfl
  | scalar v harray hrecord =>
      cases v with
      | array items => exact absurd rfl (harray items)
      | record fields => exact absurd rfl (hrecord fields)
      | number a => cases right <;> simp [valuesEqual, Double.eq_swap]
      | bigint a => cases right <;> simp [valuesEqual, Double.eq_swap]
      | _ => cases right <;> simp [valuesEqual, eq_comm]

end Value

namespace Outcome

/-- A boolean stays itself; everything else is an error in a boolean position. -/
def asBoolean : Outcome → Truth
  | value (.bool b) => .ofBool b
  | _ => .unknown

/-- The boolean or the error a truth value stands for. -/
def ofTruth : Truth → Outcome
  | .yes => value (.bool true)
  | .no => value (.bool false)
  | .unknown => error

def isError : Outcome → Bool
  | error => true
  | _ => false

@[simp] theorem asBoolean_ofTruth (t : Truth) : (ofTruth t).asBoolean = t := by
  cases t <;> rfl

theorem asBoolean_eq_yes_iff {o : Outcome} : o.asBoolean = .yes ↔ o = value (.bool true) := by
  cases o with
  | error => simp [asBoolean]
  | value v => cases v <;> simp [asBoolean]

theorem asBoolean_eq_no_iff {o : Outcome} : o.asBoolean = .no ↔ o = value (.bool false) := by
  cases o with
  | error => simp [asBoolean]
  | value v => cases v <;> simp [asBoolean]

end Outcome

/-! ## Reading paths -/

/-- One step of a dotted path: a record's own field, or the missing-attribute error. -/
def getField : Outcome → String → Outcome
  | .value (.record fields), part =>
      match fields.lookup part with
      | some v => .value v
      | none => .error
  | _, _ => .error

/-- Read a dotted path; an absent key at any level is CEL's missing-attribute error. -/
def getNestedValue (object : Outcome) (path : String) : Outcome :=
  (pathParts path).foldl getField object

/-! ## Comparison -/

inductive ComparisonOperator where
  | eq | ne | lt | le | gt | ge
  deriving DecidableEq, Repr

namespace ComparisonOperator

/-- The operator's spelling on the wire. -/
def name : ComparisonOperator → String
  | eq => "eq" | ne => "ne" | lt => "lt" | le => "le" | gt => "gt" | ge => "ge"

/-- `5 < x` is `x > 5`: the comparison that holds once the operands are swapped. -/
def mirrored : ComparisonOperator → ComparisonOperator
  | eq => eq
  | ne => ne
  | lt => gt
  | le => ge
  | gt => lt
  | ge => le

/-- Whether the operator is an ordering, rather than an (in)equality. -/
def isOrdering : ComparisonOperator → Bool
  | eq | ne => false
  | lt | le | gt | ge => true

/-- The comparison's JavaScript operator over two numbers. -/
def test (a b : Double) : ComparisonOperator → Bool
  | eq => a.eq b
  | ne => !a.eq b
  | lt => a.lt b
  | le => a.le b
  | gt => b.lt a
  | ge => b.le a

end ComparisonOperator

theorem test_of_isFinite (op : ComparisonOperator) {a b : Double} (ha : a.isFinite = true)
    (hb : b.isFinite = true) : op.test a b = op.test (.finite a.toRat) (.finite b.toRat) := by
  cases op <;>
    simp [ComparisonOperator.test, Double.lt_of_isFinite, Double.eq_of_isFinite,
      Double.le_of_isFinite, ha, hb]

/-- The comparison a plan operator stands for. -/
def comparisonOperator : PlanOperator → Option ComparisonOperator
  | .eq => some .eq
  | .ne => some .ne
  | .lt => some .lt
  | .le => some .le
  | .gt => some .gt
  | .ge => some .ge
  | _ => none

/-- The pair of numbers an ordering reduces to: strings by code point, bools with
false before true, numbers by value, temporal values by their nanoseconds. -/
def orderingKeys : Value → Value → Option (Double × Double)
  | .string a, .string b => some (.finite (compareCodePoints a.toList b.toList), .finite 0)
  | .bool a, .bool b => some (.finite a.toNat, .finite b.toNat)
  | .timestamp a, .timestamp b => some (.finite a, .finite b)
  | .duration a, .duration b => some (.finite a, .finite b)
  | a, b =>
      match a.toNumeric, b.toNumeric with
      | some a, some b => some (a, b)
      | _, _ => none

/-- CEL's comparisons over two outcomes. -/
def compareValues (operator : ComparisonOperator) : (left right : Outcome) → Outcome
  | .value left, .value right =>
      match operator with
      | .eq => .value (.bool (left.valuesEqual right))
      | .ne => .value (.bool (!left.valuesEqual right))
      | operator =>
          if left.isNaN || right.isNaN then .value (.bool false)
          else match orderingKeys left right with
            | some (a, b) => .value (.bool (operator.test a b))
            | none => .error
  | _, _ => .error

/-- A comparison read the other way around, within one type. -/
theorem test_mirrored (operator : ComparisonOperator) (a b : Double) :
    operator.mirrored.test b a = operator.test a b := by
  cases operator <;> simp [ComparisonOperator.mirrored, ComparisonOperator.test, Double.eq_swap]

theorem orderingKeys_swap (operator : ComparisonOperator) (left right : Value) :
    (orderingKeys right left).map (fun keys => operator.mirrored.test keys.1 keys.2) =
      (orderingKeys left right).map fun keys => operator.test keys.1 keys.2 := by
  cases left <;> cases right <;> simp only [orderingKeys, Value.toNumeric, Option.map_some,
    Option.map_none, test_mirrored]
  case string.string a b =>
    have hneg := compareCodePoints_neg a.toList b.toList
    rw [← test_mirrored operator, hneg]
    cases operator <;> simp [ComparisonOperator.mirrored, ComparisonOperator.test]

/-! ## Hierarchies -/

/-- The first hierarchy's segments are a proper beginning of the second's. -/
def isStrictAncestor (ancestor descendent : List String) : Bool :=
  ancestor.length < descendent.length && ancestor.isPrefixOf descendent

/-- The shorter hierarchy's segments begin the longer one's, equal included. -/
def hierarchiesOverlap (left right : List String) : Bool :=
  if left.length ≤ right.length then left.isPrefixOf right else right.isPrefixOf left

end QueryPlanAdapters
