import QueryPlanAdapters.Convex.Engine

/-!
# Convex: one JSON value, stored and read

The database and the evaluator each hold a JSON value in a representation of
their own. The two representations have the same paths and the same equality,
and they are ordered alike wherever CEL orders them at all.
-/

namespace QueryPlanAdapters.Convex

/-! ## Paths -/

def Json.getPart (json : Option Json) (part : String) : Option Json :=
  match json with
  | some (.object fields) => fields.lookup part
  | _ => none

/-- The value at a dotted path of a JSON value. -/
def Json.getPath (json : Json) (path : String) : Option Json :=
  (pathParts path).foldl getPart (some json)

theorem lookup_map_snd {α β : Type} (f : α → β) (key : String) (fields : List (String × α)) :
    (fields.map fun field => (field.1, f field.2)).lookup key = (fields.lookup key).map f := by
  induction fields with
  | nil => rfl
  | cons field fields ih =>
      rw [List.map_cons, List.lookup_cons, List.lookup_cons]
      cases h : key == field.1 <;> simp [ih]

theorem StoredValue.ofJsonFields_eq_map (fields : List (String × Json)) :
    ofJsonFields fields = fields.map fun field => (field.1, ofJson field.2) := by
  induction fields with
  | nil => rfl
  | cons field fields ih => simp [ofJsonFields, ih]

theorem lookup_ofJsonFields_read (key : String) (fields : List (String × Json)) :
    (Value.ofJsonFields fields).lookup key = (fields.lookup key).map .ofJson := by
  rw [Value.ofJsonFields_eq_map, lookup_map_snd]

theorem lookup_ofJsonFields_stored (key : String) (fields : List (String × Json)) :
    (StoredValue.ofJsonFields fields).lookup key = (fields.lookup key).map .ofJson := by
  rw [StoredValue.ofJsonFields_eq_map, lookup_map_snd]

/-- The evaluator's reading of a value that may be absent. -/
def readJson (json : Option Json) : Outcome :=
  match json with
  | some v => .value (.ofJson v)
  | none => .error

/-- The database's reading of a value that may be absent. -/
def storedJson (json : Option Json) : StoredValue :=
  (json.map .ofJson).getD .undefined

theorem getField_readJson (json : Option Json) (part : String) :
    getField (readJson json) part = readJson (Json.getPart json part) := by
  cases json with
  | none => rfl
  | some json =>
      cases json with
      | object fields =>
          simp only [readJson, Value.ofJson, getField, Json.getPart, lookup_ofJsonFields_read]
          cases fields.lookup part <;> rfl
      | null | bool | number | string | array => rfl

theorem getPart_storedJson (json : Option Json) (part : String) :
    (storedJson json).getPart part = storedJson (Json.getPart json part) := by
  cases json with
  | none => rfl
  | some json =>
      cases json with
      | object fields =>
          simp [storedJson, StoredValue.ofJson, StoredValue.getPart, Json.getPart,
            lookup_ofJsonFields_stored]
      | null | bool | number | string | array => rfl

/-- The evaluator reads what stands at a path, or has the missing-attribute error. -/
theorem getNestedValue_ofJson (json : Json) (path : String) :
    getNestedValue (.value (.ofJson json)) path = readJson (Json.getPath json path) := by
  suffices h : ∀ (parts : List String) (start : Option Json),
      parts.foldl getField (readJson start) = readJson (parts.foldl Json.getPart start) from
    h (pathParts path) (some json)
  intro parts
  induction parts with
  | nil => intro start; rfl
  | cons part parts ih =>
      intro start
      rw [List.foldl_cons, List.foldl_cons, ← ih, getField_readJson]

/-- The database reads what stands at a path, or `undefined`. -/
theorem getPath_ofJson (json : Json) (path : String) :
    (StoredValue.ofJson json).getPath path = storedJson (Json.getPath json path) := by
  suffices h : ∀ (parts : List String) (start : Option Json),
      parts.foldl StoredValue.getPart (storedJson start) =
        storedJson (parts.foldl Json.getPart start) from h (pathParts path) (some json)
  intro parts
  induction parts with
  | nil => intro start; rfl
  | cons part parts ih =>
      intro start
      rw [List.foldl_cons, List.foldl_cons, ← ih, getPart_storedJson]

/-! ## Equality -/

mutual

/-- Structural equality in the database is CEL's equality of JSON values. -/
theorem same_ofJson : ∀ a b : Json,
    (StoredValue.ofJson a).same (.ofJson b) = (Value.ofJson a).valuesEqual (.ofJson b)
  | .array as, .array bs => sameItems_ofJson as bs
  | .object as, .object bs => by
      have hkeys : ∀ fields : List (String × Json),
          (StoredValue.ofJsonFields fields).map Prod.fst =
            (Value.ofJsonFields fields).map Prod.fst := by
        intro fields
        simp [StoredValue.ofJsonFields_eq_map, Value.ofJsonFields_eq_map]
      simp only [StoredValue.ofJson, Value.ofJson, StoredValue.same, Value.valuesEqual,
        Value.sortKeys, hkeys, sameFields_ofJson as bs []]
      rfl
  | .null, b => by cases b <;> rfl
  | .bool _, b => by cases b <;> rfl
  | .number _, b => by cases b <;> rfl
  | .string _, b => by cases b <;> rfl
  | .array _, .null | .array _, .bool _ | .array _, .number _ | .array _, .string _
  | .array _, .object _ => rfl
  | .object _, .null | .object _, .bool _ | .object _, .number _ | .object _, .string _
  | .object _, .array _ => rfl

theorem sameItems_ofJson : ∀ as bs : List Json,
    StoredValue.sameItems (StoredValue.ofJsonList as) (StoredValue.ofJsonList bs) =
      Value.elementsEqual (Value.ofJsonList as) (Value.ofJsonList bs)
  | [], [] | [], _ :: _ | _ :: _, [] => rfl
  | a :: as, b :: bs => by
      simp only [StoredValue.ofJsonList, Value.ofJsonList, StoredValue.sameItems,
        Value.elementsEqual, same_ofJson a b, sameItems_ofJson as bs]

theorem sameFields_ofJson : ∀ (as bs : List (String × Json)) (seen : List String),
    StoredValue.sameFields (StoredValue.ofJsonFields as) (StoredValue.ofJsonFields bs) seen =
      Value.fieldsEqual (Value.ofJsonFields as) (Value.ofJsonFields bs) seen
  | [], _, _ => rfl
  | (key, a) :: as, bs, seen => by
      have htail := sameFields_ofJson as bs (key :: seen)
      have hhead := same_ofJson a
      simp only [StoredValue.ofJsonFields, Value.ofJsonFields, StoredValue.sameFields,
        Value.fieldsEqual, htail, lookup_ofJsonFields_stored, lookup_ofJsonFields_read]
      cases bs.lookup key with
      | none => rfl
      | some b => simp only [Option.map_some, hhead b]

end

/-! ## Ordering -/

section Comparisons

variable (inner : StoredValue → StoredValue → Bool) (doc : StoredValue)

/-- Whether an ordering of two JSON values has an answer in CEL. -/
def sameOrderedType : Json → Json → Bool
  | .number _, .number _ | .bool _, .bool _ | .string _, .string _ => true
  | _, _ => false

/-- The value of a JSON value is never a NaN. -/
theorem isNaN_ofJson (json : Json) : (Value.ofJson json).isNaN = false := by
  cases json with
  | number n => exact Double.isNaN_eq_false_of_isFinite n.isFinite
  | _ => rfl

theorem sameOrderedType_comm (v w : Json) : sameOrderedType v w = sameOrderedType w v := by
  cases v <;> cases w <;> rfl

/-- Across types, and over null, lists and maps, CEL has no ordering. -/
theorem compareValues_of_not_sameOrderedType {operator : ComparisonOperator} {v w : Json}
    (hordering : operator.isOrdering = true) (h : sameOrderedType v w = false) :
    compareValues operator (.value (.ofJson v)) (.value (.ofJson w)) = .error := by
  have hkeys : orderingKeys (.ofJson v) (.ofJson w) = none := by
    cases v <;> cases w <;> first | rfl | contradiction
  cases operator <;> first | contradiction | simp [compareValues, isNaN_ofJson, hkeys]

/-- The guard confines the field to the literal's type. -/
theorem holds_sameTypeAs {v literal : Json} {guard : StoredValue}
    (h : sameTypeAs (engine inner doc) literal (.expr (.ofJson v)) = some guard) :
    guard.holds = sameOrderedType v literal := by
  cases literal with
  | null | array items | object fields => simp [sameTypeAs] at h
  | number n =>
      obtain rfl := Option.some.inj h
      cases v with
      | bool b => cases b <;> rfl
      | _ => rfl
  | bool b =>
      obtain rfl := Option.some.inj h
      cases v with
      | bool b' => cases b' <;> rfl
      | _ => rfl
  | string s =>
      obtain rfl := Option.some.inj h
      cases v with
      | string s' =>
          have hempty : compareCodePoints s'.toList [] < 0 ↔ False := by
            cases s'.toList <;> simp [compareCodePoints]
          simp [engine, FilterArg.stored, StoredValue.ofJson, StoredValue.lt, StoredValue.typeRank,
            StoredValue.ltSameType, StoredValue.holds, sameOrderedType, hempty]
      | _ => rfl

/-- The database orders two values of one ordered type by CEL's keys. -/
theorem lt_ofJson_of_sameOrderedType {v w : Json} (h : sameOrderedType v w = true) :
    ∃ a b, orderingKeys (.ofJson v) (.ofJson w) = some (a, b) ∧ a.isFinite ∧ b.isFinite ∧
      (StoredValue.ofJson v).lt inner (.ofJson w) = a.lt b ∧
      (StoredValue.ofJson w).lt inner (.ofJson v) = b.lt a := by
  cases v <;> cases w <;> try contradiction
  case bool.bool a b =>
    refine ⟨_, _, rfl, rfl, rfl, ?_, ?_⟩
    · show (!a && b) = decide ((a.toNat : ℚ) < b.toNat)
      revert a b
      decide
    · show (!b && a) = decide ((b.toNat : ℚ) < a.toNat)
      revert a b
      decide
  case number.number a b => exact ⟨_, _, rfl, a.isFinite, b.isFinite, rfl, rfl⟩
  case string.string a b =>
    have hneg := compareCodePoints_neg a.toList b.toList
    refine ⟨_, _, rfl, rfl, rfl, ?_, ?_⟩
    · simp [StoredValue.ofJson, StoredValue.lt, StoredValue.typeRank, StoredValue.ltSameType]
    · simp [StoredValue.ofJson, StoredValue.lt, StoredValue.typeRank, StoredValue.ltSameType, hneg]

/-- Past the guard the database's ordering is CEL's. -/
theorem holds_compare_of_sameOrderedType {operator : ComparisonOperator} {v literal : Json}
    (hordering : operator.isOrdering = true) (h : sameOrderedType v literal = true) :
    (compareValues operator (.value (.ofJson v)) (.value (.ofJson literal))).asBoolean =
      .ofBool ((engine inner doc).compare operator (.expr (.ofJson v)) (.json literal)).holds := by
  obtain ⟨a, b, hkeys, ha, hb, hlt, hgt⟩ := lt_ofJson_of_sameOrderedType inner h
  have htest : compareValues operator (.value (.ofJson v)) (.value (.ofJson literal)) =
      .value (.bool (operator.test a b)) := by
    cases operator <;> first | contradiction | simp [compareValues, isNaN_ofJson, hkeys]
  rw [htest]
  cases operator with
  | eq | ne => contradiction
  | lt => exact congrArg Truth.ofBool hlt.symm
  | gt => exact congrArg Truth.ofBool hgt.symm
  | le => exact congrArg Truth.ofBool ((Double.le_eq_not_lt ha hb).trans (congrArg not hgt.symm))
  | ge => exact congrArg Truth.ofBool ((Double.le_eq_not_lt hb ha).trans (congrArg not hlt.symm))

/-- A comparison of a literal with a field is the mirrored comparison of the field
with the literal. -/
theorem compare_mirrored (operator : ComparisonOperator) (v w : Json)
    (h : operator.isOrdering = true) :
    (engine inner doc).compare operator (.expr (.ofJson v)) (.json w) =
      (engine inner doc).compare operator.mirrored (.expr (.ofJson w)) (.json v) := by
  cases operator <;> first | contradiction | rfl

end Comparisons

end QueryPlanAdapters.Convex
