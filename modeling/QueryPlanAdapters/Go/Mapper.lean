import QueryPlanAdapters.Cel.Conversion

/-!
# Go: resolving plan references onto storage

A plan reference resolves to an entry: a column, a relation that reaches another
table, or a column read through a to-one hop. Resolution is fail-closed. The
mapper of a translation is built from the caller's: guarded against qualifiers
that collide with generated aliases, stamped with the resource table, and scoped
once for each lambda around a reference.
-/

namespace QueryPlanAdapters.Go

/-- A value of the plan. A number the planner shipped is finite, one folded out of
constants may not be. -/
abbrev Literal := PlanValue Double

abbrev Node := Operand Double

/-! ## Refusals -/

/-- An argument of an error's format. -/
inductive FormatArgument where
  | string (s : String)
  | int (n : Nat)
  | float (d : Double)
  | value (v : Literal)

inductive Failure where
  | errorf (format : String) (arguments : List FormatArgument)
  /-- The model's own bound on the recursion, which the code does not have. -/
  | outOfFuel

def errorf {μ : Type → Type} [MonadExcept Failure μ] {α : Type} (format : String)
    (arguments : List FormatArgument) : μ α :=
  throw (.errorf format arguments)

/-! ## Entries -/

inductive RestrictOp where
  | eq | ne | isNull | isNotNull | «in» | notIn
  deriving DecidableEq, Repr

/-- A value the caller declares. -/
inductive Declared where
  | literal (v : Literal)
  | time (nanos : Int)

/-- A predicate on the rows a relation's subquery may see. -/
structure Restriction where
  value : Declared
  column : String
  values : List Declared
  op : RestrictOp

inductive ValueType where
  | default | timestamp | bool | string | number
  deriving DecidableEq, Repr

inductive NullConvention where
  | unset | explicit | omitted
  deriving DecidableEq, Repr

/-- One intermediate table of a flattened relation chain. -/
structure Hop where
  table : String
  childColumn : String
  joinColumn : String
  subqueryFilter : List Restriction

mutual

/-- How a collection- or object-valued attribute reaches another table. -/
structure Relation where
  field : Option Entry
  fields : List (String × Entry)
  table : String
  sourceColumn : String
  targetColumn : String
  via : List Hop
  subqueryFilter : List Restriction

/-- What a plan reference resolves to. -/
structure Entry where
  relation : Option Relation
  scalarRelation : Option Relation
  column : String
  qualifier : String
  valueType : ValueType
  nullConvention : NullConvention

end

/-! ## Mappers -/

structure Mapper where
  resolve : String → Option Entry

/-- The names of generated subquery aliases begin with this. -/
def aliasPrefix : String := "cerbos_rel_"

def aliasOf (n : Nat) : String :=
  aliasPrefix ++ toString n

/-- Reject a qualifier that could collide with a generated alias. -/
def guardedMapper (parent : Mapper) : Mapper where
  resolve reference :=
    match parent.resolve reference with
    | some entry => if startsWithText entry.qualifier aliasPrefix then none else some entry
    | none => none

/-- Stamp the resource table onto every entry that names no qualifier. -/
def rootMapper (parent : Mapper) (table : String) : Mapper where
  resolve reference :=
    (parent.resolve reference).map fun entry =>
      if entry.qualifier = "" then { entry with qualifier := table } else entry

/-- What follows a prefix of a text. -/
def cutPrefix (s start : String) : Option String :=
  if startsWithText s start then some (String.ofList (s.toList.drop start.toList.length)) else none

/-- Resolve a lambda's references against the elements of the collection it ranges
over, and everything else in the enclosing mapper. -/
def scopedMapper (parent : Mapper) (relation : Relation) (name aliasName : String) : Mapper where
  resolve reference :=
    if reference = name then
      relation.field.map fun entry => { entry with qualifier := aliasName }
    else
      match cutPrefix reference (name ++ ".") with
      | some field =>
          (relation.fields.lookup field).map fun entry => { entry with qualifier := aliasName }
      | none => parent.resolve reference

/-- Resolve a reference that must name a collection. -/
def requireRelation (m : Mapper) (reference : String) : Except Failure (Relation × String) :=
  match m.resolve reference with
  | none => errorf "no mapping for collection attribute %q" [.string reference]
  | some entry =>
      match entry.relation, entry.scalarRelation with
      | some rel, _ => .ok (rel, entry.qualifier)
      | none, some _ =>
          errorf ("attribute %q is a to-one relation, one joined row, but is used as a " ++
            "collection: a CEL macro over a map ranges over its keys, and SQL has no form for " ++
            "the set of a row's present columns") [.string reference]
      | none, none =>
          errorf ("attribute %q is mapped to a column but is used as a collection; map it as " ++
            "a relation") [.string reference]

/-- The relation a node's variable maps to, with the qualifier of its parent row. -/
def relationFor (m : Mapper) : Node → Option (Relation × String)
  | .var reference =>
      (m.resolve reference).bind fun entry =>
        entry.relation.map fun rel => (rel, entry.qualifier)
  | _ => none

/-! ## Aliases -/

variable {k n : Nat} {parent : Mapper}

theorem startsWithText_append (a b : String) : startsWithText (a ++ b) a = true := by
  simp [startsWithText]

theorem aliasOf_inj : aliasOf n = aliasOf k ↔ n = k := by
  refine ⟨fun h => ?_, fun h => congrArg _ h⟩
  have hdigits : Nat.toDigits 10 n = Nat.toDigits 10 k :=
    String.ofList_injective ((String.append_right_inj _).mp h)
  rw [← @Nat.ofDigitChars_ten_toDigits n, hdigits, Nat.ofDigitChars_ten_toDigits]

theorem aliasOf_ne_of_lt (h : n < k) : aliasOf n ≠ aliasOf k := by
  rw [Ne, aliasOf_inj]
  omega

/-- No entry of the mapper is read from an alias generated after the first `n`. -/
def Mapper.avoidsAliases (m : Mapper) (n : Nat) : Prop :=
  ∀ reference entry, m.resolve reference = some entry → ∀ k, n < k → entry.qualifier ≠ aliasOf k

theorem Mapper.avoidsAliases.mono {m : Mapper} (h : m.avoidsAliases n) (hnk : n ≤ k) :
    m.avoidsAliases k :=
  fun reference entry hentry j hj => h reference entry hentry j (hnk.trans_lt hj)

/-- Nothing a guarded mapper resolves over an unreserved table is read from an alias. -/
theorem rootMapper_qualifier_ne {table reference : String} {entry : Entry}
    (htable : startsWithText table aliasPrefix = false)
    (hentry : (rootMapper (guardedMapper parent) table).resolve reference = some entry) (k : Nat) :
    entry.qualifier ≠ aliasOf k := by
  have hne : ∀ qualifier, startsWithText qualifier aliasPrefix = false → ∀ k,
      qualifier ≠ aliasOf k := by
    rintro _ hstart k rfl
    rw [aliasOf, startsWithText_append] at hstart
    cases hstart
  simp only [rootMapper, guardedMapper, Option.map_eq_some_iff] at hentry
  obtain ⟨declared, hdeclared, rfl⟩ := hentry
  split
  · exact hne _ htable k
  · split at hdeclared
    · split at hdeclared
      · cases hdeclared
      · rename_i hguard
        obtain rfl := Option.some.inj hdeclared
        exact hne _ (by simpa using hguard) k
    · cases hdeclared

/-- A guarded mapper over an unreserved table avoids every alias. -/
theorem avoidsAliases_rootMapper {table : String}
    (htable : startsWithText table aliasPrefix = false) (n : Nat) :
    (rootMapper (guardedMapper parent) table).avoidsAliases n :=
  fun _ _ hentry k _ => rootMapper_qualifier_ne htable hentry k

/-- A scope whose alias was generated already avoids the later ones. -/
theorem avoidsAliases_scopedMapper {relation : Relation} {name : String}
    (h : parent.avoidsAliases n) (hk : k ≤ n) :
    (scopedMapper parent relation name (aliasOf k)).avoidsAliases n := by
  intro reference entry hentry j hj
  have hfresh : aliasOf k ≠ aliasOf j := aliasOf_ne_of_lt (hk.trans_lt hj)
  simp only [scopedMapper] at hentry
  split at hentry
  · obtain ⟨field, -, rfl⟩ := Option.map_eq_some_iff.mp hentry
    exact hfresh
  · split at hentry
    · obtain ⟨field, -, rfl⟩ := Option.map_eq_some_iff.mp hentry
      exact hfresh
    · exact h reference entry hentry j hj

end QueryPlanAdapters.Go
