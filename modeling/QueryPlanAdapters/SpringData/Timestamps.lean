import QueryPlanAdapters.SpringData.CelDuration
import QueryPlanAdapters.SpringData.Leaves
import QueryPlanAdapters.ActiveRecord.Temporal
import QueryPlanAdapters.Elasticsearch.Instants

/-!
# Spring Data: shifted timestamps and `timeSince()`

A comparison of one timestamp column is solved for the column: a duration moves to the side of
the literal, and `timeSince()` turns into a bound below the clock. The solved comparison is CEL's
when each duration is read as CEL reads it, except that CEL's differences of instants saturate.
-/

namespace QueryPlanAdapters.SpringData

open Sql
open ActiveRecord (TemporalExpression TimestampLiteral)

variable {schema : Schema}

/-! ## Leaves -/

/-- The Java types that denote an absolute instant. -/
def JavaType.isAbsolute (javaType : JavaType) : Bool :=
  javaType = .other "Instant" || javaType = .other "OffsetDateTime"

/-- `getSimpleName()` -/
def JavaType.simpleName : JavaType → String
  | string => "String"
  | boolean => "Boolean"
  | integer => "Integer"
  | long => "Long"
  | double => "Double"
  | other name => name

/-- An instant as the column's Java type, which is bound. -/
def temporalBound (cerbosVar : String) (path : Path) (op : ComparisonOperator) (instant : Int) :
    Except Refusal Expression :=
  if path.javaType.isAbsolute then .ok (.literal (.time instant))
  else .error (.unmapped ("timestamp() comparison requires a column mapped to java.time.Instant " ++
    "or java.time.OffsetDateTime, but '" ++ cerbosVar ++ "' maps to " ++ path.javaType.simpleName ++
    ". Other temporal representations (LocalDateTime, java.util.Date, String) are ambiguous " ++
    "about the absolute instant they store; remap the column or register an OperatorFunction " ++
    "override for '" ++ op.name ++ "'."))

/-- No operator has an override. -/
def timestampLeaf (op : ComparisonOperator) (cerbosVar : String) (instant : Int)
    (scope : Scope schema) : Except Refusal Predicate := do
  let path ← scope.path cerbosVar
  let bound ← temporalBound cerbosVar path op instant
  return .compare op (.path path) bound

/-- `timestamp(field) + shift op c`, as `timestamp(field) op c - shift` where the sum exists. -/
def shiftedTimestampLeaf (op : ComparisonOperator) (cerbosVar : String) (shift c : Int)
    (scope : Scope schema) : Except Refusal Predicate := do
  let solved := c - shift
  if solved < minTimestampNanos || maxTimestampNanos < solved then
    .error (.unsupported ("timestamp() + duration() compared with a timestamp whose" ++
      " solved bound leaves CEL's timestamp range (years 1 to 9999)"))
  else
    let base ← timestampLeaf op cerbosVar solved scope
    if shift = 0 then return base
    else
      let path ← scope.path cerbosVar
      -- The column values whose sum overflows.
      let overflowOp := if shift < 0 then ComparisonOperator.lt else .gt
      let edge := if shift < 0 then minTimestampNanos - shift else maxTimestampNanos - shift
      let bound ← temporalBound cerbosVar path overflowOp edge
      return TriPredicate.baseUnlessUnknown base (.compare overflowOp (.path path) bound)

/-- `now - field op d`, as `field op' now - d` with the operator mirrored. -/
def timeSinceLeaf (now : Int) (op : ComparisonOperator) (cerbosVar : String) (d : Int)
    (scope : Scope schema) : Except Refusal Predicate :=
  let bound := now - d
  if bound < minTimestampNanos || maxTimestampNanos < bound then
    .error (.unsupported ("timeSince() compared with a duration whose solved bound" ++
      " leaves CEL's timestamp range (years 1 to 9999)"))
  else timestampLeaf op.mirrored cerbosVar bound scope

/-! ## Operands -/

/-- `timestamp(value)`, once it is read. Java's offsets go up to 18 hours. -/
def timestampConstant (literal : TimestampLiteral) : Except Refusal Int :=
  match Elasticsearch.parseOffsetDateTime literal.text with
  | some instant => .ok instant
  | none => .error (.malformed "timestamp() constant could not be parsed as an RFC-3339 instant")

/-- The kinds of operands. -/
inductive ResolvedOperand where
  | timestampField (cerbosVar : String)
  | timestampConstant (literal : TimestampLiteral)
  | shiftedTimestampField (cerbosVar : String) (shift : Int)
  | timeSinceField (cerbosVar : String)
  | durationConstant (duration : Int)
  | arithmetic
  /-- `Opaque`: what no leaf case handles. -/
  | unhandled

/-- The variable of `timestamp(variable)`. -/
def timestampOfVariable {kind : Bool} : TemporalExpression kind → Option String
  | .column name => some name
  | _ => none

/-- The duration of `duration(value)`, which is read as soon as it stands in a sum. -/
def durationConstant {kind : Bool} : TemporalExpression kind → Except Refusal (Option Int)
  | .duration text => (CelDuration.parse text).map some
  | _ => .ok none

/-- `shiftedTimestamp`, of the operands of a sum or difference. -/
def shiftedTimestamp {leftKind rightKind : Bool} (sub : Bool) (l : TemporalExpression leftKind)
    (r : TemporalExpression rightKind) : Except Refusal (Option ResolvedOperand) := do
  match timestampOfVariable l, ← durationConstant r with
  | some cerbosVar, some shift =>
      return some (.shiftedTimestampField cerbosVar (signedNanos sub shift))
  | _, _ =>
      match sub, timestampOfVariable r, ← durationConstant l with
      | false, some cerbosVar, some shift => return some (.shiftedTimestampField cerbosVar shift)
      | _, _, _ => return none

/-- An operand classified by shape. -/
def resolve {kind : Bool} : TemporalExpression kind → Except Refusal ResolvedOperand
  | .column name => .ok (.timestampField name)
  | .timestamp literal => .ok (.timestampConstant literal)
  | .duration text => (CelDuration.parse text).map .durationConstant
  | .timeSince t =>
      match timestampOfVariable t with
      | some cerbosVar => .ok (.timeSinceField cerbosVar)
      | none => .ok .unhandled
  | .shift sub t d => do return (← shiftedTimestamp sub t d).getD .arithmetic
  | .shiftAfter d t => do return (← shiftedTimestamp false d t).getD .arithmetic
  | .combine sub d e => do return (← shiftedTimestamp sub d e).getD .arithmetic
  | .between t u => do return (← shiftedTimestamp true t u).getD .arithmetic

/-- The operator of an operand's expression. -/
def exprOp {kind : Bool} : TemporalExpression kind → String
  | .column _ | .timestamp _ => "timestamp"
  | .duration _ => "duration"
  | .timeSince _ => "timeSince"
  | .shift sub _ _ | .combine sub _ _ => if sub then "sub" else "add"
  | .shiftAfter _ _ => "add"
  | .between _ _ => "sub"

/-- Lowering a sum reads its operands from the left, and an instant or a duration is no number. -/
def numericRefusal {kind : Bool} : TemporalExpression kind → Refusal
  | .shift _ t _ | .between t _ => numericRefusal t
  | .shiftAfter d _ | .combine _ d _ => numericRefusal d
  | e => .unsupported ("Unexpected " ++ exprOp e ++
      "() expression inside an arithmetic comparison operand")

/-! ## Comparisons -/

def ResolvedOperand.isArithmeticRooted : ResolvedOperand → Bool
  | .arithmetic => true
  | _ => false

/-- `translate` of a comparison: both operands are expressions, so none moves to the front. -/
def translateTemporal (now : Int) (op : ComparisonOperator) {kind : Bool}
    (left right : TemporalExpression kind) (scope : Scope schema) : Except Refusal Predicate := do
  let l ← resolve left
  let r ← resolve right
  match l, r with
  | .timestampField field, .timestampConstant literal =>
      timestampLeaf op field (← timestampConstant literal) scope
  | .timestampConstant literal, .timestampField field =>
      timestampLeaf op.mirrored field (← timestampConstant literal) scope
  | .shiftedTimestampField field shift, .timestampConstant literal =>
      shiftedTimestampLeaf op field shift (← timestampConstant literal) scope
  | .timestampConstant literal, .shiftedTimestampField field shift =>
      shiftedTimestampLeaf op.mirrored field shift (← timestampConstant literal) scope
  | .timeSinceField field, .durationConstant d => timeSinceLeaf now op field d scope
  | .durationConstant d, .timeSinceField field => timeSinceLeaf now op.mirrored field d scope
  | .timestampConstant a, .timestampConstant b =>
      return constant (op.test (.finite (← timestampConstant a)) (.finite (← timestampConstant b)))
  | l, r =>
      if l.isArithmeticRooted || r.isArithmeticRooted then .error (numericRefusal left)
      else .error (.unsupported ("Unexpected " ++ exprOp left ++
        "() expression in leaf operand of " ++ op.name))

/-! ## The leaves on a row -/

/-- The instant of a `timestamp(variable)`, none for a NULL. -/
def storedInstant (scope : Scope schema) (store : Store schema) (env : store.Env)
    (cerbosVar : String) : Option Int :=
  match scope.path cerbosVar with
  | .ok path =>
      match store.value path env with
      | .time nanos => some nanos
      | _ => none
  | .error _ => none

/-- Instants are stored in CEL's range. -/
def HoldsInstants (scope : Scope schema) (store : Store schema) (env : store.Env) : Prop :=
  ∀ cerbosVar path, scope.path cerbosVar = .ok path → path.javaType.isAbsolute = true →
    store.value path env = .null ∨ ∃ t : CelTimestamp, store.value path env = .time t.nanos

section Leaves

variable {engine : Engine} {store : Store schema} {env : store.Env} {scope : Scope schema}
  {op : ComparisonOperator} {cerbosVar : String} {path : Path} {predicate : Predicate}

theorem storedInstant_cases (hstored : HoldsInstants scope store env)
    (hpath : scope.path cerbosVar = .ok path) (habsolute : path.javaType.isAbsolute = true) :
    (store.value path env = .null ∧ storedInstant scope store env cerbosVar = none) ∨
      ∃ t : CelTimestamp, store.value path env = .time t.nanos ∧
        storedInstant scope store env cerbosVar = some t.nanos := by
  rw [storedInstant, hpath]
  dsimp only
  obtain hnull | ⟨t, htime⟩ := hstored cerbosVar path hpath habsolute
  · exact .inl ⟨hnull, by rw [hnull]⟩
  · exact .inr ⟨t, htime, by rw [htime]⟩

theorem storedInstant_time {nanos : Int} (hpath : scope.path cerbosVar = .ok path)
    (hvalue : store.value path env = .time nanos) :
    storedInstant scope store env cerbosVar = some nanos := by
  rw [storedInstant, hpath]
  dsimp only
  rw [hvalue]

theorem value_of_row {row : store.Row} (h : env[path.level]? = some row) :
    store.value path env = store.read row path.jpaPath := by
  rw [Store.value, h]

theorem temporalBound_eq_ok {instant : Int} {bound : Expression}
    (h : temporalBound cerbosVar path op instant = .ok bound) :
    path.javaType.isAbsolute = true ∧ bound = .literal (.time instant) := by
  rw [temporalBound] at h
  split at h
  next habsolute => exact ⟨habsolute, (Except.ok.inj h).symm⟩
  next => cases h

theorem timestampLeaf_eq_ok_iff {instant : Int} :
    timestampLeaf op cerbosVar instant scope = .ok predicate ↔
      ∃ path, scope.path cerbosVar = .ok path ∧ path.javaType.isAbsolute = true ∧
        predicate = .compare op (.path path) (.literal (.time instant)) := by
  rw [timestampLeaf]
  constructor
  · intro h
    obtain ⟨path, hpath, h⟩ := Except.bind_eq_ok_iff.mp h
    obtain ⟨bound, hbound, h⟩ := Except.bind_eq_ok_iff.mp h
    obtain ⟨habsolute, rfl⟩ := temporalBound_eq_ok hbound
    exact ⟨path, hpath, habsolute, (Except.ok.inj h).symm⟩
  · rintro ⟨path, hpath, habsolute, rfl⟩
    rw [hpath, Except.bind_eq_ok_iff]
    refine ⟨path, rfl, ?_⟩
    rw [temporalBound, if_pos habsolute]
    rfl

variable (engine) in
theorem truth_timestampLeaf {instant : Int} (hstored : HoldsInstants scope store env)
    (h : timestampLeaf op cerbosVar instant scope = .ok predicate) :
    predicate.truth engine store env =
      (storedInstant scope store env cerbosVar).elim .unknown fun t =>
        .ofBool (op.test (.finite t) (.finite instant)) := by
  obtain ⟨path, hpath, habsolute, rfl⟩ := timestampLeaf_eq_ok_iff.mp h
  rw [truth_compare, eval_path, eval_literal]
  obtain ⟨hvalue, hinstant⟩ | ⟨t, hvalue, hinstant⟩ := storedInstant_cases hstored hpath habsolute
  · rw [hvalue, hinstant, Engine.compare_null_left]
    rfl
  · rw [hvalue, hinstant]
    rfl

/-- Of a NULL column `base` and the witness are both UNKNOWN. -/
theorem truth_unlessUnknown_null {base witness : Predicate}
    (hbase : base.truth engine store env = .unknown)
    (hwitness : witness.truth engine store env = .unknown) :
    (TriPredicate.baseUnlessUnknown base witness).truth engine store env = .unknown := by
  rw [TriPredicate.baseUnlessUnknown, truth_or]
  simp only [List.map_cons, List.map_nil, truth_and, truth_triNot, truth_unknown, hbase, hwitness]
  rfl

theorem inTimestampRange_iff {nanos : Int} :
    inTimestampRange nanos = true ↔ minTimestampNanos ≤ nanos ∧ nanos ≤ maxTimestampNanos := by
  rw [inTimestampRange, Bool.and_eq_true, decide_eq_true_iff, decide_eq_true_iff]

/-- A shift by a duration can leave CEL's range on one side only. -/
theorem overflow_test (t : CelTimestamp) {shift : Int} :
    (if shift < 0 then ComparisonOperator.lt else .gt).test (.finite t.nanos)
        (.finite (if shift < 0 then minTimestampNanos - shift else maxTimestampNanos - shift : Int)) =
      !inTimestampRange (t.nanos + shift) := by
  obtain ⟨hfirst, hlast⟩ := t.inRange
  rw [Bool.eq_iff_iff, Bool.not_eq_true', ← Bool.not_eq_true, inTimestampRange_iff]
  split
  next =>
    rw [ComparisonOperator.test, Double.lt_finite, decide_eq_true_iff, Int.cast_lt]
    omega
  next =>
    rw [ComparisonOperator.test, Double.lt_finite, decide_eq_true_iff, Int.cast_lt]
    omega

/-- What the solved comparison is of an instant: that of the sum, where there is one. -/
theorem truth_shiftedTimestampLeaf {shift c : Int} (hstored : HoldsInstants scope store env)
    (h : shiftedTimestampLeaf op cerbosVar shift c scope = .ok predicate) :
    predicate.truth engine store env =
      (storedInstant scope store env cerbosVar).elim .unknown fun t =>
        if inTimestampRange (t + shift) then .ofBool (op.test (.finite (t + shift : Int)) (.finite c))
        else .unknown := by
  rw [shiftedTimestampLeaf] at h
  dsimp only at h
  split at h
  next => cases h
  next =>
    obtain ⟨base, hbase, h⟩ := Except.bind_eq_ok_iff.mp h
    have htruth := truth_timestampLeaf engine hstored hbase
    obtain ⟨path, hpath, habsolute, -⟩ := timestampLeaf_eq_ok_iff.mp hbase
    have hcases := storedInstant_cases hstored hpath habsolute
    have hsolved : ∀ t : CelTimestamp, op.test (.finite t.nanos) (.finite (c - shift : Int)) =
        op.test (.finite (t.nanos + shift : Int)) (.finite c) :=
      fun t => test_finite_iff op (by omega) (by omega)
    split at h
    next hzero =>
      obtain rfl := Except.ok.inj h
      rw [htruth]
      obtain ⟨-, hinstant⟩ | ⟨t, -, hinstant⟩ := hcases
      · rw [hinstant]
        rfl
      · have hrange : inTimestampRange (t.nanos + shift) = true := by
          rw [hzero, Int.add_zero, inTimestampRange_iff]
          exact t.inRange
        rw [hinstant, Option.elim_some, Option.elim_some, hsolved, if_pos hrange]
    next =>
      obtain ⟨samePath, hsame, h⟩ := Except.bind_eq_ok_iff.mp h
      obtain rfl := Except.ok.inj (hpath.symm.trans hsame)
      obtain ⟨bound, hbound, h⟩ := Except.bind_eq_ok_iff.mp h
      obtain ⟨-, rfl⟩ := temporalBound_eq_ok hbound
      obtain rfl := Except.ok.inj h
      obtain ⟨hvalue, hinstant⟩ | ⟨t, hvalue, hinstant⟩ := hcases
      · rw [hinstant] at htruth
        rw [hinstant]
        apply truth_unlessUnknown_null htruth
        rw [truth_compare, eval_path, hvalue, Engine.compare_null_left]
      · rw [hinstant, Option.elim_some] at htruth
        have hwitness : (Predicate.compare (if shift < 0 then .lt else .gt) (.path path) (.literal (.time
            (if shift < 0 then minTimestampNanos - shift else maxTimestampNanos - shift)))).truth
              engine store env = .ofBool !inTimestampRange (t.nanos + shift) := by
          rw [truth_compare, eval_path, eval_literal, hvalue, ← overflow_test t]
          rfl
        rw [truth_baseUnlessUnknown hwitness, htruth, hinstant, Option.elim_some, hsolved]
        cases inTimestampRange (t.nanos + shift) with
        | true => rfl
        | false => rfl

theorem truth_timeSinceLeaf {now d : Int} (hstored : HoldsInstants scope store env)
    (h : timeSinceLeaf now op cerbosVar d scope = .ok predicate) :
    predicate.truth engine store env =
      (storedInstant scope store env cerbosVar).elim .unknown fun t =>
        .ofBool (op.test (.finite (now - t : Int)) (.finite d)) := by
  rw [timeSinceLeaf] at h
  split at h
  next => cases h
  next =>
    rw [truth_timestampLeaf engine hstored h]
    cases storedInstant scope store env cerbosVar with
    | none => rfl
    | some t =>
        rw [Option.elim_some, Option.elim_some, test_mirrored]
        congr 1
        exact test_finite_iff op (by omega) (by omega)

theorem leaves_range {nanos : Int} :
    (decide (nanos < minTimestampNanos) || decide (maxTimestampNanos < nanos)) = true ↔
      inTimestampRange nanos = false := by
  rw [Bool.or_eq_true, decide_eq_true_iff, decide_eq_true_iff, ← Bool.not_eq_true,
    inTimestampRange_iff]
  omega

theorem exists_bind_ok {α β : Type} {x : Except Refusal α} {f : α → Except Refusal β} {a : α}
    (hx : x = .ok a) (hf : ∃ b, f a = .ok b) : ∃ b, (x >>= f) = .ok b := by
  rw [hx]
  exact hf

/-- A shifted column is accepted when the solved bound is a timestamp. -/
theorem shiftedTimestampLeaf_accepts {shift c : Int} :
    (∃ predicate, shiftedTimestampLeaf op cerbosVar shift c scope = .ok predicate) ↔
      inTimestampRange (c - shift) = true ∧
        ∃ path, scope.path cerbosVar = .ok path ∧ path.javaType.isAbsolute = true := by
  rw [shiftedTimestampLeaf]
  dsimp only
  split
  next hout =>
    refine iff_of_false (by rintro ⟨_, ⟨⟩⟩) fun h => ?_
    rw [leaves_range.mp hout] at h
    exact Bool.false_ne_true h.1
  next hin =>
    rw [leaves_range, Bool.not_eq_false] at hin
    constructor
    · rintro ⟨predicate, h⟩
      obtain ⟨base, hbase, -⟩ := Except.bind_eq_ok_iff.mp h
      obtain ⟨path, hpath, habsolute, -⟩ := timestampLeaf_eq_ok_iff.mp hbase
      exact ⟨hin, path, hpath, habsolute⟩
    · rintro ⟨-, path, hpath, habsolute⟩
      refine exists_bind_ok (timestampLeaf_eq_ok_iff.mpr ⟨path, hpath, habsolute, rfl⟩) ?_
      split
      next => exact ⟨_, rfl⟩
      next => exact exists_bind_ok hpath (exists_bind_ok (if_pos habsolute) ⟨_, rfl⟩)

theorem timeSinceLeaf_accepts {now d : Int} :
    (∃ predicate, timeSinceLeaf now op cerbosVar d scope = .ok predicate) ↔
      inTimestampRange (now - d) = true ∧
        ∃ path, scope.path cerbosVar = .ok path ∧ path.javaType.isAbsolute = true := by
  rw [timeSinceLeaf]
  split
  next hout =>
    refine iff_of_false (by rintro ⟨_, ⟨⟩⟩) fun h => ?_
    rw [leaves_range.mp hout] at h
    exact Bool.false_ne_true h.1
  next hin =>
    rw [leaves_range, Bool.not_eq_false] at hin
    constructor
    · rintro ⟨predicate, h⟩
      obtain ⟨path, hpath, habsolute, -⟩ := timestampLeaf_eq_ok_iff.mp h
      exact ⟨hin, path, hpath, habsolute⟩
    · rintro ⟨-, path, hpath, habsolute⟩
      exact ⟨_, timestampLeaf_eq_ok_iff.mpr ⟨path, hpath, habsolute, rfl⟩⟩

end Leaves

/-! ## A store with one value in every column -/

/-- A value, in a column of a type that holds it. -/
def held (value : SqlValue) (javaType : JavaType) : SqlValue :=
  if javaType.holds value then value else .null

theorem holds_held (value : SqlValue) (javaType : JavaType) :
    javaType.holds (held value javaType) = true := by
  rw [held]
  split
  next hholds => exact hholds
  next => cases javaType <;> rfl

theorem reach_unrelated {Row : Type} (row : Row) (hops : List String) :
    ((reach (fun _ _ => []) row hops).length : Int) < 2 ^ 63 - 1 := by
  cases hops with
  | nil =>
      show ((1 : Nat) : Int) < 2 ^ 63 - 1
      norm_num
  | cons hop hops =>
      show ((0 : Nat) : Int) < 2 ^ 63 - 1
      norm_num

section Columns

variable (schema) (value : SqlValue)

def columnValueOf (entity : schema.Entity) (path : String) : SqlValue :=
  (schema.column entity path).elim .null (held value)

variable {schema} {value} in
theorem holds_columnValueOf (entity : schema.Entity) (path : String) :
    ∀ javaType ∈ schema.column entity path,
      javaType.holds (columnValueOf schema value entity path) = true := by
  intro javaType hcolumn
  rw [columnValueOf, Option.mem_def.mp hcolumn]
  exact holds_held value javaType

/-- One row of each entity, none related to another, with the value in every column. -/
def filledStore : Store schema where
  Row := schema.Entity
  entity row := row
  element row := held value (schema.element row)
  column row path := columnValueOf schema value row path
  related _ _ := []
  element_holds row := holds_held value (schema.element row)
  column_holds := holds_columnValueOf
  entity_related _ _ _ hnext := absurd hnext List.not_mem_nil
  countable := reach_unrelated

end Columns

/-- The rows of a scope and of the scopes around it. -/
def rowsOf : Scope schema → List schema.Entity
  | .root entity _ => [entity]
  | .lambda entity _ _ outer => rowsOf outer ++ [entity]

section Filled

variable {value : SqlValue} {scope : Scope schema}

theorem inScope_rowsOf : InScope (filledStore schema value) scope (rowsOf scope) := by
  induction scope with
  | root entity mapper => exact ⟨entity, rfl, rfl⟩
  | lambda entity relation lambdaVar outer ih => exact ⟨rowsOf outer, entity, rfl, rfl, ih⟩

theorem length_rowsOf : (rowsOf scope).length = scope.level + 1 := by
  induction scope with
  | root entity mapper => rfl
  | lambda entity relation lambdaVar outer ih =>
      rw [rowsOf, List.length_append, ih]
      rfl

theorem current_rowsOf : (rowsOf scope)[scope.level]? = some scope.entity := by
  cases scope with
  | root entity mapper => rfl
  | lambda entity relation lambdaVar outer =>
      rw [rowsOf, Scope.level, ← length_rowsOf]
      exact List.getElem?_concat_length

/-- A column of a row of the scope, with the value when its type holds it. -/
def Filled (value : SqlValue) (rows : List schema.Entity) (path : Path) : Prop :=
  path.level < rows.length ∧
    (filledStore schema value).value path rows = held value path.javaType

theorem Filled.append {rows : List schema.Entity} {path : Path} (h : Filled value rows path)
    (more : List schema.Entity) : Filled value (rows ++ more) path := by
  obtain ⟨hlevel, hvalue⟩ := h
  have hrow : rows[path.level]? = some rows[path.level] := List.getElem?_eq_getElem hlevel
  refine ⟨by rw [List.length_append]; omega, ?_⟩
  rw [← hvalue]
  exact (value_of_row ((List.getElem?_append_left hlevel).trans hrow)).trans (value_of_row hrow).symm

theorem traversePath_filled {dotted : Option String} {path : Path}
    (h : scope.traversePath dotted = .ok path) : Filled value (rowsOf scope) path := by
  have hlevel : scope.level < (rowsOf scope).length := by
    rw [length_rowsOf]
    exact Nat.lt_succ_self _
  cases dotted with
  | none =>
      obtain rfl := Except.ok.inj h
      exact ⟨hlevel, value_of_row current_rowsOf⟩
  | some dotted =>
      rw [Scope.traversePath] at h
      split at h
      next javaType hcolumn =>
        obtain rfl := Except.ok.inj h
        have hcell : columnValueOf schema value scope.entity dotted = held value javaType := by
          rw [columnValueOf, hcolumn]
          rfl
        exact ⟨hlevel, (value_of_row current_rowsOf).trans hcell⟩
      next => cases h

theorem resolve_filled {cerbosVar : String} {path : Path} {mapping : AttributeMapping}
    (h : scope.resolve cerbosVar = .ok (.scalar path mapping)) :
    Filled value (rowsOf scope) path := by
  induction scope with
  | root entity mapper =>
      rw [Scope.resolve] at h
      split at h
      next =>
        obtain ⟨found, hfound, h⟩ := Except.bind_eq_ok_iff.mp h
        cases h
        exact traversePath_filled hfound
      next =>
        split at h
        next => cases h
        next => cases h
        next => cases h
  | lambda entity relation lambdaVar outer ih =>
      rw [Scope.resolve] at h
      split at h
      next => exact (ih h).append [entity]
      next suffix _ =>
        split at h
        next =>
          obtain ⟨found, hfound, h⟩ := Except.bind_eq_ok_iff.mp h
          cases h
          exact traversePath_filled hfound
        next =>
          split at h
          next => cases h
          next => cases h
          next =>
            obtain ⟨found, hfound, h⟩ := Except.bind_eq_ok_iff.mp h
            cases h
            exact traversePath_filled hfound

theorem value_filledStore {cerbosVar : String} {path : Path}
    (h : scope.path cerbosVar = .ok path) :
    (filledStore schema value).value path (rowsOf scope) = held value path.javaType := by
  obtain ⟨mapping, hresolve⟩ := path_eq_ok h
  exact (resolve_filled hresolve).2

theorem isAbsolute_holds {javaType : JavaType} (h : javaType.isAbsolute = true) (nanos : Int) :
    javaType.holds (.time nanos) = true := by
  cases javaType with
  | other name => rfl
  | string => cases h
  | boolean => cases h
  | integer => cases h
  | long => cases h
  | double => cases h

theorem held_absolute {javaType : JavaType} (h : javaType.isAbsolute = true) (nanos : Int) :
    held (.time nanos) javaType = .time nanos :=
  if_pos (isAbsolute_holds h nanos)

theorem holdsInstants_filled (t : CelTimestamp) :
    HoldsInstants scope (filledStore schema (.time t.nanos)) (rowsOf scope) := by
  intro cerbosVar path hpath habsolute
  rw [value_filledStore hpath, held_absolute habsolute]
  exact .inr ⟨t, rfl⟩

theorem storedInstant_filled {cerbosVar : String} {path : Path} (t : CelTimestamp)
    (hpath : scope.path cerbosVar = .ok path) (habsolute : path.javaType.isAbsolute = true) :
    storedInstant scope (filledStore schema (.time t.nanos)) (rowsOf scope) cerbosVar =
      some t.nanos :=
  storedInstant_time hpath ((value_filledStore hpath).trans (held_absolute habsolute _))

end Filled

/-! ## Shapes -/

section Shapes

/-- A column with one duration added or subtracted: the column, whether it is subtracted, and the
duration's text. -/
def shifted? {kind : Bool} : TemporalExpression kind → Option (String × Bool × String)
  | .shift sub (.column name) (.duration text) => some (name, sub, text)
  | .shiftAfter (.duration text) (.column name) => some (name, false, text)
  | _ => none

/-- The column that `timeSince()` is of. -/
def since? {kind : Bool} : TemporalExpression kind → Option String
  | .timeSince (.column name) => some name
  | _ => none

def timestamp? {kind : Bool} : TemporalExpression kind → Option TimestampLiteral
  | .timestamp literal => some literal
  | _ => none

def duration? {kind : Bool} : TemporalExpression kind → Option String
  | .duration text => some text
  | _ => none

variable {kind : Bool} {e : TemporalExpression kind} {name text : String}
  {literal : TimestampLiteral} {sub : Bool}

theorem column_of_bareColumn (h : e.bareColumn? = some name) :
    (∀ clock stored, e.nanos? clock stored = stored name) ∧
      resolve e = .ok (.timestampField name) := by
  unfold TemporalExpression.bareColumn? at h
  split at h
  next =>
    obtain rfl := Option.some_inj.mp h
    exact ⟨fun _ _ => rfl, rfl⟩
  next => cases h

theorem constant_of_timestamp (h : timestamp? e = some literal) :
    (∀ clock stored, e.nanos? clock stored = some literal.nanos) ∧
      resolve e = .ok (.timestampConstant literal) := by
  unfold timestamp? at h
  split at h
  next =>
    obtain rfl := Option.some_inj.mp h
    exact ⟨fun _ _ => rfl, rfl⟩
  next => cases h

theorem constant_of_duration (h : duration? e = some text) :
    (∀ clock stored, e.nanos? clock stored = GoTime.parseDuration text) ∧
      resolve e = (CelDuration.parse text).map .durationConstant := by
  unfold duration? at h
  split at h
  next =>
    obtain rfl := Option.some_inj.mp h
    exact ⟨fun _ _ => rfl, rfl⟩
  next => cases h

theorem field_of_since (h : since? e = some name) :
    (∀ clock stored, e.nanos? clock stored = (stored name).map (saturatedSince clock)) ∧
      resolve e = .ok (.timeSinceField name) := by
  unfold since? at h
  split at h
  next found =>
    obtain rfl := Option.some_inj.mp h
    refine ⟨fun clock stored => ?_, rfl⟩
    rw [TemporalExpression.nanos?, TemporalExpression.nanos?]
    cases stored found <;> rfl
  next => cases h

/-- A sum of CEL with a shift, none where it leaves the range. -/
def shiftedInstant (t shift : Int) : Option Int :=
  if inTimestampRange (t + shift) then some (t + shift) else none

theorem field_of_shifted (h : shifted? e = some (name, sub, text)) :
    (∀ clock stored, e.nanos? clock stored = (stored name).bind fun t =>
        (GoTime.parseDuration text).bind fun d => shiftedInstant t (signedNanos sub d)) ∧
      resolve e = (CelDuration.parse text).map fun d =>
        .shiftedTimestampField name (signedNanos sub d) := by
  unfold shifted? at h
  split at h
  next =>
    cases h
    constructor
    · intro clock stored
      rw [TemporalExpression.nanos?, TemporalExpression.nanos?, TemporalExpression.nanos?]
      congr
      funext t
      congr
      funext d
      rw [TemporalExpression.inRange?, TemporalValue.signedSum, shiftedInstant, signedNanos]
      cases sub with
      | true => rw [if_pos rfl, if_pos rfl, Int.sub_eq_add_neg]
      | false => rfl
    · rw [resolve, shiftedTimestamp, durationConstant]
      cases CelDuration.parse text with
      | error refusal => rfl
      | ok d => rfl
  next =>
    cases h
    constructor
    · intro clock stored
      rw [TemporalExpression.nanos?, TemporalExpression.nanos?, TemporalExpression.nanos?]
      cases GoTime.parseDuration text with
      | none => cases stored name <;> rfl
      | some d =>
          cases stored name with
          | none => rfl
          | some t =>
              show TemporalExpression.inRange? inTimestampRange (d + t) = shiftedInstant t d
              rw [Int.add_comm]
              rfl
    · have hnone : durationConstant (.column name) = .ok none := rfl
      rw [resolve, shiftedTimestamp, hnone, durationConstant]
      cases CelDuration.parse text with
      | error refusal => rfl
      | ok d => rfl
  next => cases h

/-- An operand of its expression's shape. -/
def Shaped {kind : Bool} (e : TemporalExpression kind) : ResolvedOperand → Prop
  | .timestampField name => e.bareColumn? = some name
  | .timestampConstant literal => timestamp? e = some literal
  | .shiftedTimestampField name shift => ∃ sub text n, shifted? e = some (name, sub, text) ∧
      CelDuration.parse text = .ok n ∧ shift = signedNanos sub n
  | .timeSinceField name => since? e = some name
  | .durationConstant n => ∃ text, duration? e = some text ∧ CelDuration.parse text = .ok n
  | .arithmetic | .unhandled => True

theorem timestampOfVariable_duration (d : TemporalExpression false) :
    timestampOfVariable d = none := by
  cases d <;> rfl

theorem duration_timestamp (t : TemporalExpression true) : duration? t = none := by
  cases t <;> rfl

theorem column_of_timestampOfVariable {t : TemporalExpression true}
    (h : timestampOfVariable t = some name) : t = .column name := by
  unfold timestampOfVariable at h
  split at h
  next =>
    cases h
    rfl
  next => cases h

theorem text_of_duration {d : TemporalExpression false} (h : duration? d = some text) :
    d = .duration text := by
  unfold duration? at h
  split at h
  next =>
    cases h
    rfl
  next => cases h

theorem durationConstant_cases {found : Option Int} (h : durationConstant e = .ok found) :
    found = none ∨ ∃ text n, duration? e = some text ∧ CelDuration.parse text = .ok n ∧
      found = some n := by
  unfold durationConstant at h
  split at h
  next text =>
    obtain ⟨n, hn, rfl⟩ := Except.map_eq_ok_iff.mp h
    exact .inr ⟨text, n, rfl, hn, rfl⟩
  next => exact .inl (Except.ok.inj h).symm

/-- A sum or difference that is a shifted column. -/
theorem shiftedTimestamp_cases {leftKind rightKind : Bool} {l : TemporalExpression leftKind}
    {r : TemporalExpression rightKind} {found : Option ResolvedOperand}
    (h : shiftedTimestamp sub l r = .ok found) :
    found = none ∨ ∃ name text n, CelDuration.parse text = .ok n ∧
      found = some (.shiftedTimestampField name (signedNanos sub n)) ∧
      ((timestampOfVariable l = some name ∧ duration? r = some text) ∨
        (sub = false ∧ timestampOfVariable r = some name ∧ duration? l = some text)) := by
  unfold shiftedTimestamp at h
  obtain ⟨right, hright, h⟩ := Except.bind_eq_ok_iff.mp h
  split at h
  next name shift hl =>
    obtain hnone | ⟨text, n, htext, hn, hsome⟩ := durationConstant_cases hright
    · cases hnone
    · cases hsome
      exact .inr ⟨name, text, shift, hn, (Except.ok.inj h).symm, .inl ⟨hl, htext⟩⟩
  next =>
    obtain ⟨left, hleft, h⟩ := Except.bind_eq_ok_iff.mp h
    split at h
    next name shift hr _ _ =>
      obtain hnone | ⟨text, n, htext, hn, hsome⟩ := durationConstant_cases hleft
      · cases hnone
      · cases hsome
        exact .inr ⟨name, text, shift, hn, (Except.ok.inj h).symm, .inr ⟨rfl, hr, htext⟩⟩
    next => exact .inl (Except.ok.inj h).symm

/-- The shape of an operand is that of its expression. -/
theorem resolve_shaped {r : ResolvedOperand} (h : resolve e = .ok r) : Shaped e r := by
  cases e with
  | column name =>
      obtain rfl := Except.ok.inj h
      exact rfl
  | timestamp literal =>
      obtain rfl := Except.ok.inj h
      exact rfl
  | duration text =>
      obtain ⟨n, hn, rfl⟩ := Except.map_eq_ok_iff.mp h
      exact ⟨text, rfl, hn⟩
  | timeSince t =>
      rw [resolve] at h
      split at h
      next name hname =>
        obtain rfl := Except.ok.inj h
        obtain rfl := column_of_timestampOfVariable hname
        exact rfl
      next =>
        obtain rfl := Except.ok.inj h
        trivial
  | shift sub t d =>
      obtain ⟨found, hfound, h⟩ := Except.bind_eq_ok_iff.mp h
      obtain rfl := Except.ok.inj h
      obtain rfl | ⟨name, text, n, hn, rfl, ⟨ht, hd⟩ | ⟨-, hd, -⟩⟩ := shiftedTimestamp_cases hfound
      · trivial
      · obtain rfl := column_of_timestampOfVariable ht
        obtain rfl := text_of_duration hd
        exact ⟨sub, text, n, rfl, hn, rfl⟩
      · rw [timestampOfVariable_duration] at hd
        cases hd
  | shiftAfter d t =>
      obtain ⟨found, hfound, h⟩ := Except.bind_eq_ok_iff.mp h
      obtain rfl := Except.ok.inj h
      obtain rfl | ⟨name, text, n, hn, rfl, ⟨hd, -⟩ | ⟨-, ht, hd⟩⟩ := shiftedTimestamp_cases hfound
      · trivial
      · rw [timestampOfVariable_duration] at hd
        cases hd
      · obtain rfl := column_of_timestampOfVariable ht
        obtain rfl := text_of_duration hd
        exact ⟨false, text, n, rfl, hn, rfl⟩
  | combine sub d e =>
      obtain ⟨found, hfound, h⟩ := Except.bind_eq_ok_iff.mp h
      obtain rfl := Except.ok.inj h
      obtain rfl | ⟨name, text, n, hn, rfl, ⟨hd, -⟩ | ⟨-, he, -⟩⟩ := shiftedTimestamp_cases hfound
      · trivial
      · rw [timestampOfVariable_duration] at hd
        cases hd
      · rw [timestampOfVariable_duration] at he
        cases he
  | between t u =>
      obtain ⟨found, hfound, h⟩ := Except.bind_eq_ok_iff.mp h
      obtain rfl := Except.ok.inj h
      obtain rfl | ⟨name, text, n, hn, rfl, ⟨-, hu⟩ | ⟨-, -, ht⟩⟩ := shiftedTimestamp_cases hfound
      · trivial
      · rw [duration_timestamp] at hu
        cases hu
      · rw [duration_timestamp] at ht
        cases ht

end Shapes

/-! ## When the solved comparison is CEL's -/

section Agreement

variable {kind : Bool} {left right : TemporalExpression kind} {op : ComparisonOperator}
  {scope : Scope schema} {name text : String} {literal : TimestampLiteral} {sub : Bool}

/-- A predicate that is accepted decides every row as CEL does, at every clock. -/
def DecidesTimestamps (op : ComparisonOperator) {kind : Bool} (left right : TemporalExpression kind)
    (scope : Scope schema) : Prop :=
  ∀ now predicate, translateTemporal now op left right scope = .ok predicate →
    ∀ engine (store : Store schema) (env : store.Env), InScope store scope env →
      HoldsInstants scope store env →
        predicate.truth engine store env = TemporalExpression.comparisonTruth now
          (storedInstant scope store env) op left right

/-- A shifted column is solved exactly: its duration is read as in CEL, unless the comparison is
refused. -/
def ShiftSolved (name : String) (sub : Bool) (text : String) (literal : TimestampLiteral)
    (scope : Scope schema) : Prop :=
  ∀ path c d, scope.path name = .ok path → path.javaType.isAbsolute = true →
    Elasticsearch.parseOffsetDateTime literal.text = some c → spelledNanos text = some d →
      inTimestampRange (c - signedNanos sub d) = true → CelDuration.ReadAlike text

/-- The bounds of int64 that a saturated difference compares with unlike the exact one. -/
def saturates : ComparisonOperator → Int → Bool
  | .eq, d | .ne, d => d = int64Max || d = int64Min
  | .le, d | .gt, d => d = int64Max
  | .lt, d | .ge, d => d = int64Min

/-- A difference to the clock is solved exactly, unless the comparison is refused at every clock. -/
def SinceSolved (op : ComparisonOperator) (name text : String) (scope : Scope schema) : Prop :=
  ∀ path d, scope.path name = .ok path → path.javaType.isAbsolute = true →
    spelledNanos text = some d → |d| / 1000000000 ≤ CelDuration.maxSeconds →
      CelDuration.ReadAlike text ∧ saturates op d = false

/-- Every column of a comparison is solved exactly. -/
structure Solved (op : ComparisonOperator) {kind : Bool} (left right : TemporalExpression kind)
    (scope : Scope schema) : Prop where
  shift : ∀ name sub text literal, shifted? left = some (name, sub, text) →
    timestamp? right = some literal → ShiftSolved name sub text literal scope
  shiftAfter : ∀ name sub text literal, timestamp? left = some literal →
    shifted? right = some (name, sub, text) → ShiftSolved name sub text literal scope
  since : ∀ name text, since? left = some name → duration? right = some text →
    SinceSolved op name text scope
  sinceAfter : ∀ name text, duration? left = some text → since? right = some name →
    SinceSolved op.mirrored name text scope

theorem comparisonTruth_of_right {clock c : Int} {stored : String → Option Int}
    (h : right.nanos? clock stored = some c) :
    TemporalExpression.comparisonTruth clock stored op left right =
      (left.nanos? clock stored).elim .unknown fun n => .ofBool (op.test (.finite n) (.finite c)) := by
  rw [TemporalExpression.comparisonTruth, h]
  cases left.nanos? clock stored with
  | none => rfl
  | some n => rfl

theorem comparisonTruth_mirrored {clock : Int} {stored : String → Option Int} :
    TemporalExpression.comparisonTruth clock stored op left right =
      TemporalExpression.comparisonTruth clock stored op.mirrored right left := by
  rw [TemporalExpression.comparisonTruth, TemporalExpression.comparisonTruth]
  cases left.nanos? clock stored with
  | none => cases right.nanos? clock stored <;> rfl
  | some n =>
      cases right.nanos? clock stored with
      | none => rfl
      | some m =>
          dsimp only
          rw [test_mirrored]

/-- A literal that is read is read as CEL reads it. -/
theorem timestampConstant_eq_ok_iff {c : Int} :
    timestampConstant literal = .ok c ↔ Elasticsearch.parseOffsetDateTime literal.text = some c := by
  rw [timestampConstant]
  cases Elasticsearch.parseOffsetDateTime literal.text with
  | none => exact iff_of_false (by rintro ⟨⟩) (by rintro ⟨⟩)
  | some instant => rw [Except.ok.injEq, Option.some_inj]

theorem nanos_of_timestampConstant {c : Int} (h : timestampConstant literal = .ok c) :
    literal.nanos = c ∧ inTimestampRange c = true := by
  rw [timestampConstant_eq_ok_iff, Elasticsearch.parseOffsetDateTime] at h
  obtain ⟨hinstant, hrange⟩ := Option.filter_eq_some_iff.mp literal.valid
  split at h
  next =>
    split at h
    next => cases h
    next =>
      obtain rfl := Option.some_inj.mp (hinstant.symm.trans h)
      exact ⟨rfl, hrange⟩
  next => cases h

/-- A text that the adapter reads is read alike when CEL reads the same number. -/
theorem readAlike_iff [Double.Rounding] {d : Int} (h : CelDuration.parse text = .ok d) :
    CelDuration.ReadAlike text ↔ GoTime.parseDuration text = some d := by
  rw [← CelDuration.parse_iff_goParseDuration]
  constructor
  · intro hsame
    exact (hsame d).mp h
  · intro hgo nanos
    rw [h, hgo, Except.ok.injEq, Option.some_inj]

/-! CEL's differences of instants. -/

theorem saturatedSince_cases (now t : Int) :
    (int64Max < now - t ∧ saturatedSince now t = int64Max) ∨
      (now - t < int64Min ∧ saturatedSince now t = int64Min) ∨
      (int64Min ≤ now - t ∧ now - t ≤ int64Max ∧ saturatedSince now t = now - t) := by
  rw [saturatedSince]
  split
  next hmax => exact .inl ⟨hmax, rfl⟩
  next hmax =>
    split
    next hmin => exact .inr (.inl ⟨hmin, rfl⟩)
    next hmin => exact .inr (.inr ⟨Int.not_lt.mp hmin, Int.not_lt.mp hmax, rfl⟩)

/-- What an operator asks of two integers. -/
def asks : ComparisonOperator → Int → Int → Prop
  | .eq, a, b => a = b
  | .ne, a, b => a ≠ b
  | .lt, a, b => a < b
  | .le, a, b => a ≤ b
  | .gt, a, b => b < a
  | .ge, a, b => b ≤ a

theorem test_iff_asks (op : ComparisonOperator) (a b : Int) :
    op.test (.finite a) (.finite b) = true ↔ asks op a b := by
  cases op <;> simp [ComparisonOperator.test, asks]

/-- Away from the bounds that saturate, a saturated difference compares like the exact one. -/
theorem test_saturated {d : Int} (hfits : int64Min ≤ d ∧ d ≤ int64Max)
    (h : saturates op d = false) (now t : Int) :
    op.test (.finite (saturatedSince now t)) (.finite d) =
      op.test (.finite (now - t : Int)) (.finite d) := by
  rw [Bool.eq_iff_iff, test_iff_asks, test_iff_asks]
  have hcases := saturatedSince_cases now t
  cases op <;> simp only [saturates, Bool.or_eq_false_iff, decide_eq_false_iff_not] at h <;>
    simp only [asks] <;> omega

/-- Two numbers that the exact and the saturated differences around the first one compare with
alike are the same, and saturate nowhere. -/
theorem saturates_of_tests {d m : Int} (hfits : int64Min ≤ m ∧ m ≤ int64Max)
    (h : ∀ t, -1 ≤ t → t ≤ 1 → op.test (.finite (d - t : Int)) (.finite d) =
      op.test (.finite (saturatedSince d t)) (.finite m)) :
    m = d ∧ saturates op d = false := by
  have hasks : ∀ t, -1 ≤ t → t ≤ 1 → (asks op (d - t) d ↔ asks op (saturatedSince d t) m) := by
    intro t hlow hhigh
    rw [← test_iff_asks, ← test_iff_asks, h t hlow hhigh]
  have hbefore := hasks (-1) (by omega) (by omega)
  have hsame := hasks 0 (by omega) (by omega)
  have hafter := hasks 1 (by omega) (by omega)
  have hbefore' := saturatedSince_cases d (-1)
  have hsame' := saturatedSince_cases d 0
  have hafter' := saturatedSince_cases d 1
  have hbounds : int64Min + 2 < int64Max := by decide
  cases op <;> simp only [saturates, Bool.or_eq_false_iff, decide_eq_false_iff_not] <;>
    simp only [asks] at hbefore hsame hafter <;> omega

/-- Two shifts of one sign take an instant out of CEL's range together only when they are the
same. -/
theorem exists_inTimestampRange_ne {c shift other : Int} (hc : inTimestampRange c = true)
    (hsolved : inTimestampRange (c - shift) = true) (hne : shift ≠ other)
    (hsign : 0 ≤ shift ∧ 0 ≤ other ∨ shift ≤ 0 ∧ other ≤ 0) :
    ∃ t : CelTimestamp, inTimestampRange (t.nanos + shift) ≠ inTimestampRange (t.nanos + other) := by
  rw [inTimestampRange_iff] at hc hsolved
  have hrange : ∀ nanos, minTimestampNanos ≤ nanos → nanos ≤ maxTimestampNanos →
      (minTimestampNanos ≤ nanos + shift ∧ nanos + shift ≤ maxTimestampNanos ↔
        ¬(minTimestampNanos ≤ nanos + other ∧ nanos + other ≤ maxTimestampNanos)) →
      ∃ t : CelTimestamp,
        inTimestampRange (t.nanos + shift) ≠ inTimestampRange (t.nanos + other) := by
    intro nanos hlow hhigh hdiffer
    refine ⟨⟨nanos, hlow, hhigh⟩, fun hsame => ?_⟩
    rw [Bool.eq_iff_iff, inTimestampRange_iff, inTimestampRange_iff] at hsame
    dsimp only at hsame
    tauto
  obtain ⟨hpos, hother⟩ | ⟨hneg, hother⟩ := hsign
  · rcases lt_or_gt_of_ne hne with hlt | hgt
    · exact hrange (maxTimestampNanos - shift) (by omega) (by omega) (by omega)
    · exact hrange (maxTimestampNanos - shift + 1) (by omega) (by omega) (by omega)
  · rcases lt_or_gt_of_ne hne with hlt | hgt
    · exact hrange (minTimestampNanos - shift - 1) (by omega) (by omega) (by omega)
    · exact hrange (minTimestampNanos - shift) (by omega) (by omega) (by omega)

/-- What both readers read of a text has the text's sign. -/
theorem readings_sign [Double.Rounding] {d m : Int} (h : spelledNanos text = some d)
    (hgo : GoTime.parseDuration text = some m) :
    0 ≤ d ∧ 0 ≤ m ∨ d ≤ 0 ∧ m ≤ 0 := by
  obtain ⟨sum, hsum, rfl⟩ := Option.map_eq_some_iff.mp h
  have hfloor : 0 ≤ ⌊sum⌋ := Int.floor_nonneg.mpr (CelDuration.exactMagnitude_nonneg hsum)
  obtain ⟨-, magnitude, -, -, rfl, -⟩ := CelDuration.goParseDuration_cases hgo
  rw [signedNanos, signedNanos]
  cases (takeSign text.toList).1 with
  | true =>
      rw [if_pos rfl, if_pos rfl]
      omega
  | false =>
      rw [if_neg Bool.false_ne_true, if_neg Bool.false_ne_true]
      omega

/-! Each leaf, where it is solved exactly and where not. -/

section Leaf

variable {now c d : Int} {predicate : Predicate} {engine : Engine} {store : Store schema}
  {env : store.Env}

theorem column_decides (hleft : left.bareColumn? = some name)
    (hright : timestamp? right = some literal) (hc : timestampConstant literal = .ok c)
    (h : timestampLeaf op name c scope = .ok predicate) (hstored : HoldsInstants scope store env) :
    predicate.truth engine store env =
      TemporalExpression.comparisonTruth now (storedInstant scope store env) op left right := by
  rw [truth_timestampLeaf engine hstored h, comparisonTruth_of_right ((constant_of_timestamp hright).1 _ _),
    (column_of_bareColumn hleft).1, (nanos_of_timestampConstant hc).1]

theorem shifted_decides (hleft : shifted? left = some (name, sub, text))
    (hright : timestamp? right = some literal) (hc : timestampConstant literal = .ok c)
    (hd : CelDuration.parse text = .ok d)
    (hsolved : ShiftSolved name sub text literal scope)
    (h : shiftedTimestampLeaf op name (signedNanos sub d) c scope = .ok predicate)
    (hstored : HoldsInstants scope store env) :
    predicate.truth engine store env =
      TemporalExpression.comparisonTruth now (storedInstant scope store env) op left right := by
  obtain ⟨hrange, path, hpath, habsolute⟩ := shiftedTimestampLeaf_accepts.mp ⟨predicate, h⟩
  have halike := hsolved path c d hpath habsolute (timestampConstant_eq_ok_iff.mp hc)
    (CelDuration.parse_eq_ok_iff_spelled.mp hd).1 hrange
  rw [truth_shiftedTimestampLeaf hstored h, comparisonTruth_of_right ((constant_of_timestamp hright).1 _ _),
    (field_of_shifted hleft).1, (nanos_of_timestampConstant hc).1, (readAlike_iff hd).mp halike]
  cases storedInstant scope store env name with
  | none => rfl
  | some t =>
      rw [Option.elim_some, Option.bind_some, Option.bind_some, shiftedInstant]
      split
      next => rfl
      next => rfl

theorem since_decides (hleft : since? left = some name) (hright : duration? right = some text)
    (hd : CelDuration.parse text = .ok d) (hsolved : SinceSolved op name text scope)
    (h : timeSinceLeaf now op name d scope = .ok predicate)
    (hstored : HoldsInstants scope store env) :
    predicate.truth engine store env =
      TemporalExpression.comparisonTruth now (storedInstant scope store env) op left right := by
  obtain ⟨-, path, hpath, habsolute⟩ := timeSinceLeaf_accepts.mp ⟨predicate, h⟩
  obtain ⟨hspelled, hseconds⟩ := CelDuration.parse_eq_ok_iff_spelled.mp hd
  obtain ⟨halike, hsaturates⟩ := hsolved path d hpath habsolute hspelled hseconds
  have hgo := (readAlike_iff hd).mp halike
  obtain ⟨-, -, -, -, -, hfits⟩ := CelDuration.goParseDuration_cases hgo
  rw [truth_timeSinceLeaf hstored h,
    comparisonTruth_of_right (((constant_of_duration hright).1 _ _).trans hgo), (field_of_since hleft).1]
  cases storedInstant scope store env name with
  | none => rfl
  | some t =>
      rw [Option.elim_some, Option.map_some, Option.elim_some, test_saturated hfits hsaturates]

/-- Where a shifted column is accepted with a duration that CEL reads otherwise, some instant has
its sum in CEL's range by one reading only. -/
theorem shiftSolved_of_leaf (hleft : shifted? left = some (name, sub, text))
    (hright : timestamp? right = some literal)
    (h : ∀ c d predicate, timestampConstant literal = .ok c → CelDuration.parse text = .ok d →
      shiftedTimestampLeaf op name (signedNanos sub d) c scope = .ok predicate →
      ∀ engine (store : Store schema) (env : store.Env), InScope store scope env →
        HoldsInstants scope store env →
          predicate.truth engine store env = TemporalExpression.comparisonTruth now
            (storedInstant scope store env) op left right) :
    ShiftSolved name sub text literal scope := by
  intro path c d hpath habsolute hliteral hspelled hrange
  have hc := timestampConstant_eq_ok_iff.mpr hliteral
  obtain ⟨hnanos, hcrange⟩ := nanos_of_timestampConstant hc
  have hd : CelDuration.parse text = .ok d := by
    refine CelDuration.parse_eq_ok_iff_spelled.mpr ⟨hspelled, ?_⟩
    rw [inTimestampRange_iff, minTimestampNanos, maxTimestampNanos] at hcrange hrange
    rw [CelDuration.maxSeconds]
    have habs : |signedNanos sub d| = |d| := by
      cases sub with
      | true => exact abs_neg d
      | false => rfl
    have hle : |signedNanos sub d| ≤ 315537897599999999999 := abs_le.mpr (by omega)
    omega
  obtain ⟨predicate, hpredicate⟩ := shiftedTimestampLeaf_accepts.mpr ⟨hrange, path, hpath, habsolute⟩
  -- The row that holds an instant, by both readings.
  have hrow : ∀ t : CelTimestamp,
      (if inTimestampRange (t.nanos + signedNanos sub d) then
        Truth.ofBool (op.test (.finite (t.nanos + signedNanos sub d : Int)) (.finite c))
      else .unknown) =
        ((GoTime.parseDuration text).bind fun m => shiftedInstant t.nanos (signedNanos sub m)).elim
          .unknown fun n => .ofBool (op.test (.finite n) (.finite c)) := by
    intro t
    have htruth := h c d predicate hc hd hpredicate .bare _ _ inScope_rowsOf (holdsInstants_filled t)
    rw [truth_shiftedTimestampLeaf (holdsInstants_filled t) hpredicate,
      comparisonTruth_of_right ((constant_of_timestamp hright).1 _ _), (field_of_shifted hleft).1,
      storedInstant_filled t hpath habsolute, hnanos] at htruth
    exact htruth
  rw [readAlike_iff hd]
  cases hgo : GoTime.parseDuration text with
  | none =>
      have hsolved := hrow ⟨c - signedNanos sub d, inTimestampRange_iff.mp hrange⟩
      rw [hgo, Int.sub_add_cancel, if_pos hcrange] at hsolved
      cases htest : op.test (.finite c) (.finite c) with
      | true =>
          rw [htest] at hsolved
          cases hsolved
      | false =>
          rw [htest] at hsolved
          cases hsolved
  | some m =>
      by_contra hne
      have hdiffer : signedNanos sub d ≠ signedNanos sub m :=
        fun hsame => hne (congrArg some (CelDuration.signedNanos_inj.mp hsame).symm)
      have hsign : 0 ≤ signedNanos sub d ∧ 0 ≤ signedNanos sub m ∨
          signedNanos sub d ≤ 0 ∧ signedNanos sub m ≤ 0 := by
        have hreadings := readings_sign hspelled hgo
        rw [signedNanos, signedNanos]
        split <;> omega
      obtain ⟨t, ht⟩ := exists_inTimestampRange_ne hcrange hrange hdiffer hsign
      have hboth := hrow t
      rw [hgo, Option.bind_some, shiftedInstant] at hboth
      cases hexact : inTimestampRange (t.nanos + signedNanos sub d) with
      | true =>
          have hout : inTimestampRange (t.nanos + signedNanos sub m) = false :=
            Bool.of_not_eq_true fun hin => ht (hexact.trans hin.symm)
          rw [hexact, hout, if_pos rfl, if_neg Bool.false_ne_true] at hboth
          exact Truth.ofBool_ne_unknown _ hboth
      | false =>
          have hin : inTimestampRange (t.nanos + signedNanos sub m) = true :=
            Bool.of_not_eq_false fun hout => ht (hexact.trans hout.symm)
          rw [hexact, hin, if_pos rfl, if_neg Bool.false_ne_true] at hboth
          exact Truth.ofBool_ne_unknown _ hboth.symm

/-- The epoch and the instants around it tell a duration apart that CEL reads otherwise, or that
saturates, at the clock that the duration is away from them. -/
theorem sinceSolved_of_leaf (hleft : since? left = some name) (hright : duration? right = some text)
    (h : ∀ now d predicate, CelDuration.parse text = .ok d →
      timeSinceLeaf now op name d scope = .ok predicate →
      ∀ engine (store : Store schema) (env : store.Env), InScope store scope env →
        HoldsInstants scope store env →
          predicate.truth engine store env = TemporalExpression.comparisonTruth now
            (storedInstant scope store env) op left right) :
    SinceSolved op name text scope := by
  intro path d hpath habsolute hspelled hseconds
  have hd := CelDuration.parse_eq_ok_iff_spelled.mpr ⟨hspelled, hseconds⟩
  have hbound : inTimestampRange (d - d) = true := by
    rw [Int.sub_self]
    decide
  obtain ⟨predicate, hpredicate⟩ := timeSinceLeaf_accepts.mpr ⟨hbound, path, hpath, habsolute⟩
  have hrow : ∀ t : CelTimestamp,
      Truth.ofBool (op.test (.finite (d - t.nanos : Int)) (.finite d)) =
        (GoTime.parseDuration text).elim .unknown fun m =>
          .ofBool (op.test (.finite (saturatedSince d t.nanos)) (.finite m)) := by
    intro t
    have htruth := h d d predicate hd hpredicate .bare _ _ inScope_rowsOf (holdsInstants_filled t)
    rw [truth_timeSinceLeaf (holdsInstants_filled t) hpredicate, TemporalExpression.comparisonTruth,
      (field_of_since hleft).1, (constant_of_duration hright).1,
      storedInstant_filled t hpath habsolute] at htruth
    cases hgo : GoTime.parseDuration text with
    | none =>
        rw [hgo] at htruth
        exact htruth
    | some m =>
        rw [hgo] at htruth
        exact htruth
  have hnear : ∀ nanos : Int, -1 ≤ nanos → nanos ≤ 1 →
      minTimestampNanos ≤ nanos ∧ nanos ≤ maxTimestampNanos := by
    intro nanos hlow hhigh
    rw [minTimestampNanos, maxTimestampNanos]
    omega
  rw [readAlike_iff hd]
  cases hgo : GoTime.parseDuration text with
  | none =>
      have hepoch := hrow ⟨0, hnear 0 (by decide) (by decide)⟩
      rw [hgo] at hepoch
      exact absurd hepoch (Truth.ofBool_ne_unknown _)
  | some m =>
      obtain ⟨-, -, -, -, -, hfits⟩ := CelDuration.goParseDuration_cases hgo
      have htests := saturates_of_tests hfits fun t hlow hhigh => by
        have hboth := hrow ⟨t, hnear t hlow hhigh⟩
        rw [hgo, Option.elim_some, Truth.ofBool_inj] at hboth
        exact hboth
      exact ⟨congrArg some htests.1, htests.2⟩

/-! Where the leaves stand in the translation. -/

theorem translate_shifted (hleft : shifted? left = some (name, sub, text))
    (hright : timestamp? right = some literal) (hc : timestampConstant literal = .ok c)
    (hd : CelDuration.parse text = .ok d) :
    translateTemporal now op left right scope =
        shiftedTimestampLeaf op name (signedNanos sub d) c scope ∧
      translateTemporal now op right left scope =
        shiftedTimestampLeaf op.mirrored name (signedNanos sub d) c scope := by
  rw [translateTemporal, translateTemporal, (field_of_shifted hleft).2, hd,
    (constant_of_timestamp hright).2]
  constructor
  · show (timestampConstant literal >>= fun c =>
      shiftedTimestampLeaf op name (signedNanos sub d) c scope) = _
    rw [hc]
    rfl
  · show (timestampConstant literal >>= fun c =>
      shiftedTimestampLeaf op.mirrored name (signedNanos sub d) c scope) = _
    rw [hc]
    rfl

theorem translate_since (hleft : since? left = some name) (hright : duration? right = some text)
    (hd : CelDuration.parse text = .ok d) :
    translateTemporal now op left right scope = timeSinceLeaf now op name d scope ∧
      translateTemporal now op right left scope = timeSinceLeaf now op.mirrored name d scope := by
  rw [translateTemporal, translateTemporal, (field_of_since hleft).2,
    (constant_of_duration hright).2, hd]
  exact ⟨rfl, rfl⟩

theorem solved_of_decides (h : DecidesTimestamps op left right scope) : Solved op left right scope where
  shift := by
    intro name sub text literal hleft hright
    apply shiftSolved_of_leaf hleft hright
    intro c d predicate hc hd hleaf
    exact h 0 predicate ((translate_shifted hleft hright hc hd).1.trans hleaf)
  shiftAfter := by
    intro name sub text literal hleft hright
    apply shiftSolved_of_leaf hright hleft
    intro c d predicate hc hd hleaf engine store env hscope hstored
    rw [← comparisonTruth_mirrored]
    exact h 0 predicate ((translate_shifted hright hleft hc hd).2.trans hleaf) engine store env
      hscope hstored
  since := by
    intro name text hleft hright
    apply sinceSolved_of_leaf hleft hright
    intro now d predicate hd hleaf
    exact h now predicate ((translate_since hleft hright hd).1.trans hleaf)
  sinceAfter := by
    intro name text hleft hright
    apply sinceSolved_of_leaf hright hleft
    intro now d predicate hd hleaf engine store env hscope hstored
    rw [← comparisonTruth_mirrored]
    exact h now predicate ((translate_since hright hleft hd).2.trans hleaf) engine store env hscope
      hstored

theorem decides_of_solved (hsolved : Solved op left right scope) :
    DecidesTimestamps op left right scope := by
  intro now predicate h engine store env _ hstored
  rw [translateTemporal] at h
  obtain ⟨l, hl, h⟩ := Except.bind_eq_ok_iff.mp h
  obtain ⟨r, hr, h⟩ := Except.bind_eq_ok_iff.mp h
  have hleft := resolve_shaped hl
  have hright := resolve_shaped hr
  split at h
  next =>
    obtain ⟨c, hc, h⟩ := Except.bind_eq_ok_iff.mp h
    exact column_decides hleft hright hc h hstored
  next =>
    obtain ⟨c, hc, h⟩ := Except.bind_eq_ok_iff.mp h
    rw [comparisonTruth_mirrored]
    exact column_decides hright hleft hc h hstored
  next =>
    obtain ⟨c, hc, h⟩ := Except.bind_eq_ok_iff.mp h
    obtain ⟨sub, text, d, hshifted, hd, rfl⟩ := hleft
    exact shifted_decides hshifted hright hc hd (hsolved.shift _ _ _ _ hshifted hright) h hstored
  next =>
    obtain ⟨c, hc, h⟩ := Except.bind_eq_ok_iff.mp h
    obtain ⟨sub, text, d, hshifted, hd, rfl⟩ := hright
    rw [comparisonTruth_mirrored]
    exact shifted_decides hshifted hleft hc hd (hsolved.shiftAfter _ _ _ _ hleft hshifted) h hstored
  next =>
    obtain ⟨text, htext, hd⟩ := hright
    exact since_decides hleft htext hd (hsolved.since _ _ hleft htext) h hstored
  next =>
    obtain ⟨text, htext, hd⟩ := hleft
    rw [comparisonTruth_mirrored]
    exact since_decides hright htext hd (hsolved.sinceAfter _ _ htext hright) h hstored
  next =>
    obtain ⟨a, ha, h⟩ := Except.bind_eq_ok_iff.mp h
    obtain ⟨b, hb, h⟩ := Except.bind_eq_ok_iff.mp h
    obtain rfl := Except.ok.inj h
    rw [truth_constant, comparisonTruth_of_right ((constant_of_timestamp hright).1 _ _),
      (constant_of_timestamp hleft).1, (nanos_of_timestampConstant ha).1,
      (nanos_of_timestampConstant hb).1]
    rfl
  next =>
    split at h
    next => cases h
    next => cases h

end Leaf

/-- A comparison that is accepted decides every stored instant at every clock as CEL does exactly
when its duration, unless the comparison is refused, is read as in CEL and is no bound that CEL's
differences saturate at; a duration's text is read as in CEL exactly when what CEL cuts off its
terms comes to less than a nanosecond, and when CEL refuses no value within 10000 years. -/
theorem timestamps_decided_iff (op : ComparisonOperator) (left right : TemporalExpression kind)
    (scope : Scope schema) (text : String) :
    (DecidesTimestamps op left right scope ↔ Solved op left right scope) ∧
      ((∀ nanos, CelDuration.parse text = .ok nanos ↔ GoTime.parseDuration text = some nanos) ↔
        CelDuration.ReadAlike text) :=
  ⟨⟨solved_of_decides, decides_of_solved⟩, CelDuration.parse_iff_goParseDuration⟩

/-! ## A duration past int64 -/

theorem pastInt64_seconds : "9223372037".toList ≠ [] ∧ "9223372037".toList.all isDigit = true := by
  decide

theorem noFraction : 0 < 10 ^ 0 := by
  decide

/-- One second more than an int64 of nanoseconds holds. -/
def pastInt64 : SecondsText :=
  ⟨false, "9223372037".toList, ⟨0, 0, Nat.zero_le 9, noFraction⟩, pastInt64_seconds.1,
    pastInt64_seconds.2⟩

def documents : Schema where
  Entity := Unit
  element _ := .other "Document"
  column _ path := if path = "createdAt" then some (.other "Instant") else none
  joined _ _ := none

def documentScope : Scope documents :=
  .root () [("createdAt", .field ⟨"createdAt", none⟩)]

theorem newYear_valid :
    parseRfc3339Timestamp "2024-01-01T00:00:00Z" = some 1704067200000000000 := by
  decide

def newYear : TimestampLiteral :=
  ⟨"2024-01-01T00:00:00Z", 1704067200000000000, newYear_valid⟩

/-- `timestamp(createdAt) + duration("9223372037s") < timestamp("2024-01-01T00:00:00Z")`: the
duration is no duration of CEL, and instants before 1731 are selected. -/
theorem pastInt64_misread :
    CelDuration.parse "9223372037s" = .ok 9223372037000000000 ∧
      GoTime.parseDuration "9223372037s" = none ∧
      ¬ DecidesTimestamps .lt (.shift false (.column "createdAt") (.duration "9223372037s"))
        (.timestamp newYear) documentScope := by
  have htext : String.ofList pastInt64.text = "9223372037s" := by decide
  have hmagnitude : pastInt64.magnitude = 9223372037000000000 := by decide
  have hspelled : spelledNanos "9223372037s" = some 9223372037000000000 := by
    have hexact := CelDuration.exactMagnitude_seconds pastInt64
    rw [htext, hmagnitude] at hexact
    rw [spelledNanos, hexact]
    decide
  have hgo : GoTime.parseDuration "9223372037s" = none := by
    rw [← htext, SecondsText.goParseDuration_text]
    exact if_neg (by decide)
  have hparse := CelDuration.parse_eq_ok_iff_spelled.mpr ⟨hspelled, by decide⟩
  refine ⟨hparse, hgo, fun h => ?_⟩
  have halike := (solved_of_decides h).shift "createdAt" false "9223372037s" newYear rfl rfl
    ⟨0, some "createdAt", .other "Instant"⟩ 1704067200000000000 9223372037000000000 rfl rfl
    (by decide) hspelled (by decide)
  rw [readAlike_iff hparse, hgo] at halike
  cases halike

end Agreement

end QueryPlanAdapters.SpringData
