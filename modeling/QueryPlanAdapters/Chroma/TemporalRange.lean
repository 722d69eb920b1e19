import QueryPlanAdapters.Chroma.PostFilter
import QueryPlanAdapters.Convex.TemporalRange

/-!
# ChromaDB: timestamps and durations in range

The post-filter checks a parsed timestamp and every duration, and not a timestamp that a
duration has moved.
-/

namespace QueryPlanAdapters

namespace Chroma

def held : TemporalValue → Value
  | .timestamp t => .timestamp t.nanos
  | .duration d => .duration d.nanos

def heldAs (v : Option TemporalValue) : Outcome :=
  match v with
  | some v => .value (held v)
  | none => .error

def readText (ctx : Context) (env : Env) : TemporalText → Outcome
  | .literal s => .value (.string s)
  | .reference name =>
      match ctx.bindings.lookup (referenceRoot name) with
      | some _ =>
          match referenceRest name with
          | none => readBinding env.bindings name
          | some path => getNestedValue (readBinding env.bindings (referenceRoot name)) path
      | none => readMetadata env.metadata (ctx.fields.metadataKey name)

section Range

variable [Double.Rounding] {now : Int} {ctx : Context} {env : Env} {c : Compiled}

theorem compile_text {text : TemporalText} (h : compile now text.node ctx = .ok c) (env : Env) :
    c.run env = .ok (readText ctx env text) := by
  cases text with
  | literal s =>
      obtain rfl := Except.ok.inj h
      rfl
  | reference name =>
      have h : compileVariable name ctx = .ok c := h
      rw [compileVariable] at h
      cases hbound : ctx.bindings.lookup (referenceRoot name) with
      | some bound =>
          rw [hbound] at h
          cases hrest : referenceRest name with
          | none =>
              simp only [hrest] at h
              obtain rfl := Except.ok.inj h
              simp only [readText, hbound, hrest]
          | some path =>
              simp only [hrest] at h
              obtain rfl := Except.ok.inj h
              simp only [readText, hbound, hrest]
      | none =>
          rw [hbound] at h
          cases hmapped : ctx.fields.isMapped name with
          | true =>
              rw [hmapped] at h
              obtain rfl := Except.ok.inj h
              simp only [readText, hbound]
          | false =>
              rw [hmapped] at h
              cases h

omit [Double.Rounding] in
theorem readText_parent (parent : PlanOperator) (text : TemporalText) :
    readText { ctx with parent } env text = readText ctx env text := by
  cases text <;> rfl

/-- What encloses an expression decides no more than a message. -/
theorem compile_node (t : TemporalTree) (parent : PlanOperator) :
    compile now t.node { ctx with parent } = compile now t.node ctx := by
  cases t <;> rw [TemporalTree.node, compile_expression, compile_expression]

def convertOutcome (convert : Value → Outcome) : Outcome → Outcome
  | .error => .error
  | .value v => convert v

/-- A conversion that compiles converts its operand's value. -/
theorem conversion_eq_ok {operator : PlanOperator} {type : StaticType} {refused : List StaticType}
    {convert : Value → Outcome} {operand : Operand}
    (h : conversion operator type refused convert [compilerTree now operand] ctx = .ok c) :
    c.type = type ∧ ∃ inner, compile now operand ctx = .ok inner ∧
      ∀ env o, inner.run env = .ok o →
        c.run env = .ok (convertOutcome convert o) := by
  obtain ⟨inner, hinner, h⟩ := Except.bind_eq_ok_iff.mp h
  split at h
  · cases h
  · obtain rfl := Except.ok.inj h
    refine ⟨rfl, inner, hinner, fun env o ho => ?_⟩
    simp only [ho]
    cases o <;> rfl

def IsTemporal (type : StaticType) : Prop :=
  type = .timestamp ∨ type = .duration

omit [Double.Rounding] in
/-- Timestamps and durations combine to timestamps and durations, or are refused. -/
theorem temporalType_isTemporal {sub : Bool} {left right : StaticType} (hleft : IsTemporal left)
    (hright : IsTemporal right) {type : Option StaticType}
    (h : temporalType (TemporalTree.operator sub) left right = .ok type) :
    ∃ t, type = some t ∧ IsTemporal t := by
  cases sub with
  | false =>
      obtain rfl | rfl := hleft
      · obtain rfl | rfl := hright
        · cases h
        · exact ⟨_, (Except.ok.inj h).symm, .inl rfl⟩
      · obtain rfl | rfl := hright
        · exact ⟨_, (Except.ok.inj h).symm, .inl rfl⟩
        · exact ⟨_, (Except.ok.inj h).symm, .inr rfl⟩
  | true =>
      obtain rfl | rfl := hleft
      · obtain rfl | rfl := hright
        · exact ⟨_, (Except.ok.inj h).symm, .inr rfl⟩
        · exact ⟨_, (Except.ok.inj h).symm, .inl rfl⟩
      · obtain rfl | rfl := hright
        · cases h
        · exact ⟨_, (Except.ok.inj h).symm, .inr rfl⟩

/-- A sum or difference that compiles has compiled its operands, and over timestamps and
durations it combines their values, a shifted timestamp unchecked. -/
theorem arithmetic_eq_ok {sub : Bool} {op : ArithmeticOperator} {left right : Operand}
    (h : arithmetic (TemporalTree.operator sub) op
      [compilerTree now left, compilerTree now right] ctx = .ok c) :
    ∃ l r, compile now left ctx = .ok l ∧ compile now right ctx = .ok r ∧
      (IsTemporal l.type → IsTemporal r.type → IsTemporal c.type ∧ ∀ env, c.run env = (do
        match ← runAll [l, r] env with
        | some [l, r] => return temporalArithmetic (TemporalTree.operator sub) l r
        | _ => return .error)) := by
  obtain ⟨⟨l, r⟩, hboth, h⟩ := Except.bind_eq_ok_iff.mp h
  obtain ⟨l', hleft, hboth⟩ := Except.bind_eq_ok_iff.mp hboth
  obtain ⟨r', hright, hboth⟩ := Except.bind_eq_ok_iff.mp hboth
  obtain ⟨rfl, rfl⟩ := Prod.mk.inj (Except.ok.inj hboth)
  refine ⟨l', r', hleft, hright, fun hl hr => ?_⟩
  obtain ⟨type, htype, h⟩ := Except.bind_eq_ok_iff.mp h
  obtain ⟨t, rfl, ht⟩ := temporalType_isTemporal hl hr htype
  obtain rfl := Except.ok.inj h
  exact ⟨ht, fun env => rfl⟩

theorem compileOperator_sum (sub : Bool) (trees : List CompilerTree) :
    compileOperator now (TemporalTree.operator sub) trees =
      arithmetic (TemporalTree.operator sub) (if sub then .sub else .add) trees := by
  cases sub <;> rfl

theorem compile_isTemporal {t : TemporalTree} (h : compile now t.node ctx = .ok c) :
    IsTemporal c.type := by
  induction t generalizing ctx c with
  | timestamp text =>
      rw [TemporalTree.node, compile_expression] at h
      exact .inl (conversion_eq_ok h).1
  | duration text =>
      rw [TemporalTree.node, compile_expression] at h
      exact .inr (conversion_eq_ok h).1
  | sum sub left right ihl ihr =>
      rw [TemporalTree.node, compile_expression, compileOperator_sum] at h
      obtain ⟨l, r, hl, hr, h⟩ := arithmetic_eq_ok h
      exact (h (ihl hl) (ihr hr)).1

theorem compile_sum {sub : Bool} {left right : TemporalTree}
    (h : compile now (TemporalTree.sum sub left right).node ctx = .ok c) :
    ∃ l r, compile now left.node ctx = .ok l ∧ compile now right.node ctx = .ok r ∧
      ∀ env a b, l.run env = .ok (heldAs a) → r.run env = .ok (heldAs b) →
        c.run env = .ok (match a, b with
          | some a, some b => temporalArithmetic (TemporalTree.operator sub) (held a) (held b)
          | _, _ => .error) := by
  rw [TemporalTree.node, compile_expression, compileOperator_sum] at h
  obtain ⟨l, r, hl, hr, h⟩ := arithmetic_eq_ok h
  obtain ⟨-, hrun⟩ := h (compile_isTemporal hl) (compile_isTemporal hr)
  rw [compile_node] at hl hr
  refine ⟨l, r, hl, hr, fun env a b ha hb => ?_⟩
  rw [hrun, runAll, ha]
  cases a with
  | none => rfl
  | some a =>
      cases b with
      | none =>
          simp only [runAll, hb]
          rfl
      | some b =>
          simp only [runAll, hb]
          rfl

omit [Double.Rounding] in
theorem temporalArithmetic_eq_iff (sub : Bool) (l r : TemporalValue) :
    temporalArithmetic (TemporalTree.operator sub) (held l) (held r) =
        heldAs (TemporalValue.combine sub l r) ↔
      TemporalValue.ShiftInRange sub l r := by
  have hduration : ∀ nanos, checkedDuration nanos = heldAs (TemporalValue.ofDuration nanos) := by
    intro nanos
    rw [checkedDuration, TemporalValue.ofDuration]
    split <;> rfl
  have htimestamp : ∀ nanos, Outcome.value (.timestamp nanos) =
      heldAs (TemporalValue.ofTimestamp nanos) ↔ inTimestampRange nanos = true := by
    intro nanos
    rw [inTimestampRange, Bool.and_eq_true, decide_eq_true_eq, decide_eq_true_eq,
      TemporalValue.ofTimestamp]
    split
    next inRange => exact iff_of_true rfl inRange
    next outside => exact iff_of_false (by rintro ⟨⟩) outside
  cases l with
  | timestamp a =>
      cases r with
      | timestamp b =>
          refine iff_of_true ?_ trivial
          cases sub with
          | false => rfl
          | true => exact hduration _
      | duration b => cases sub <;> exact htimestamp _
  | duration a =>
      cases r with
      | timestamp b =>
          cases sub with
          | true => exact iff_of_true rfl fun h => Bool.noConfusion h
          | false => exact (htimestamp _).trans ⟨fun h _ => h, fun h => h rfl⟩
      | duration b =>
          refine iff_of_true ?_ trivial
          cases sub <;> exact hduration _

end Range

/-- A compiled expression gives CEL's value on a record: a timestamp and a duration in
range, or an error. -/
def KeepsRange [Double.Rounding] (now : Int) (ctx : Context) (env : Env) (t : TemporalTree) :
    Prop :=
  ∀ c, compile now t.node ctx = .ok c →
    c.run env = .ok (heldAs (t.exact durationUnit (readText ctx env)))

section Range

variable [Double.Rounding] {now : Int} {ctx : Context} {env : Env}

theorem keepsRange_text {t : TemporalTree} (ht : ∀ sub left right, t ≠ .sum sub left right) :
    KeepsRange now ctx env t := by
  intro c h
  cases t with
  | timestamp text =>
      rw [TemporalTree.node, compile_expression] at h
      obtain ⟨-, inner, hinner, h⟩ := conversion_eq_ok h
      rw [h env _ (compile_text hinner env), readText_parent, TemporalTree.exact]
      cases readText ctx env text with
      | error => rfl
      | value v =>
          cases v with
          | string s =>
              cases hparsed : parseRfc3339Timestamp s with
              | none => simp only [convertOutcome, convertToTimestamp, hparsed, Option.bind_none, heldAs]
              | some nanos =>
                  obtain ⟨inRange, hv⟩ := ofTimestamp_of_parsed hparsed
                  simp only [convertOutcome, convertToTimestamp, hparsed, Option.bind_some, hv, heldAs, held]
          | _ => rfl
  | duration text =>
      rw [TemporalTree.node, compile_expression] at h
      obtain ⟨-, inner, hinner, h⟩ := conversion_eq_ok h
      rw [h env _ (compile_text hinner env), readText_parent, TemporalTree.exact]
      cases readText ctx env text with
      | error => rfl
      | value v =>
          cases v with
          | string s =>
              cases hparsed : parseDuration durationUnit s with
              | duration nanos =>
                  obtain ⟨fits, hv⟩ := ofDuration_of_parsed hparsed
                  simp only [convertOutcome, convertToDuration, hparsed, hv, heldAs, held]
              | _ => simp only [convertOutcome, convertToDuration, hparsed, heldAs]
          | _ => rfl
  | sum sub left right => exact absurd rfl (ht sub left right)

/-- Over operands that keep their range, a sum keeps its own exactly where it shifts no
timestamp out of it. -/
theorem keepsRange_sum_iff {sub : Bool} {left right : TemporalTree} {c : Compiled}
    (hcompiled : compile now (TemporalTree.sum sub left right).node ctx = .ok c)
    (hleft : KeepsRange now ctx env left) (hright : KeepsRange now ctx env right) :
    KeepsRange now ctx env (.sum sub left right) ↔
      (TemporalTree.sum sub left right).ShiftInRange durationUnit (readText ctx env) := by
  obtain ⟨l, r, hl, hr, hrun⟩ := compile_sum hcompiled
  have hrun := hrun env _ _ (hleft l hl) (hright r hr)
  have hkeeps : KeepsRange now ctx env (.sum sub left right) ↔
      c.run env = .ok (heldAs ((TemporalTree.sum sub left right).exact durationUnit
        (readText ctx env))) := by
    constructor
    · intro h
      exact h c hcompiled
    · intro h c' hcompiled'
      obtain rfl := Except.ok.inj (hcompiled.symm.trans hcompiled')
      exact h
  rw [hkeeps, hrun, Except.ok.injEq, TemporalTree.exact, TemporalTree.ShiftInRange]
  cases left.exact durationUnit (readText ctx env) with
  | none => exact iff_of_true rfl fun l r h => by cases h
  | some a =>
      cases right.exact durationUnit (readText ctx env) with
      | none => exact iff_of_true rfl fun l r _ h => by cases h
      | some b =>
          refine (temporalArithmetic_eq_iff sub a b).trans ⟨?_, ?_⟩
          · intro h l r hl hr
            obtain rfl := Option.some.inj hl
            obtain rfl := Option.some.inj hr
            exact h
          · intro h
            exact h a b rfl rfl

theorem keepsRange_of_shiftInRange {t : TemporalTree}
    (h : ∀ s ∈ t.subtrees, (∃ c, compile now s.node ctx = .ok c) →
      s.ShiftInRange durationUnit (readText ctx env)) : KeepsRange now ctx env t := by
  induction t with
  | timestamp text => exact keepsRange_text fun _ _ _ h => by cases h
  | duration text => exact keepsRange_text fun _ _ _ h => by cases h
  | sum sub left right ihl ihr =>
      have hleft := ihl fun s hs => h s (TemporalTree.left_subtrees hs)
      have hright := ihr fun s hs => h s (TemporalTree.right_subtrees hs)
      intro c hcompiled
      have hshift := h _ (TemporalTree.self_mem_subtrees _) ⟨c, hcompiled⟩
      exact (keepsRange_sum_iff hcompiled hleft hright).mpr hshift c hcompiled

end Range

end Chroma

/-- Convex keeps the range of every expression. Chroma keeps it throughout an expression
exactly where no operation that compiles moves a timestamp out of CEL's range. -/
theorem temporal_keepsRange_iff [Double.Rounding] (t : TemporalTree) :
    (∀ scope, Convex.KeepsRange scope t) ∧
      ∀ now ctx env, (∀ s ∈ t.subtrees, Chroma.KeepsRange now ctx env s) ↔
        ∀ s ∈ t.subtrees, (∃ c, Chroma.compile now s.node ctx = .ok c) →
          s.ShiftInRange Chroma.durationUnit (Chroma.readText ctx env) := by
  refine ⟨fun scope o h => Convex.evaluate_temporalTree h, fun now ctx env => ⟨?_, ?_⟩⟩
  · rintro h s hs ⟨c, hcompiled⟩
    cases s with
    | timestamp text => trivial
    | duration text => trivial
    | sum sub left right =>
        have hleft := h left (TemporalTree.subtrees_trans
          (TemporalTree.left_subtrees (TemporalTree.self_mem_subtrees _)) hs)
        have hright := h right (TemporalTree.subtrees_trans
          (TemporalTree.right_subtrees (TemporalTree.self_mem_subtrees _)) hs)
        exact (Chroma.keepsRange_sum_iff hcompiled hleft hright).mp (h _ hs)
  · intro h s hs
    exact Chroma.keepsRange_of_shiftInRange fun r hr => h r (TemporalTree.subtrees_trans hr hs)

/-! ## One hour past the last second -/

def lastSecond : CelTimestamp :=
  ⟨253402300799000000000, by decide⟩

def oneHour : CelDuration :=
  ⟨3600000000000, by decide⟩

/-- `timestamp("9999-12-31T23:59:59Z")`. -/
def lastSecondTree : TemporalTree :=
  .timestamp (.literal "9999-12-31T23:59:59Z")

/-- `duration("1h")`. -/
def oneHourTree : TemporalTree :=
  .duration (.literal "1h")

def emptyContext : Chroma.Context :=
  { fields := { isMapped := fun _ => false, metadataKey := id, isBoolean := fun _ => false }
    bindings := []
    parent := .eq }

def emptyEnv : Chroma.Env :=
  { metadata := []
    bindings := [] }

theorem parse_lastSecond :
    parseRfc3339Timestamp "9999-12-31T23:59:59Z" = some 253402300799000000000 := by
  decide

theorem parse_oneHour :
    parseDuration Chroma.durationUnit "1h" = .duration 3600000000000 ∧
      parseDuration Convex.durationUnit "1h" = .duration 3600000000000 := by
  decide

theorem exact_lastSecondTree (unitOf : String → UnitEntry) {read : TemporalText → Outcome}
    (hread : ∀ s, read (.literal s) = .value (.string s)) :
    lastSecondTree.exact unitOf read = some (.timestamp lastSecond) :=
  TemporalTree.exact_timestamp_eq_some_iff.mpr ⟨_, _, hread _, parse_lastSecond, rfl⟩

theorem exact_oneHourTree {unitOf : String → UnitEntry} {read : TemporalText → Outcome}
    (hread : ∀ s, read (.literal s) = .value (.string s))
    (hparsed : parseDuration unitOf "1h" = .duration 3600000000000) :
    oneHourTree.exact unitOf read = some (.duration oneHour) :=
  TemporalTree.exact_duration_eq_some_iff.mpr ⟨_, _, hread _, hparsed, rfl⟩

/-- Chroma's value is in the year 10000, where Convex has an error. -/
theorem temporal_pastLastSecond :
    (∃ c, Chroma.compile 0 (TemporalTree.sum false lastSecondTree oneHourTree).node emptyContext =
        .ok c ∧
      c.run emptyEnv = .ok (.value (.timestamp 253402304399000000000))) ∧
      maxTimestampNanos < 253402304399000000000 ∧
      Convex.evaluate (TemporalTree.sum false lastSecondTree oneHourTree).node Convex.emptyScope =
        .ok .error := by
  refine ⟨?_, by decide, ?_⟩
  · obtain ⟨c, hcompiled⟩ : ∃ c, Chroma.compile 0
        (TemporalTree.sum false lastSecondTree oneHourTree).node emptyContext = .ok c := ⟨_, rfl⟩
    obtain ⟨l, r, hl, hr, hrun⟩ := Chroma.compile_sum hcompiled
    have hleft : l.run emptyEnv = .ok (Chroma.heldAs (some (.timestamp lastSecond))) := by
      rw [Chroma.keepsRange_text (fun _ _ _ h => by cases h) l hl,
        exact_lastSecondTree _ fun _ => rfl]
    have hright : r.run emptyEnv = .ok (Chroma.heldAs (some (.duration oneHour))) := by
      rw [Chroma.keepsRange_text (fun _ _ _ h => by cases h) r hr,
        exact_oneHourTree (fun _ => rfl) parse_oneHour.1]
    exact ⟨c, hcompiled, hrun _ _ _ hleft hright⟩
  · have hl : lastSecondTree.exact Convex.durationUnit (Convex.readText Convex.emptyScope) =
        some (.timestamp lastSecond) := exact_lastSecondTree _ fun _ => rfl
    have hr : oneHourTree.exact Convex.durationUnit (Convex.readText Convex.emptyScope) =
        some (.duration oneHour) := exact_oneHourTree (fun _ => rfl) parse_oneHour.2
    have hleft : Convex.evaluate lastSecondTree.node Convex.emptyScope =
        .ok (Convex.heldAs (some (.timestamp lastSecond))) := by
      rw [lastSecondTree, TemporalTree.node, Convex.evaluate_conversion rfl (Convex.evaluate_text _),
        Convex.readText, Convex.convertToTimestamp, parse_lastSecond]
      rfl
    have hright : Convex.evaluate oneHourTree.node Convex.emptyScope =
        .ok (Convex.heldAs (some (.duration oneHour))) := by
      rw [oneHourTree, TemporalTree.node, Convex.evaluate_duration (Convex.evaluate_text _),
        Convex.readText, Convex.convertToDuration, parse_oneHour.2]
      rfl
    exact Convex.evaluate_sum_values (Convex.temporalKindOf_node hl)
      (Convex.temporalKindOf_node hr) hleft hright

end QueryPlanAdapters
