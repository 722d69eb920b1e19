import QueryPlanAdapters.Cel.TemporalArithmetic
import QueryPlanAdapters.Prisma.Concatenation
import QueryPlanAdapters.Prisma.Timestamps

/-!
# Prisma: timestamp arithmetic, solved for the column

The time since a column, and a column shifted by a duration, are compared by comparing the
column with another instant. A shift that leaves CEL's range is an error, and such a record
is kept from the polarity of the comparison: excluded where the comparison selects, included
where its negation does.
-/

namespace QueryPlanAdapters.Prisma

/-! ## The rewrite -/

/-- `timestamp(column)` -/
def isTimestampColumn : Node → Bool
  | .expression .timestamp [.var _] => true
  | _ => false

def isTemporalArithmetic : Node → Bool
  | .expression .timeSince _ => true
  | .expression .add operands | .expression .sub operands => operands.any isTimestampColumn
  | _ => false

/-- `Number.MAX_SAFE_INTEGER` -/
def maxSafeInteger : Nat := 2 ^ 53 - 1

/-- The whole milliseconds of a duration in the planner's spelling. -/
def spelledMilliseconds (spelling : String) : Option Int :=
  match matchSeconds spelling with
  | none => none
  | some (negative, seconds, nanos) =>
      let milliseconds := decimalValue seconds * 1000 + nanos / 1000000
      if nanos % 1000000 ≠ 0 || maxSafeInteger < milliseconds then none
      else some (if negative then -milliseconds else milliseconds)

/-- A `duration("...")` literal, in whole milliseconds. -/
def durationMilliseconds : Node → Option Int
  | .expression .duration [.value (.string spelling)] => spelledMilliseconds spelling
  | _ => none

def spelledInstant (text : String) : Option Int := do
  let instant ← (parseRfc3339Instant text).toOption
  if instant.subMillisecond then none else dateParse instant.iso

/-- A `timestamp("...")` literal at a whole millisecond. -/
def instantMilliseconds : Node → Option Int
  | .expression .timestamp [.value (.string text)] => spelledInstant text
  | _ => none

def timestampLiteral (milliseconds : Int) : Node :=
  .expression .timestamp [.value (.string (toISOString milliseconds))]

def instantLiteral (milliseconds : Int) : Option Node :=
  if milliseconds < minInstant || maxInstant < milliseconds then none
  else some (timestampLiteral milliseconds)

def compareInstant (operator : ComparisonOperator) (column instant : Node) : Node :=
  .expression (comparisonNode operator) [column, instant]

/-- The column and the duration of `timestamp(x) ± duration(d)`. -/
def shiftedColumn (arithmetic : PlanOperator) (a b : Node) : Option (Node × Int) :=
  match isTimestampColumn a, durationMilliseconds b with
  | true, some duration => some (a, duration)
  | _, _ =>
      if arithmetic = .add && isTimestampColumn b then (durationMilliseconds a).map (b, ·) else none

/-- `timestamp(x) + shift CMP timestamp(t)`, kept from its polarity where the sum is out of range. -/
def solveShift (operator : ComparisonOperator) (column : Node) (shift instant : Int)
    (positive : Bool) : Option Node := do
  let bound ← instantLiteral (instant - shift)
  let solved := compareInstant operator column bound
  if shift = 0 then return solved
  let limit ← instantLiteral (if 0 < shift then maxInstant - shift else minInstant - shift)
  let inRange := compareInstant (if 0 < shift then .le else .ge) column limit
  return if positive then .expression .and [solved, inRange]
    else .expression .or [solved, .expression .not [inRange]]

/-- A comparison over timestamp arithmetic, its arithmetic on the left. -/
def solveTemporal (operator : ComparisonOperator) (left right : Node) (positive : Bool)
    (now : Int) : Option Node :=
  match left with
  | .expression .timeSince [column] => do
      let duration ← durationMilliseconds right
      if isTimestampColumn column then
        let bound ← instantLiteral (now - duration)
        return compareInstant operator.mirrored column bound
      else none
  | .expression .add [a, b] => do
      let (column, duration) ← shiftedColumn .add a b
      let instant ← instantMilliseconds right
      solveShift operator column duration instant positive
  | .expression .sub [a, b] => do
      let (column, duration) ← shiftedColumn .sub a b
      let instant ← instantMilliseconds right
      solveShift operator column (-duration) instant positive
  | _ => none

/-- A comparison over timestamp arithmetic, as one of the bare column with an instant. -/
def rewriteTemporalComparison (operator : PlanOperator) (operands : List Node) (positive : Bool)
    (now : Int) : Option Node :=
  match comparisonOperator operator, operands with
  | some operator, [left, right] =>
      if !isTemporalArithmetic left && isTemporalArithmetic right then
        solveTemporal operator.mirrored right left positive now
      else solveTemporal operator left right positive now
  | _, _ => none

/-! ## The comparisons -/

/-- Timestamp arithmetic, with what it is compared with. -/
inductive TemporalArithmetic where
  /-- `timeSince(timestamp(x))` and a duration. -/
  | since (spelling : String)
  /-- `timestamp(x) + duration(d)` and an instant. -/
  | sum (spelling literal : String)
  /-- `duration(d) + timestamp(x)` and an instant. -/
  | sumAfter (spelling literal : String)
  /-- `timestamp(x) - duration(d)` and an instant. -/
  | difference (spelling literal : String)

namespace TemporalArithmetic

def spelling : TemporalArithmetic → String
  | since spelling | sum spelling _ | sumAfter spelling _ | difference spelling _ => spelling

def timestampColumn (name : String) : Node :=
  .expression .timestamp [.var name]

def durationNode (spelling : String) : Node :=
  .expression .duration [.value (.string spelling)]

def node (name : String) : TemporalArithmetic → Node
  | since _ => .expression .timeSince [timestampColumn name]
  | sum spelling _ => .expression .add [timestampColumn name, durationNode spelling]
  | sumAfter spelling _ => .expression .add [durationNode spelling, timestampColumn name]
  | difference spelling _ => .expression .sub [timestampColumn name, durationNode spelling]

def comparedWith : TemporalArithmetic → Node
  | since spelling => durationNode spelling
  | sum _ literal | sumAfter _ literal | difference _ literal =>
      .expression .timestamp [.value (.string literal)]

/-- How far a sum or a difference moves the timestamp. -/
def shift : TemporalArithmetic → Int → Int
  | difference _ _, duration => -duration
  | _, duration => duration

/-- Whether the arithmetic is a sum or a difference, with the instant it is compared with. -/
def literal? : TemporalArithmetic → Option String
  | since _ => none
  | sum _ literal | sumAfter _ literal | difference _ literal => some literal

end TemporalArithmetic

/-- A comparison of timestamp arithmetic on a column, which may stand on either side. -/
structure TemporalComparison where
  operator : ComparisonOperator
  arithmeticFirst : Bool
  name : String
  arithmetic : TemporalArithmetic

namespace TemporalComparison

def operands (c : TemporalComparison) : List Node :=
  if c.arithmeticFirst then [c.arithmetic.node c.name, c.arithmetic.comparedWith]
  else [c.arithmetic.comparedWith, c.arithmetic.node c.name]

def node (c : TemporalComparison) : Node :=
  .expression (comparisonNode c.operator) c.operands

/-- The operator with the arithmetic on its left. -/
def sided (c : TemporalComparison) : ComparisonOperator :=
  if c.arithmeticFirst then c.operator else c.operator.mirrored

/-- CEL's nanoseconds of the arithmetic on an instant, none where it is an error. -/
def computed (c : TemporalComparison) (now duration instant : Int) : Option Int :=
  match c.arithmetic with
  | .since _ => some (saturatedSince now instant)
  | arithmetic =>
      if inTimestampRange (instant + arithmetic.shift duration) then
        some (instant + arithmetic.shift duration)
      else none

/-- CEL's comparison on a record, from the nanoseconds of the clock, of the duration and of what
the arithmetic is compared with; UNKNOWN is an error. -/
def truth (c : TemporalComparison) (now duration other : Int) (stored : Option Int) : Truth :=
  (stored.bind fun milliseconds => c.computed now duration (milliseconds * 1000000)).elim .unknown
    fun nanos => .ofBool (c.sided.test (.finite nanos) (.finite other))

end TemporalComparison

/-- What the rewritten comparison answers: UNKNOWN for a missing column, and for an instant that
the shift moves out of range the answer that its polarity does not select. -/
def keptFrom (positive : Bool) (stored : Option Int) (truth : Truth) : Truth :=
  if stored = none then .unknown
  else if truth = .unknown then .ofBool (!positive)
  else truth

/-! ## What is rewritten -/

section Rewritten

variable {c : TemporalComparison} {positive : Bool} {now : Int} {rewritten : Node}

/-- The arithmetic is taken from either side. -/
theorem rewriteTemporalComparison_eq :
    rewriteTemporalComparison (comparisonNode c.operator) c.operands positive now =
      solveTemporal c.sided (c.arithmetic.node c.name) c.arithmetic.comparedWith positive now := by
  have harithmetic : isTemporalArithmetic (c.arithmetic.node c.name) = true := by
    cases c.arithmetic <;> rfl
  have hcompared : isTemporalArithmetic c.arithmetic.comparedWith = false := by
    cases c.arithmetic <;> rfl
  rw [rewriteTemporalComparison.eq_def, comparisonOperator_comparisonNode,
    TemporalComparison.operands, TemporalComparison.sided]
  cases c.arithmeticFirst with
  | true => simp [harithmetic]
  | false => simp [harithmetic, hcompared]

theorem solveTemporal_add {operator : ComparisonOperator} (a b right : Node) :
    solveTemporal operator (.expression .add [a, b]) right positive now =
      (shiftedColumn .add a b).bind fun shifted => (instantMilliseconds right).bind fun instant =>
        solveShift operator shifted.1 shifted.2 instant positive := rfl

theorem solveTemporal_sub {operator : ComparisonOperator} (a b right : Node) :
    solveTemporal operator (.expression .sub [a, b]) right positive now =
      (shiftedColumn .sub a b).bind fun shifted => (instantMilliseconds right).bind fun instant =>
        solveShift operator shifted.1 (-shifted.2) instant positive := rfl

theorem solveTemporal_since {operator : ComparisonOperator} (name spelling : String)
    (h : solveTemporal operator ((TemporalArithmetic.since spelling).node name)
      (TemporalArithmetic.since spelling).comparedWith positive now = some rewritten) :
    ∃ duration bound, spelledMilliseconds spelling = some duration ∧
      instantLiteral (now - duration) = some bound ∧
        rewritten =
          compareInstant operator.mirrored (TemporalArithmetic.timestampColumn name) bound := by
  obtain ⟨duration, hduration, h⟩ := Option.bind_eq_some_iff.mp h
  obtain ⟨bound, hbound, h⟩ := Option.bind_eq_some_iff.mp h
  exact ⟨duration, bound, hduration, hbound, (Option.some_inj.mp h).symm⟩

/-- The column and the shift of a sum or a difference. -/
theorem solveTemporal_eq_shifted {operator : ComparisonOperator} {arithmetic : TemporalArithmetic}
    {literal : String} (harithmetic : arithmetic.literal? = some literal) (name : String) :
    solveTemporal operator (arithmetic.node name) arithmetic.comparedWith positive now =
      (spelledMilliseconds arithmetic.spelling).bind fun duration =>
        (spelledInstant literal).bind fun instant =>
          solveShift operator (TemporalArithmetic.timestampColumn name)
            (arithmetic.shift duration) instant positive := by
  have hfirst : ∀ plan spelling, shiftedColumn plan (TemporalArithmetic.timestampColumn name)
      (TemporalArithmetic.durationNode spelling) =
        (spelledMilliseconds spelling).map (TemporalArithmetic.timestampColumn name, ·) := by
    intro plan spelling
    have hduration : durationMilliseconds (TemporalArithmetic.durationNode spelling) =
        spelledMilliseconds spelling := rfl
    rw [shiftedColumn, hduration]
    cases spelledMilliseconds spelling with
    | some duration => rfl
    | none => cases plan <;> rfl
  cases arithmetic with
  | since => cases harithmetic
  | sum spelling other =>
      obtain rfl := Option.some_inj.mp harithmetic
      rw [TemporalArithmetic.node, solveTemporal_add, hfirst, Option.bind_map]
      simp only [Function.comp_def, TemporalArithmetic.spelling, TemporalArithmetic.shift,
        TemporalArithmetic.comparedWith, instantMilliseconds]
  | sumAfter spelling other =>
      obtain rfl := Option.some_inj.mp harithmetic
      have hsecond : shiftedColumn .add (TemporalArithmetic.durationNode spelling)
          (TemporalArithmetic.timestampColumn name) =
            (spelledMilliseconds spelling).map (TemporalArithmetic.timestampColumn name, ·) := rfl
      rw [TemporalArithmetic.node, solveTemporal_add, hsecond, Option.bind_map]
      simp only [Function.comp_def, TemporalArithmetic.spelling, TemporalArithmetic.shift,
        TemporalArithmetic.comparedWith, instantMilliseconds]
  | difference spelling other =>
      obtain rfl := Option.some_inj.mp harithmetic
      rw [TemporalArithmetic.node, solveTemporal_sub, hfirst, Option.bind_map]
      simp only [Function.comp_def, TemporalArithmetic.spelling, TemporalArithmetic.shift,
        TemporalArithmetic.comparedWith, instantMilliseconds]

theorem solveTemporal_shifted {operator : ComparisonOperator} {arithmetic : TemporalArithmetic}
    {literal : String} (harithmetic : arithmetic.literal? = some literal) (name : String)
    (h : solveTemporal operator (arithmetic.node name) arithmetic.comparedWith positive now =
      some rewritten) :
    ∃ duration instant, spelledMilliseconds arithmetic.spelling = some duration ∧
      spelledInstant literal = some instant ∧
        solveShift operator (TemporalArithmetic.timestampColumn name) (arithmetic.shift duration)
          instant positive = some rewritten := by
  rw [solveTemporal_eq_shifted harithmetic] at h
  obtain ⟨duration, hduration, h⟩ := Option.bind_eq_some_iff.mp h
  obtain ⟨instant, hinstant, h⟩ := Option.bind_eq_some_iff.mp h
  exact ⟨duration, instant, hduration, hinstant, h⟩

/-! ## What CEL reads of the literals -/

/-- Go reads a duration of whole milliseconds as that many, when they fit an int64. -/
theorem nanos_of_spelledMilliseconds {spelling : String} {milliseconds nanos : Int}
    (h : spelledMilliseconds spelling = some milliseconds)
    (hparsed : GoTime.parseDuration spelling = some nanos) :
    nanos = milliseconds * 1000000 ∧ int64Min ≤ nanos ∧ nanos ≤ int64Max := by
  rw [spelledMilliseconds] at h
  split at h
  · cases h
  next negative seconds fraction hmatch =>
    obtain ⟨d, rfl, rfl, rfl, rfl⟩ := exists_secondsText hmatch
    simp only [Bool.or_eq_true, decide_eq_true_eq] at h
    split at h
    · cases h
    next hwhole =>
      obtain ⟨hmillis, -⟩ := not_or.mp hwhole
      rw [SecondsText.goParseDuration_text] at hparsed
      split at hparsed
      next hfits =>
        obtain rfl := Option.some_inj.mp hparsed
        refine ⟨?_, hfits⟩
        rw [← Option.some_inj.mp h, SecondsText.nanos, SecondsText.magnitude]
        split <;> omega
      next => cases hparsed

theorem spelledInstant_of_millis {literal : String} {milliseconds : Int}
    (hparsed : QueryPlanAdapters.parseRfc3339Instant literal = some (milliseconds * 1000000))
    (hrange : minInstant ≤ milliseconds ∧ milliseconds ≤ maxInstant) :
    spelledInstant literal = some milliseconds := by
  have hquotient : milliseconds * 1000000 / 1000000 = milliseconds := by omega
  rw [spelledInstant, parseRfc3339Instant_of_millis hparsed hrange]
  simp only [Except.toOption, Option.bind_eq_bind, Option.bind_some, Bool.false_eq_true, if_false]
  rw [dateParse, parse_toISOString hrange, Option.map_some, hquotient]

/-- CEL reads a literal at a whole millisecond as that instant. -/
theorem nanos_of_spelledInstant {literal : String} {milliseconds nanos : Int}
    (h : spelledInstant literal = some milliseconds)
    (hparsed : parseRfc3339Timestamp literal = some nanos) :
    nanos = milliseconds * 1000000 := by
  obtain ⟨hnanos, hrange⟩ := Option.filter_eq_some_iff.mp hparsed
  by_cases hwhole : nanos % 1000000 = 0
  · obtain ⟨whole, rfl⟩ : ∃ whole, nanos = whole * 1000000 := ⟨nanos / 1000000, by omega⟩
    rw [spelledInstant_of_millis hnanos (inTimestampRange_millis.mp hrange)] at h
    rw [Option.some_inj.mp h]
  · -- An instant between two milliseconds is refused.
    have hnone : spelledInstant literal = none := by
      rw [spelledInstant]
      cases hread : parseRfc3339Instant literal with
      | error refusal => rfl
      | ok instant =>
          have hrounded := parseRfc3339Instant_eq_ok (rfc3339Nanos_of_parsed hnanos) hread
          simp only [Except.toOption, Option.bind_eq_bind, Option.bind_some, hrounded]
          exact if_pos (decide_eq_true hwhole)
    rw [hnone] at h
    cases h

end Rewritten

/-! ## What the rewritten comparison answers -/

/-- A whole millisecond in CEL's range. -/
def InRange (milliseconds : Int) : Prop :=
  minInstant ≤ milliseconds ∧ milliseconds ≤ maxInstant

/-- A reading of the comparisons of a bare column with an instant. -/
def ReadsInstantColumn (truth : Node → Truth) (stored : Option Int) (name : String) : Prop :=
  ∀ (operator : ComparisonOperator) {bound : Int}, InRange bound →
    truth (compareInstant operator (TemporalArithmetic.timestampColumn name)
        (timestampLiteral bound)) =
      stored.elim .unknown fun milliseconds =>
        .ofBool (operator.test (.finite milliseconds) (.finite bound))

section Readings

variable {truth : Node → Truth} {c : TemporalComparison} {positive : Bool} {now : Int}
  {rewritten : Node} {stored : Option Int} {name : String}

theorem keptFrom_ofBool (positive : Bool) (milliseconds : Int) (b : Bool) :
    keptFrom positive (some milliseconds) (.ofBool b) = .ofBool b := by
  cases b <;> rfl

theorem instantLiteral_eq_some {milliseconds : Int} {literal : Node}
    (h : instantLiteral milliseconds = some literal) :
    literal = timestampLiteral milliseconds ∧ InRange milliseconds := by
  rw [instantLiteral] at h
  split at h
  · cases h
  next hrange =>
    simp only [Bool.or_eq_true, decide_eq_true_eq, not_or, not_lt] at hrange
    exact ⟨(Option.some_inj.mp h).symm, hrange⟩

/-- A shift of the column is undone on the other side. -/
theorem test_shift (operator : ComparisonOperator) (milliseconds shift instant : Int) :
    operator.test (.finite (milliseconds * 1000000 + shift * 1000000 : Int))
        (.finite (instant * 1000000 : Int)) =
      operator.test (.finite milliseconds) (.finite (instant - shift : Int)) :=
  test_finite_iff operator (by omega) (by omega)

theorem truth_since (hreads : ReadsInstantColumn truth stored c.name) {spelling : String}
    (hsince : c.arithmetic = .since spelling) {duration : Int}
    (hfits : int64Min ≤ duration * 1000000 ∧ duration * 1000000 ≤ int64Max)
    (hbound : InRange (now - duration)) :
    truth (compareInstant c.sided.mirrored (TemporalArithmetic.timestampColumn c.name)
        (timestampLiteral (now - duration))) =
      keptFrom positive stored
        (c.truth (now * 1000000) (duration * 1000000) (duration * 1000000) stored) := by
  rw [hreads _ hbound]
  cases stored with
  | none => rfl
  | some milliseconds =>
      have htruth : c.truth (now * 1000000) (duration * 1000000) (duration * 1000000)
          (some milliseconds) =
            .ofBool (c.sided.test
              (.finite (saturatedSince (now * 1000000) (milliseconds * 1000000)))
              (.finite (duration * 1000000 : Int))) := by
        simp [TemporalComparison.truth, TemporalComparison.computed, hsince]
      rw [htruth, test_saturatedSince _ hfits, keptFrom_ofBool, Option.elim_some]
      exact congrArg Truth.ofBool (test_finite_iff _ (by omega) (by omega))

/-- Whether the shift leaves the column in range, as the comparison with its limit. -/
theorem truth_inRange (hreads : ReadsInstantColumn truth stored name) {shift : Int}
    (hstored : ∀ milliseconds ∈ stored, InRange milliseconds)
    (hlimit : InRange (if 0 < shift then maxInstant - shift else minInstant - shift)) :
    truth (compareInstant (if 0 < shift then .le else .ge) (TemporalArithmetic.timestampColumn name)
        (timestampLiteral (if 0 < shift then maxInstant - shift else minInstant - shift))) =
      stored.elim .unknown fun milliseconds =>
        .ofBool (inTimestampRange (milliseconds * 1000000 + shift * 1000000)) := by
  rw [hreads _ hlimit]
  cases stored with
  | none => rfl
  | some milliseconds =>
      obtain ⟨hmin, hmax⟩ := hstored milliseconds rfl
      rw [Option.elim_some, Option.elim_some, ← Int.add_mul]
      congr 1
      rw [Bool.eq_iff_iff, inTimestampRange_millis]
      split
      · simp only [ComparisonOperator.test, Double.le_finite, decide_eq_true_eq, Int.cast_le]
        omega
      · simp only [ComparisonOperator.test, Double.le_finite, decide_eq_true_eq, Int.cast_le]
        omega

theorem truth_solveShift (hkleene : KleeneReading truth)
    (hreads : ReadsInstantColumn truth stored name) {operator : ComparisonOperator}
    {shift instant : Int} (hstored : ∀ milliseconds ∈ stored, InRange milliseconds)
    (h : solveShift operator (TemporalArithmetic.timestampColumn name) shift instant positive =
      some rewritten) :
    truth rewritten = keptFrom positive stored (stored.elim .unknown fun milliseconds =>
      if inTimestampRange (milliseconds * 1000000 + shift * 1000000) then
        .ofBool (operator.test (.finite milliseconds) (.finite (instant - shift : Int)))
      else .unknown) := by
  obtain ⟨bound, hbound, h⟩ := Option.bind_eq_some_iff.mp h
  obtain ⟨rfl, hboundRange⟩ := instantLiteral_eq_some hbound
  have hsolved := hreads operator hboundRange
  dsimp only at h
  split at h
  next hzero =>
    obtain rfl := Option.some_inj.mp h
    rw [hsolved, hzero]
    cases stored with
    | none => rfl
    | some milliseconds =>
        have hrange : inTimestampRange (milliseconds * 1000000 + 0 * 1000000) = true := by
          rw [Int.zero_mul, Int.add_zero]
          exact inTimestampRange_millis.mpr (hstored milliseconds rfl)
        rw [Option.elim_some, Option.elim_some, if_pos hrange, keptFrom_ofBool]
  next =>
    obtain ⟨limit, hlimit, h⟩ := Option.bind_eq_some_iff.mp h
    obtain ⟨rfl, hlimitRange⟩ := instantLiteral_eq_some hlimit
    have hinRange := truth_inRange hreads hstored hlimitRange
    have hrewritten := Option.some_inj.mp h
    cases positive
    case' true =>
        rw [← hrewritten, if_pos rfl, hkleene.and, List.map_cons, List.map_cons, hsolved, hinRange]
    case' false =>
        rw [← hrewritten, if_neg Bool.false_ne_true, hkleene.or, List.map_cons, List.map_cons,
          hkleene.not, hsolved, hinRange]
    all_goals
      cases stored with
      | none => rfl
      | some milliseconds =>
          rw [Option.elim_some, Option.elim_some, Option.elim_some]
          cases inTimestampRange (milliseconds * 1000000 + shift * 1000000) <;>
            cases operator.test (.finite milliseconds) (.finite (instant - shift : Int)) <;> rfl

theorem TemporalArithmetic.shift_mul (arithmetic : TemporalArithmetic) (duration : Int) :
    arithmetic.shift (duration * 1000000) = arithmetic.shift duration * 1000000 := by
  cases arithmetic with
  | difference => exact (Int.neg_mul ..).symm
  | _ => rfl

theorem TemporalComparison.computed_shifted {literal : String}
    (harithmetic : c.arithmetic.literal? = some literal) (now duration t : Int) :
    c.computed now duration t =
      if inTimestampRange (t + c.arithmetic.shift duration) then
        some (t + c.arithmetic.shift duration)
      else none := by
  rw [TemporalComparison.computed]
  cases hshape : c.arithmetic with
  | since => rw [hshape] at harithmetic; cases harithmetic
  | _ => rfl

/-- The sum or the difference, which is compared with an instant. -/
theorem TemporalComparison.truth_shifted {literal : String}
    (harithmetic : c.arithmetic.literal? = some literal) (duration instant : Int) :
    c.truth (now * 1000000) (duration * 1000000) (instant * 1000000) stored =
      stored.elim .unknown fun milliseconds =>
        if inTimestampRange (milliseconds * 1000000 + c.arithmetic.shift duration * 1000000) then
          .ofBool (c.sided.test (.finite milliseconds)
            (.finite (instant - c.arithmetic.shift duration : Int)))
        else .unknown := by
  cases stored with
  | none => rfl
  | some milliseconds =>
      rw [TemporalComparison.truth, Option.bind_some,
        TemporalComparison.computed_shifted harithmetic, TemporalArithmetic.shift_mul,
        Option.elim_some]
      split
      · rw [Option.elim_some, test_shift]
      · rfl

/-- The rewritten comparison answers as CEL's, and keeps what is out of range from its polarity. -/
theorem truth_rewritten (hkleene : KleeneReading truth)
    (hreads : ReadsInstantColumn truth stored c.name)
    (hstored : ∀ milliseconds ∈ stored, InRange milliseconds)
    (h : rewriteTemporalComparison (comparisonNode c.operator) c.operands positive now =
      some rewritten)
    {duration other : Int} (hduration : GoTime.parseDuration c.arithmetic.spelling = some duration)
    (hother : c.arithmetic.literal?.elim (some duration) parseRfc3339Timestamp = some other) :
    truth rewritten =
      keptFrom positive stored (c.truth (now * 1000000) duration other stored) := by
  rw [rewriteTemporalComparison_eq] at h
  cases harithmetic : c.arithmetic.literal? with
  | none =>
      obtain ⟨spelling, hsince⟩ : ∃ spelling, c.arithmetic = .since spelling := by
        cases hshape : c.arithmetic with
        | since spelling => exact ⟨spelling, rfl⟩
        | _ => rw [hshape] at harithmetic; cases harithmetic
      rw [harithmetic] at hother
      obtain rfl := Option.some_inj.mp hother
      rw [hsince] at h hduration
      obtain ⟨milliseconds, bound, hspelled, hbound, rfl⟩ := solveTemporal_since _ _ h
      obtain ⟨rfl, hfits⟩ := nanos_of_spelledMilliseconds hspelled hduration
      obtain ⟨rfl, hboundRange⟩ := instantLiteral_eq_some hbound
      exact truth_since hreads hsince hfits hboundRange
  | some literal =>
      obtain ⟨milliseconds, instant, hspelled, hinstant, hsolved⟩ :=
        solveTemporal_shifted harithmetic _ h
      obtain ⟨rfl, -⟩ := nanos_of_spelledMilliseconds hspelled hduration
      rw [harithmetic, Option.elim_some] at hother
      obtain rfl := nanos_of_spelledInstant hinstant hother
      rw [truth_solveShift hkleene hreads hstored hsolved,
        TemporalComparison.truth_shifted harithmetic]

end Readings

/-! ## CEL's reading -/

section Cel

open Go

/-- CEL's functions of instants and durations, at an instant of the clock. -/
structure TemporalFunctions (functions : Functions) (now : Int) : Prop where
  timestamp (text : String) : functions.call .timestamp [.string text] =
    (parseRfc3339Timestamp text).elim .error fun t => .value (.timestamp t)
  duration (text : String) : functions.call .duration [.string text] =
    (GoTime.parseDuration text).elim .error fun d => .value (.duration d)
  timeSince (t : Int) : functions.call .timeSince [.timestamp t] =
    .value (.duration (saturatedSince now t))
  sum (t d : Int) : functions.call .add [.timestamp t, .duration d] =
    if inTimestampRange (t + d) then .value (.timestamp (t + d)) else .error
  sumAfter (t d : Int) : functions.call .add [.duration d, .timestamp t] =
    if inTimestampRange (t + d) then .value (.timestamp (t + d)) else .error
  difference (t d : Int) : functions.call .sub [.timestamp t, .duration d] =
    if inTimestampRange (t - d) then .value (.timestamp (t - d)) else .error

/-- The request's attribute is the text of the stored instant, or missing. -/
def SendsInstant (env : Valuation) (name : String) (stored : Option Int) : Prop :=
  match stored with
  | none => env name = .error
  | some milliseconds => ∃ text, env name = .value (.string text) ∧
      parseRfc3339Timestamp text = some (milliseconds * 1000000)

variable {functions : Functions} {env : Valuation} {now : Int} {name : String}
  {stored : Option Int}

/-- `timestamp()` of the attribute. -/
theorem meaning_timestampColumn (hfunctions : TemporalFunctions functions now)
    (hsends : SendsInstant env name stored) :
    meaning functions (TemporalArithmetic.timestampColumn name) env =
      stored.elim .error fun milliseconds => .value (.timestamp (milliseconds * 1000000)) := by
  rw [TemporalArithmetic.timestampColumn, meaning_unary rfl, meaning_var]
  cases stored with
  | none =>
      rw [show env name = .error from hsends]
      rfl
  | some milliseconds =>
      obtain ⟨text, hname, htext⟩ := hsends
      rw [hname]
      exact (hfunctions.timestamp text).trans (by rw [htext]; rfl)

theorem meaning_timestampText (hfunctions : TemporalFunctions functions now) {text : String}
    {t : Int} (htext : parseRfc3339Timestamp text = some t) :
    meaning functions (.expression .timestamp [.value (.string text)]) env =
      .value (.timestamp t) := by
  rw [meaning_unary rfl]
  exact (hfunctions.timestamp text).trans (by rw [htext]; rfl)

theorem meaning_durationNode (hfunctions : TemporalFunctions functions now) {spelling : String}
    {d : Int} (hspelling : GoTime.parseDuration spelling = some d) :
    meaning functions (TemporalArithmetic.durationNode spelling) env = .value (.duration d) := by
  rw [TemporalArithmetic.durationNode, meaning_unary rfl]
  exact (hfunctions.duration spelling).trans (by rw [hspelling]; rfl)

theorem comparisonOps_comparisonNode (operator : ComparisonOperator) :
    comparisonOps (comparisonNode operator) = some operator := by
  cases operator <;> rfl

theorem comparisonOutcome_timestamps (operator : ComparisonOperator) (a b : Int) :
    (comparisonOutcome operator (.value (.timestamp a)) (.value (.timestamp b))).asBoolean =
      .ofBool (operator.test (.finite a) (.finite b)) := by
  cases operator <;> simp [comparisonOutcome, ComparisonOperator.isOrdering, orderingKeys,
    Outcome.asBoolean, ComparisonOperator.test, Value.valuesEqual]

theorem comparisonOutcome_durations (operator : ComparisonOperator) (a b : Int) :
    (comparisonOutcome operator (.value (.duration a)) (.value (.duration b))).asBoolean =
      .ofBool (operator.test (.finite a) (.finite b)) := by
  cases operator <;> simp [comparisonOutcome, ComparisonOperator.isOrdering, orderingKeys,
    Outcome.asBoolean, ComparisonOperator.test, Value.valuesEqual]

/-- CEL reads the bare comparisons off the attribute. -/
theorem readsInstantColumn_meaning (hfunctions : TemporalFunctions functions now)
    (hsends : SendsInstant env name stored) :
    ReadsInstantColumn (fun node => (meaning functions node env).asBoolean) stored name := by
  intro operator bound hbound
  show (meaning functions (.expression (comparisonNode operator) _) env).asBoolean = _
  rw [meaning_comparison (comparisonOps_comparisonNode operator),
    meaning_timestampColumn hfunctions hsends, timestampLiteral,
    meaning_timestampText hfunctions (parseRfc3339Timestamp_toISOString hbound)]
  cases stored with
  | none => rfl
  | some milliseconds =>
      rw [Option.elim_some, comparisonOutcome_timestamps, Option.elim_some]
      exact congrArg Truth.ofBool (test_finite_iff operator (by omega) (by omega))

theorem elim_ite {α β : Type} {p : Prop} [Decidable p] (a : α) (e : β) (f : α → β) :
    (if p then some a else none).elim e f = if p then f a else e := by
  split <;> rfl

/-- A comparison with the arithmetic, which stands on either side. -/
theorem meaning_compared {wrap : Int → Value} (c : TemporalComparison)
    (hwrap : ∀ operator a b, (comparisonOutcome operator (.value (wrap a))
      (.value (wrap b))).asBoolean = .ofBool (operator.test (.finite a) (.finite b)))
    {nanos : Option Int} {other : Int}
    (harithmetic : meaning functions (c.arithmetic.node c.name) env =
      nanos.elim .error fun n => .value (wrap n))
    (hother : meaning functions c.arithmetic.comparedWith env = .value (wrap other)) :
    (meaning functions c.node env).asBoolean =
      nanos.elim .unknown fun n => .ofBool (c.sided.test (.finite n) (.finite other)) := by
  rw [TemporalComparison.node, TemporalComparison.operands, TemporalComparison.sided]
  cases c.arithmeticFirst with
  | true =>
      rw [if_pos rfl, if_pos rfl, meaning_comparison (comparisonOps_comparisonNode _), harithmetic,
        hother]
      cases nanos with
      | none => rfl
      | some n => exact hwrap _ n other
  | false =>
      rw [if_neg Bool.false_ne_true, if_neg Bool.false_ne_true,
        meaning_comparison (comparisonOps_comparisonNode _), harithmetic, hother]
      cases nanos with
      | none => rfl
      | some n =>
          rw [Option.elim_some, Option.elim_some, hwrap, test_mirrored]

/-- CEL's value of a comparison of timestamp arithmetic. -/
theorem meaning_node (hfunctions : TemporalFunctions functions now) (c : TemporalComparison)
    (hsends : SendsInstant env c.name stored) {duration other : Int}
    (hduration : GoTime.parseDuration c.arithmetic.spelling = some duration)
    (hother : c.arithmetic.literal?.elim (some duration) parseRfc3339Timestamp = some other) :
    (meaning functions c.node env).asBoolean = c.truth now duration other stored := by
  have hcolumn := meaning_timestampColumn hfunctions hsends
  have hspelled : ∀ spelling, GoTime.parseDuration spelling = some duration →
      meaning functions (TemporalArithmetic.durationNode spelling) env =
        .value (.duration duration) := fun _ => meaning_durationNode hfunctions
  obtain ⟨operator, arithmeticFirst, name, arithmetic⟩ := c
  cases arithmetic with
  | since spelling =>
      obtain rfl := Option.some_inj.mp hother
      apply meaning_compared _ comparisonOutcome_durations _ (hspelled spelling hduration)
      rw [TemporalArithmetic.node, meaning_unary rfl, hcolumn]
      cases stored with
      | none => rfl
      | some milliseconds => exact hfunctions.timeSince _
  | _ spelling literal =>
      apply meaning_compared _ comparisonOutcome_timestamps _
        (meaning_timestampText hfunctions hother)
      rw [TemporalArithmetic.node, meaning_binary rfl, hcolumn,
        hspelled spelling hduration]
      cases stored with
      | none => rfl
      | some milliseconds =>
          rw [Option.bind_some, TemporalComparison.computed_shifted rfl, elim_ite]
          first
          | exact hfunctions.sum _ duration
          | exact hfunctions.sumAfter _ duration
          | exact hfunctions.difference _ duration

end Cel

/-! ## The database's reading -/

section Database

open Sql

variable {ρ : Type} (engine : Engine) (store : Store ρ) (context : TranslationContext) (r : ρ)

/-- The truth of the filter of a comparison of instants. -/
def instantLeafTruth (operator : PlanOperator) (operands : List Node) : Truth :=
  match comparisonOperator operator, operands with
  | some operator, [.expression .timestamp left, .expression .timestamp right] =>
      match (compareTimestamps operator left right context).result with
      | .ok (some filter) => filter.truth engine store r
      | _ => .unknown
  | _, _ => .unknown

/-- A column of instants is compared with a bound text by the instant that it spells. -/
def BindsInstants : Prop :=
  ∀ (operator : ComparisonOperator) (nanos : Int) (text : String) (bound : Int),
    QueryPlanAdapters.parseRfc3339Instant text = some bound →
      engine.compareMixed operator (.time nanos) (.text text) =
        .ofBool (operator.test (.finite nanos) (.finite bound))

/-- A `DateTime` column of the current record, which holds an instant, or NULL for a missing
attribute. -/
structure StoresInstant (name : String) (stored : Option Int) : Prop where
  valueType : (resolveFieldReference name context).result.valueType = some .dateTime
  direct : (resolveFieldReference name context).result.relations.getD [] = []
  omitted : isExplicitNullReference (resolveFieldReference name context).result = false
  column : ∃ field, getLeafField (resolveFieldReference name context).result.path = .ok field ∧
    store.column r field = stored.elim .null fun milliseconds => .time (milliseconds * 1000000)

variable {engine store context r} {name : String} {stored : Option Int}

/-- The filter of a comparison with a literal in range. -/
theorem compareTimestamps_eq (hname : StoresInstant store context r name stored) {field : String}
    (hfield : getLeafField (resolveFieldReference name context).result.path = .ok field)
    (operator : ComparisonOperator) {bound : Int} (hbound : InRange bound) :
    (compareTimestamps operator [.var name] [.value (.string (toISOString bound))] context).result =
      .ok (some (.field field (prismaOperator operator) (.string (toISOString bound)))) := by
  have hliteral := parseRfc3339Instant_of_millis (parse_toISOString hbound) hbound
  have hscalar : assertScalarValue (resolveFieldReference name context).result
      (.string (toISOString bound)) operator.name = .ok () := by
    simp [assertScalarValue, hname.valueType]
  have hfilter : buildComparisonFilter context (resolveFieldReference name context).result operator
      (.string (toISOString bound)) =
        .ok (.field field (prismaOperator operator) (.string (toISOString bound))) := by
    simp only [buildComparisonFilter, hscalar, hname.omitted, buildFieldFilter, hfield,
      hname.direct, wrapInRelations, List.foldr_nil, bind, Except.bind, pure, Except.pure,
      Bool.false_and, Bool.false_eq_true, if_false]
  simp only [compareTimestamps, resolveTimestampOperand, hname.valueType, if_true,
    Reading.pure_result, hliteral, Except.map, bind, Except.bind,
    buildValueComparisonFilter, Bool.not_false, hfilter]
  rfl

/-- The database reads the bare comparisons off the column. -/
theorem readsInstantColumn_database (hbinds : BindsInstants engine)
    (hname : StoresInstant store context r name stored) :
    ReadsInstantColumn (connectiveTruth (instantLeafTruth engine store context r)) stored name := by
  obtain ⟨field, hfield, hcolumn⟩ := hname.column
  intro operator bound hbound
  have hleaf : connectiveTruth (instantLeafTruth engine store context r)
      (compareInstant operator (TemporalArithmetic.timestampColumn name) (timestampLiteral bound)) =
        engine.compare operator (store.column r field) (.text (toISOString bound)) := by
    have hexpression : connectiveTruth (instantLeafTruth engine store context r)
        (compareInstant operator (TemporalArithmetic.timestampColumn name)
          (timestampLiteral bound)) =
          instantLeafTruth engine store context r (comparisonNode operator)
            [TemporalArithmetic.timestampColumn name, timestampLiteral bound] := by
      rw [compareInstant, connectiveTruth_expression]
      cases operator <;> rfl
    have hfilter := compareTimestamps_eq hname hfield operator hbound
    rw [hexpression, instantLeafTruth.eq_def, comparisonOperator_comparisonNode]
    simp only [TemporalArithmetic.timestampColumn, timestampLiteral, hfilter,
      PrismaFilter.truth_field]
    cases operator <;> rfl
  rw [hleaf, hcolumn]
  cases stored with
  | none => exact Engine.compare_null_left _
  | some milliseconds =>
      have hmixed := hbinds operator (milliseconds * 1000000) _ _ (parse_toISOString hbound)
      rw [Option.elim_some, Option.elim_some]
      refine (show engine.compare operator (.time _) (.text _) = engine.compareMixed _ _ _
        from rfl).trans (hmixed.trans ?_)
      exact congrArg Truth.ofBool (test_finite_iff operator (by omega) (by omega))

end Database

/-! ## The rewritten comparison -/

section Evaluated

open Go Sql

/-- CEL errs on a missing attribute, and on a sum or a difference out of range. -/
theorem TemporalComparison.truth_eq_unknown_iff (c : TemporalComparison)
    {now duration other : Int} {stored : Option Int} :
    c.truth now duration other stored = .unknown ↔
      stored = none ∨ c.arithmetic.literal?.isSome = true ∧
        ∃ milliseconds ∈ stored,
          inTimestampRange (milliseconds * 1000000 + c.arithmetic.shift duration) = false := by
  cases stored with
  | none => exact iff_of_true rfl (.inl rfl)
  | some milliseconds =>
      rw [TemporalComparison.truth, Option.bind_some]
      have hdecided : ∀ b, Truth.ofBool b ≠ .unknown := by
        intro b
        cases b <;> exact Truth.noConfusion
      cases harithmetic : c.arithmetic.literal? with
      | none =>
          have hcomputed : ∃ n, c.computed now duration (milliseconds * 1000000) = some n := by
            rw [TemporalComparison.computed]
            cases hshape : c.arithmetic with
            | since => exact ⟨_, rfl⟩
            | _ => rw [hshape] at harithmetic; cases harithmetic
          obtain ⟨n, hn⟩ := hcomputed
          rw [hn, Option.elim_some]
          simp [hdecided]
      | some literal =>
          rw [TemporalComparison.computed_shifted harithmetic]
          cases hrange : inTimestampRange (milliseconds * 1000000 + c.arithmetic.shift duration) with
          | true => simp [hdecided, hrange]
          | false => simp [hrange]

/-- The rewritten comparison is TRUE or FALSE on a record as CEL's comparison is, UNKNOWN where
the column is missing, and where the shifted instant leaves CEL's range FALSE under an even
number of negations and TRUE under an odd one; in CEL and in the database. -/
theorem rewriteTemporalComparison_evaluates {c : TemporalComparison} {positive : Bool} {now : Int}
    {rewritten : Node}
    (h : rewriteTemporalComparison (comparisonNode c.operator) c.operands positive now =
      some rewritten)
    {duration other : Int} (hduration : GoTime.parseDuration c.arithmetic.spelling = some duration)
    (hother : c.arithmetic.literal?.elim (some duration) parseRfc3339Timestamp = some other)
    {stored : Option Int} (hstored : ∀ milliseconds ∈ stored, InRange milliseconds)
    {functions : Functions} {env : Valuation}
    (hfunctions : TemporalFunctions functions (now * 1000000))
    (hsends : SendsInstant env c.name stored) :
    ((meaning functions c.node env).asBoolean = .unknown ↔
      stored = none ∨ c.arithmetic.literal?.isSome = true ∧
        ∃ milliseconds ∈ stored,
          inTimestampRange (milliseconds * 1000000 + c.arithmetic.shift duration) = false) ∧
    (meaning functions rewritten env).asBoolean =
      keptFrom positive stored (meaning functions c.node env).asBoolean ∧
    ∀ (ρ : Type) (engine : Engine) (store : Store ρ) (context : TranslationContext) (r : ρ),
      BindsInstants engine → StoresInstant store context r c.name stored →
        connectiveTruth (instantLeafTruth engine store context r) rewritten =
          keptFrom positive stored (meaning functions c.node env).asBoolean := by
  rw [meaning_node hfunctions c hsends hduration hother]
  refine ⟨c.truth_eq_unknown_iff, ?_, ?_⟩
  · exact truth_rewritten (kleeneReading_meaning functions env)
      (readsInstantColumn_meaning hfunctions hsends) hstored h hduration hother
  · intro ρ engine store context r hbinds hname
    exact truth_rewritten (kleeneReading_connectiveTruth _)
      (readsInstantColumn_database hbinds hname) hstored h hduration hother

/-! ## A day past the last instant -/

def temporalCall (now : Int) : PlanOperator → List Value → Outcome
  | .timestamp, [.string text] =>
      (parseRfc3339Timestamp text).elim .error fun t => .value (.timestamp t)
  | .duration, [.string text] =>
      (GoTime.parseDuration text).elim .error fun d => .value (.duration d)
  | .timeSince, [.timestamp t] => .value (.duration (saturatedSince now t))
  | .add, [.timestamp t, .duration d] | .add, [.duration d, .timestamp t] =>
      if inTimestampRange (t + d) then .value (.timestamp (t + d)) else .error
  | .sub, [.timestamp t, .duration d] =>
      if inTimestampRange (t - d) then .value (.timestamp (t - d)) else .error
  | _, _ => .error

/-- CEL's functions of instants and durations. -/
def temporalFunctions (now : Int) : Functions :=
  .filtering (temporalCall now)

theorem temporalFunctions_temporal (now : Int) : TemporalFunctions (temporalFunctions now) now :=
  ⟨fun _ => rfl, fun _ => rfl, fun _ => rfl, fun _ _ => rfl, fun _ _ => rfl, fun _ _ => rfl⟩

/-- `timestamp(x) + duration("86400s") < timestamp("2024-01-01T00:00:00Z")` -/
def nextDay : TemporalComparison where
  operator := .lt
  arithmeticFirst := true
  name := "x"
  arithmetic := .sum "86400s" "2024-01-01T00:00:00Z"

/-- On the last instant of CEL's range, the comparison is an error and its negation selects
nothing. -/
theorem rewriteTemporalComparison_evaluates_nextDay :
    ∃ rewritten, rewriteTemporalComparison .lt nextDay.operands false 0 = some rewritten ∧
      (meaning (temporalFunctions 0) nextDay.node fun _ =>
        .value (.string "9999-12-31T23:59:59.999Z")).asBoolean = .unknown ∧
      (meaning (temporalFunctions 0) rewritten fun _ =>
        .value (.string "9999-12-31T23:59:59.999Z")).asBoolean = .yes := by
  have hspelled : spelledMilliseconds "86400s" = some 86400000 := by decide
  have hinstant : spelledInstant "2024-01-01T00:00:00Z" = some 1704067200000 :=
    spelledInstant_of_millis (by decide) (by decide)
  have hsends : SendsInstant (fun _ => .value (.string "9999-12-31T23:59:59.999Z")) nextDay.name
      (some maxInstant) := ⟨_, rfl, by decide⟩
  have hstored : ∀ milliseconds ∈ some maxInstant, InRange milliseconds := by
    rintro milliseconds ⟨⟩
    exact ⟨by decide, le_rfl⟩
  have hliteral : nextDay.arithmetic.literal? = some "2024-01-01T00:00:00Z" := rfl
  obtain ⟨rewritten, hrewritten⟩ : ∃ rewritten,
      rewriteTemporalComparison (comparisonNode nextDay.operator) nextDay.operands false 0 =
        some rewritten := by
    rw [rewriteTemporalComparison_eq, solveTemporal_eq_shifted hliteral, hinstant]
    exact ⟨_, congrArg (Option.bind · _) hspelled⟩
  have hduration : GoTime.parseDuration nextDay.arithmetic.spelling = some 86400000000000 := by
    decide
  have hother : nextDay.arithmetic.literal?.elim (some 86400000000000) parseRfc3339Timestamp =
      some 1704067200000000000 := by
    decide
  have hfunctions : TemporalFunctions (temporalFunctions 0) (0 * 1000000) :=
    temporalFunctions_temporal 0
  obtain ⟨hunknown, hmeaning, -⟩ := rewriteTemporalComparison_evaluates hrewritten hduration hother
    hstored hfunctions hsends
  have herror := hunknown.mpr (.inr ⟨rfl, maxInstant, rfl, by decide⟩)
  refine ⟨rewritten, hrewritten, herror, ?_⟩
  rw [hmeaning, herror]
  rfl

end Evaluated

end QueryPlanAdapters.Prisma
