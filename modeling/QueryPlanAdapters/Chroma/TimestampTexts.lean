import QueryPlanAdapters.Chroma.TemporalRange
import QueryPlanAdapters.Cel.Rfc3339

/-!
# Timestamp texts

The texts that `timestamp()` reads are those of the RFC 3339 grammar whose date exists and
whose instant, once the zone is applied, lies in CEL's range. Both evaluators hold the
instant's exact nanoseconds and compare these.
-/

namespace QueryPlanAdapters

/-- The text is an RFC 3339 timestamp of the given instant. -/
def SpellsInstant (text : String) (nanos : Int) : Prop :=
  ∃ t : Rfc3339, t.text = text.toList ∧ t.Denotes nanos

theorem parseRfc3339Timestamp_eq_some_iff {text : String} {nanos : Int} :
    parseRfc3339Timestamp text = some nanos ↔
      SpellsInstant text nanos ∧ inTimestampRange nanos = true := by
  rw [parseRfc3339Timestamp, Option.filter_eq_some_iff, parseRfc3339Instant_eq_some_iff]
  rfl

theorem spellsInstant_unique {text : String} {m n : Int} (hm : SpellsInstant text m)
    (hn : SpellsInstant text n) : m = n :=
  Option.some.inj
    ((parseRfc3339Instant_eq_some_iff.mpr hm).symm.trans (parseRfc3339Instant_eq_some_iff.mpr hn))

/-- `timestamp(text)`. -/
def Evaluator.timestamp (evaluator : Evaluator) (text : String) : Outcome :=
  match evaluator with
  | convex => Convex.convertToTimestamp (.value (.string text))
  | chroma => Chroma.convertToTimestamp (.string text)

theorem Evaluator.compareValues_timestamp (evaluator : Evaluator) {s t : String} {m n : Int}
    (hs : parseRfc3339Timestamp s = some m) (ht : parseRfc3339Timestamp t = some n) :
    evaluator.compareValues .eq (evaluator.timestamp s) (evaluator.timestamp t) =
      .value (.bool (decide (m = n))) := by
  cases evaluator with
  | convex =>
      simp only [Evaluator.timestamp, Convex.convertToTimestamp, hs, ht]
      simp [Evaluator.compareValues, QueryPlanAdapters.compareValues, Value.valuesEqual]
  | chroma =>
      simp only [Evaluator.timestamp, Chroma.convertToTimestamp, hs, ht]
      simp [Evaluator.compareValues, Chroma.compareValues, Value.valuesEqual,
        Chroma.isHierarchy, ComparisonOperator.isOrdering]

/-- Exactly the texts that spell an instant of the years 1 to 9999 are read, as its
nanoseconds since 1970, and two of them are equal exactly where they spell one instant. -/
theorem parseRfc3339Timestamp_exact :
    (∀ text nanos, parseRfc3339Timestamp text = some nanos ↔
      SpellsInstant text nanos ∧ minTimestampNanos ≤ nanos ∧ nanos ≤ maxTimestampNanos) ∧
    ∀ (evaluator : Evaluator) (s t : String),
      (parseRfc3339Timestamp s).isSome = true → (parseRfc3339Timestamp t).isSome = true →
        (evaluator.compareValues .eq (evaluator.timestamp s) (evaluator.timestamp t) =
            .value (.bool true) ↔
          ∃ nanos, SpellsInstant s nanos ∧ SpellsInstant t nanos) := by
  refine ⟨fun text nanos => ?_, fun evaluator s t hs ht => ?_⟩
  · rw [parseRfc3339Timestamp_eq_some_iff, inTimestampRange, Bool.and_eq_true, decide_eq_true_eq,
      decide_eq_true_eq]
  · obtain ⟨m, hs⟩ := Option.isSome_iff_exists.mp hs
    obtain ⟨n, ht⟩ := Option.isSome_iff_exists.mp ht
    have hm := (parseRfc3339Timestamp_eq_some_iff.mp hs).1
    have hn := (parseRfc3339Timestamp_eq_some_iff.mp ht).1
    rw [evaluator.compareValues_timestamp hs ht]
    constructor
    · intro h
      obtain rfl : m = n := by simpa using h
      exact ⟨m, hm, hn⟩
    · rintro ⟨nanos, hs', ht'⟩
      obtain rfl := spellsInstant_unique hm hs'
      obtain rfl := spellsInstant_unique hn ht'
      simp

theorem parseRfc3339Timestamp_exact_newYear :
    Evaluator.compareValues .convex .eq (Evaluator.timestamp .convex "2024-01-01T00:00:00Z")
        (Evaluator.timestamp .convex "2023-12-31T23:00:00.000-01:00") = .value (.bool true) ↔
      ∃ nanos, SpellsInstant "2024-01-01T00:00:00Z" nanos ∧
        SpellsInstant "2023-12-31T23:00:00.000-01:00" nanos :=
  parseRfc3339Timestamp_exact.2 .convex _ _ (by decide) (by decide)

/-- The first instant of year 1 one minute ahead of UTC: a text of the grammar whose date
exists, and an instant of the year before. -/
theorem parseRfc3339Timestamp_beforeYearOne :
    (∃ nanos, SpellsInstant "0001-01-01T00:00:00+00:01" nanos) ∧
      parseRfc3339Timestamp "0001-01-01T00:00:00+00:01" = none := by
  constructor
  · exact ⟨-62135596860000000000, parseRfc3339Instant_eq_some_iff.mp (by decide)⟩
  · decide

end QueryPlanAdapters
