import QueryPlanAdapters.Go.Policy

/-!
# Go: expressions over instants and durations

What CEL makes of `timestamp()`, `duration()`, `+`, `-` and `timeSince()`, and what is left
of it in Go's arithmetic: a sum of durations wraps, a difference adds the negated duration,
and the shifts of a stored instant are gathered for the other side of a comparison.
-/

namespace QueryPlanAdapters.Go

/-- A text that `timestamp()` reads, with its instant. -/
structure TimestampLiteral where
  text : String
  nanos : Int
  spells : parseTimestamp (.constant (.string text)) false = .ok (.time nanos)

/-- A text that `duration()` reads, with its nanoseconds. -/
structure DurationLiteral [Double.Rounding] where
  text : String
  nanos : Int
  spells : parseDurationValue (.constant (.string text)) = .ok (.durationConst nanos)

/-- A temporal expression over the attributes of a row. -/
inductive Temporal [Double.Rounding] where
  | timestamp (literal : TimestampLiteral)
  | duration (literal : DurationLiteral)
  | attr (reference : String)
  | add (left right : Temporal)
  | sub (left right : Temporal)
  | timeSince (x : Temporal)

/-! ## CEL -/

/-- An instant, an error outside the years 1 to 9999. -/
def checkedInstant (nanos : Int) : Outcome :=
  if inTimestampRange nanos then .value (.timestamp nanos) else .error

/-- CEL's `+` over instants and durations. -/
def temporalSum : Outcome → Outcome → Outcome
  | .value (.timestamp t), .value (.duration d) => checkedInstant (t + d)
  | .value (.duration d), .value (.timestamp t) => checkedInstant (t + d)
  | .value (.duration a), .value (.duration b) => checkedDuration (a + b)
  | _, _ => .error

/-- CEL's `-` over instants and durations. -/
def temporalDifference : Outcome → Outcome → Outcome
  | .value (.timestamp t), .value (.duration d) => checkedInstant (t - d)
  | .value (.timestamp t), .value (.timestamp u) => checkedDuration (t - u)
  | .value (.duration a), .value (.duration b) => checkedDuration (a - b)
  | _, _ => .error

/-- CEL's `timeSince()`. -/
def sinceOutcome (now : Int) : Outcome → Outcome
  | .value (.timestamp t) => .value (.duration (saturatedSince now t))
  | _ => .error

/-! ## Go's arithmetic -/

/-- What Go's arithmetic keeps of an expression. -/
inductive Kept where
  | instant (nanos : Int)
  | duration (nanos : Int)
  /-- A stored instant. -/
  | stored (x : Int)
  /-- A stored instant, and the shift that is gathered for it. -/
  | shifted (x shift : Int)
  /-- The duration from a stored instant to now. -/
  | since (x : Int)
  /-- An operator over two instants, which is left to the database. -/
  | foreign

namespace Kept

def shiftBy (d : Int) : Kept → Kept
  | instant n => instant (n + d)
  | duration a => duration (int64 (a + d))
  | stored x => shifted x (int64 d)
  | shifted x a => shifted x (int64 (a + d))
  | _ => foreign

def sum : Kept → Kept → Kept
  | l, duration d => l.shiftBy d
  | duration d, r => r.shiftBy d
  | _, _ => foreign

def difference : Kept → Kept → Kept
  | l, duration d => l.shiftBy (int64 (-d))
  | _, _ => foreign

def timeSince (now : Int) : Kept → Kept
  | instant n => duration (saturatedSince now n)
  | stored x => since x
  | _ => foreign

/-- The numbers that a comparison of two kept values is a comparison of. The shift of a
stored instant, and the bound of a duration up to now, are negated on their way to the other
side. -/
def compared (now : Int) : Kept → Kept → Int × Int
  | instant a, instant b => (a, b)
  | stored x, stored y => (x, y)
  | stored x, instant b => (x, b)
  | instant a, stored y => (a, y)
  | shifted x d, instant b => (x - int64 (-d), b)
  | instant a, shifted y d => (a, y - int64 (-d))
  | duration a, duration b => (a, b)
  | since x, duration d => (now - x, -int64 (-d))
  | duration d, since x => (-int64 (-d), now - x)
  | _, _ => (0, 0)

end Kept

/-- The nanoseconds of an instant or a duration. -/
def countedNanos : Outcome → Int
  | .value (.timestamp n) | .value (.duration n) => n
  | _ => 0

namespace Temporal

variable [Double.Rounding]

def node : Temporal → Node
  | timestamp literal => .expression .timestamp [.value (.string literal.text)]
  | duration literal => .expression .duration [.value (.string literal.text)]
  | attr reference => .expression .timestamp [.var reference]
  | add left right => .expression .add [left.node, right.node]
  | sub left right => .expression .sub [left.node, right.node]
  | timeSince x => .expression .timeSince [x.node]

section Readings

variable (now : Int) (instants : String → Int)

/-- CEL's value, over the stored instants. -/
def outcome : Temporal → Outcome
  | timestamp literal => .value (.timestamp literal.nanos)
  | duration literal => .value (.duration literal.nanos)
  | attr reference => .value (.timestamp (instants reference))
  | add left right => temporalSum left.outcome right.outcome
  | sub left right => temporalDifference left.outcome right.outcome
  | timeSince x => sinceOutcome now x.outcome

/-- What Go's arithmetic keeps of it. -/
def kept : Temporal → Kept
  | timestamp literal => .instant literal.nanos
  | duration literal => .duration literal.nanos
  | attr reference => .stored (instants reference)
  | add left right => left.kept.sum right.kept
  | sub left right => left.kept.difference right.kept
  | timeSince x => x.kept.timeSince now

/-- When a comparison of what is kept answers as CEL's does: neither operand is an error in
CEL, none leaves an operator over two instants to the database, and what wraps or is not
saturated does not show. -/
structure ComparesAsCel (op : CmpOp) (l r : Temporal) : Prop where
  evaluates : l.outcome now instants ≠ .error ∧ r.outcome now instants ≠ .error
  folded : l.kept now instants ≠ .foreign ∧ r.kept now instants ≠ .foreign
  unmoved :
    let numbers := (l.kept now instants).compared now (r.kept now instants)
    op.test (.finite (countedNanos (l.outcome now instants)))
        (.finite (countedNanos (r.outcome now instants))) =
      op.test (.finite numbers.1) (.finite numbers.2)

end Readings

end Temporal

/-! ## Kinds -/

/-- An instant, or an error in its place. -/
def IsInstant (o : Outcome) : Prop :=
  o = .error ∨ ∃ n, o = .value (.timestamp n)

/-- A duration, or an error in its place. -/
def IsDuration (o : Outcome) : Prop :=
  o = .error ∨ ∃ n, o = .value (.duration n)

/-- Whether CEL's value is of the type of what is kept. -/
def Kept.ofKind : Kept → Outcome → Prop
  | instant _ | stored _ | shifted _ _ => IsInstant
  | duration _ | since _ => IsDuration
  | foreign => fun _ => True

section Kinds

variable {o p : Outcome}

theorem isInstant_checkedInstant (nanos : Int) : IsInstant (checkedInstant nanos) := by
  rw [checkedInstant]
  split
  · exact .inr ⟨nanos, rfl⟩
  · exact .inl rfl

theorem isDuration_checkedDuration (nanos : Int) : IsDuration (checkedDuration nanos) := by
  rw [checkedDuration]
  split
  · exact .inr ⟨nanos, rfl⟩
  · exact .inl rfl

theorem isInstant_sum (ho : IsInstant o) (hp : IsDuration p) :
    IsInstant (temporalSum o p) ∧ IsInstant (temporalSum p o) := by
  obtain rfl | ⟨n, rfl⟩ := ho
  · obtain rfl | ⟨d, rfl⟩ := hp <;> exact ⟨.inl rfl, .inl rfl⟩
  · obtain rfl | ⟨d, rfl⟩ := hp
    · exact ⟨.inl rfl, .inl rfl⟩
    · exact ⟨isInstant_checkedInstant _, isInstant_checkedInstant _⟩

theorem isDuration_sum (ho : IsDuration o) (hp : IsDuration p) : IsDuration (temporalSum o p) := by
  obtain rfl | ⟨a, rfl⟩ := ho
  · exact .inl rfl
  · obtain rfl | ⟨b, rfl⟩ := hp
    · exact .inl rfl
    · exact isDuration_checkedDuration _

theorem isInstant_difference (ho : IsInstant o) (hp : IsDuration p) :
    IsInstant (temporalDifference o p) := by
  obtain rfl | ⟨n, rfl⟩ := ho
  · exact .inl rfl
  · obtain rfl | ⟨d, rfl⟩ := hp
    · exact .inl rfl
    · exact isInstant_checkedInstant _

theorem isDuration_difference (ho : IsDuration o) (hp : IsDuration p) :
    IsDuration (temporalDifference o p) := by
  obtain rfl | ⟨a, rfl⟩ := ho
  · exact .inl rfl
  · obtain rfl | ⟨b, rfl⟩ := hp
    · exact .inl rfl
    · exact isDuration_checkedDuration _

theorem isDuration_since (now : Int) (ho : IsInstant o) : IsDuration (sinceOutcome now o) := by
  obtain rfl | ⟨n, rfl⟩ := ho
  · exact .inl rfl
  · exact .inr ⟨_, rfl⟩

theorem Kept.ofKind_sum {k k' : Kept} (ho : k.ofKind o) (hp : k'.ofKind p) :
    (k.sum k').ofKind (temporalSum o p) := by
  cases k' with
  | duration d =>
      cases k with
      | instant | stored | shifted => exact (isInstant_sum ho hp).1
      | duration => exact isDuration_sum ho hp
      | since | foreign => trivial
  | _ =>
      cases k with
      | duration => first | exact (isInstant_sum hp ho).2 | trivial
      | _ => trivial

theorem Kept.ofKind_difference {k k' : Kept} (ho : k.ofKind o) (hp : k'.ofKind p) :
    (k.difference k').ofKind (temporalDifference o p) := by
  cases k' with
  | duration d =>
      cases k with
      | instant | stored | shifted => exact isInstant_difference ho hp
      | duration => exact isDuration_difference ho hp
      | since | foreign => trivial
  | _ => cases k <;> trivial

theorem Kept.ofKind_since {k : Kept} (now : Int) (ho : k.ofKind o) :
    (k.timeSince now).ofKind (sinceOutcome now o) := by
  cases k with
  | instant | stored => exact isDuration_since now ho
  | duration | shifted | since | foreign => trivial

/-- What is kept of an expression is of the type of its value. -/
theorem Temporal.ofKind_outcome [Double.Rounding] (now : Int) (instants : String → Int)
    (t : Temporal) : (t.kept now instants).ofKind (t.outcome now instants) := by
  induction t with
  | timestamp literal => exact .inr ⟨_, rfl⟩
  | duration literal => exact .inr ⟨_, rfl⟩
  | attr reference => exact .inr ⟨_, rfl⟩
  | add left right ihl ihr => exact Kept.ofKind_sum ihl ihr
  | sub left right ihl ihr => exact Kept.ofKind_difference ihl ihr
  | timeSince x ih => exact Kept.ofKind_since now ih

end Kinds

end QueryPlanAdapters.Go
