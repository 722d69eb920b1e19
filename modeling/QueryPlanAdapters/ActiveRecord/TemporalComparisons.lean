import QueryPlanAdapters.ActiveRecord.Temporal
import Mathlib.Tactic.Linarith

/-!
# ActiveRecord: when a temporal comparison is CEL's

The cases are those of the two operands' values: constants, a column beside a constant, two
columns, and a sum or difference that is left to the database.
-/

namespace QueryPlanAdapters.ActiveRecord

open Sql TemporalExpression

/-! ## One comparison and its condition -/

section Conditions

variable {explicit : String → Bool} {clock : Int} {stored : String → Option Int} {kind : Bool}
  {operator : ComparisonOperator} {left right e : TemporalExpression kind} {row : Row} {p : Arel}

/-- CEL answers an error for an expression that reads a NULL column. -/
theorem nanos?_of_null {name : String} (hname : name ∈ e.columns) (hnull : stored name = none) :
    e.nanos? clock stored = none := by
  induction e with
  | column other =>
      rw [List.mem_singleton.mp hname] at hnull
      exact hnull
  | timestamp literal => cases hname
  | duration literal => cases hname
  | timeSince t iht => rw [nanos?, iht hname]; rfl
  | shift sub t d iht ihd =>
      rcases List.mem_append.mp hname with ht | hd
      · rw [nanos?, iht ht]; rfl
      · rw [nanos?, ihd hd]
        cases t.nanos? clock stored <;> rfl
  | shiftAfter d t ihd iht =>
      rcases List.mem_append.mp hname with hd | ht
      · rw [nanos?, ihd hd]; rfl
      · rw [nanos?, iht ht]
        cases d.nanos? clock stored <;> rfl
  | combine sub d e ihd ihe =>
      rcases List.mem_append.mp hname with hd | he
      · rw [nanos?, ihd hd]; rfl
      · rw [nanos?, ihe he]
        cases d.nanos? clock stored <;> rfl
  | between t u iht ihu =>
      rcases List.mem_append.mp hname with ht | hu
      · rw [nanos?, iht ht]; rfl
      · rw [nanos?, ihu hu]
        cases t.nanos? clock stored <;> rfl

theorem comparisonTruth_some {n m : Int} (hn : left.nanos? clock stored = some n)
    (hm : right.nanos? clock stored = some m) :
    comparisonTruth clock stored operator left right =
      .ofBool (operator.test (.finite n) (.finite m)) := by
  rw [comparisonTruth, hn, hm]

theorem comparisonTruth_eq_unknown_iff (operator : ComparisonOperator) :
    comparisonTruth clock stored operator left right = .unknown ↔
      left.nanos? clock stored = none ∨ right.nanos? clock stored = none := by
  rw [comparisonTruth]
  cases left.nanos? clock stored with
  | none => simp
  | some n =>
      cases right.nanos? clock stored with
      | none => simp
      | some m =>
          dsimp only
          cases operator.test (.finite n) (.finite m) <;> simp [Truth.ofBool]

theorem comparisonTruth_of_readsNull (hnull : ReadsNull stored left right) :
    comparisonTruth clock stored operator left right = .unknown := by
  obtain ⟨name, hname, hnone⟩ := hnull
  rw [comparisonTruth_eq_unknown_iff]
  exact (List.mem_append.mp hname).imp (nanos?_of_null · hnone) (nanos?_of_null · hnone)

theorem Undecided.iff_of_not {P : Prop} (h : Undecided p row) (hnot : ¬ P) {t : Truth} :
    Decided p row t ↔ P :=
  iff_of_false h.not_decided hnot

/-- A row with a NULL in it. -/
theorem agrees_of_null (hnull : ReadsNull stored left right)
    (hdecided : Decided p row .unknown ↔
      ¬ (isEquality operator = true ∧ AnswersNull explicit stored left right)) :
    Decided p row (comparisonTruth clock stored operator left right) ↔
      Agrees explicit clock stored operator left right := by
  rw [comparisonTruth_of_readsNull hnull, hdecided]
  constructor
  · intro h
    exact ⟨fun _ hequality hanswers => h ⟨hequality, hanswers⟩, fun h => (h hnull).elim,
      fun h => (h hnull).elim⟩
  · intro h hanswers
    exact h.missing hnull hanswers.1 hanswers.2

/-- Operands that Ruby has the exact values of. -/
theorem agrees_of_present {x y : ℚ} (hnull : ¬ ReadsNull stored left right)
    (hplain : (left.subtracts || right.subtracts) = false)
    (hx : left.exact clock stored = some x) (hy : right.exact clock stored = some y)
    (hinside : (∀ bound, bound? clock left right = some bound → InYears bound) →
      Decided p row (.ofBool (operator.test (.finite x) (.finite y))))
    (houtside : ∀ bound, bound? clock left right = some bound → ¬ InYears bound → Undecided p row) :
    Decided p row (comparisonTruth clock stored operator left right) ↔
      Agrees explicit clock stored operator left right := by
  constructor
  · intro h
    have hbound : ∀ bound, bound? clock left right = some bound → InYears bound := by
      intro bound hbound
      by_contra hout
      exact (houtside bound hbound hout).not_decided h
    have hboth : comparisonTruth clock stored operator left right =
        .ofBool (operator.test (.finite x) (.finite y)) :=
      (h Engine.bare).symm.trans (hinside hbound Engine.bare)
    have hknown : ¬ (left.nanos? clock stored = none ∨ right.nanos? clock stored = none) := by
      rw [← comparisonTruth_eq_unknown_iff operator, hboth]
      cases operator.test (.finite x) (.finite y) <;> simp [Truth.ofBool]
    rw [not_or] at hknown
    obtain ⟨n, hn⟩ := Option.ne_none_iff_exists'.mp hknown.1
    obtain ⟨m, hm⟩ := Option.ne_none_iff_exists'.mp hknown.2
    rw [comparisonTruth_some hn hm] at hboth
    refine ⟨fun h => (hnull h).elim, ?_, fun _ _ => ⟨⟨n, m, x, y, hn, hm, hx, hy, ?_⟩, hbound⟩⟩
    · intro _ hsome
      rw [hplain] at hsome
      cases hsome
    · exact (Truth.ofBool_inj.mp hboth).symm
  · intro h
    obtain ⟨⟨n, m, x', y', hn, hm, hx', hy', htest⟩, hbound⟩ := h.present hnull hplain
    rw [hx] at hx'
    rw [hy] at hy'
    rw [comparisonTruth_some hn hm, ← htest, ← Option.some.inj hx', ← Option.some.inj hy']
    exact hinside hbound

/-- A difference of instants that a store may answer anything for. -/
theorem agrees_of_undecided (hnull : ¬ ReadsNull stored left right)
    (hsome : (left.subtracts || right.subtracts) = true) (hundecided : Undecided p row)
    (h : ¬ (isEquality operator = false ∧ left.columns ++ right.columns = [] ∧
      (left.subtracts && right.subtracts) = false)) :
    Decided p row (comparisonTruth clock stored operator left right) ↔
      Agrees explicit clock stored operator left right := by
  apply hundecided.iff_of_not
  intro hagrees
  obtain ⟨hequality, hcolumns, hone, -⟩ := hagrees.difference hnull hsome
  exact h ⟨hequality, hcolumns, hone⟩

end Conditions

/-! ## A column beside a constant -/

theorem isEquality_mirrored (operator : ComparisonOperator) :
    isEquality operator.mirrored = isEquality operator := by
  cases operator <;> rfl

/-- Moving a term across an order, or an equality. -/
theorem test_moved (operator : ComparisonOperator) {a b c d : ℚ} (h : a - b = c - d) :
    operator.test (.finite a) (.finite b) = operator.test (.finite c) (.finite d) := by
  have heq : a = b ↔ c = d := by rw [← sub_eq_zero, h, sub_eq_zero]
  have hlt : a < b ↔ c < d := by rw [← sub_neg, h, sub_neg]
  have hle : a ≤ b ↔ c ≤ d := by rw [← sub_nonpos, h, sub_nonpos]
  have hgt : b < a ↔ d < c := by rw [← sub_pos, h, sub_pos]
  have hge : b ≤ a ↔ d ≤ c := by rw [← sub_nonneg, h, sub_nonneg]
  cases operator <;> simp only [ComparisonOperator.test, Double.eq_finite, Double.lt_finite,
    Double.le_finite, heq, hlt, hle, hgt, hge]

/-- What a predicate answers for a column that is compared with an instant. -/
structure ReadsBound (p : Arel) (row : Row) (definite : Bool) (operator : ComparisonOperator)
    (name : String) (bound : ℚ) : Prop where
  null : row name = .null →
    (Decided p row .unknown ↔ ¬ (isEquality operator = true ∧ definite = true))
  inside : ∀ n, row name = .time n → InYears bound →
    Decided p row (.ofBool (operator.test (.finite n) (.finite bound)))
  outside : ∀ n, row name = .time n → ¬ InYears bound → Undecided p row

section Bound

variable {explicit : String → Bool} {operator : ComparisonOperator} {name : String} {bound : ℚ}
  {row : Row} {plain p : Arel}

/-- An operand is NULL: only the equality of an explicit one may be answered. -/
theorem decided_unknown_iff {left right : TemporalValue} {a b : Engine → SqlValue} {P : Prop}
    (htruth : ∀ engine, p.truth engine row =
      leafTruth explicit operator left right (a engine) (b engine) engine)
    (hnull : ∀ engine, ((a engine).isNull || (b engine).isNull) = true)
    (hanswers : (∃ engine, NullAnswers explicit left right (a engine) (b engine)) ↔ P) :
    Decided p row .unknown ↔ ¬ (isEquality operator = true ∧ P) := by
  rw [← hanswers]
  constructor
  · rintro h ⟨hequality, engine, hanswers⟩
    obtain ⟨result, hresult⟩ :
        ∃ result, leafTruth explicit operator left right (a engine) (b engine) engine = .ofBool result :=
      leafTruth_null_answers hequality hanswers
    rw [← htruth, h engine] at hresult
    cases result <;> cases hresult
  · intro h engine
    rw [htruth]
    apply leafTruth_null (hnull engine)
    intro hanswers
    exact h ⟨hanswers.1, engine, hanswers.2⟩

/-- The NULL is a column's, and the other operand is there. -/
theorem nullAnswers_left {right : TemporalValue} {b : SqlValue} (hb : b.isNull = false) :
    NullAnswers explicit (.column name) right .null b ↔ explicit name = true := by
  rw [NullAnswers, hb, Bool.and_false, Bool.or_false]
  constructor
  · intro h
    exact (Bool.and_eq_true_iff.mp h.1).1
  · intro h
    refine ⟨Bool.and_eq_true_iff.mpr ⟨h, rfl⟩, fun _ => Bool.or_eq_true_iff.mpr (.inl h), ?_⟩
    intro hfalse
    cases hfalse

theorem nullAnswers_right {left : TemporalValue} {a : SqlValue} (ha : a.isNull = false) :
    NullAnswers explicit left (.column name) a .null ↔ explicit name = true := by
  rw [NullAnswers, ha, Bool.and_false, Bool.false_or]
  constructor
  · intro h
    exact (Bool.and_eq_true_iff.mp h.1).1
  · intro h
    refine ⟨Bool.and_eq_true_iff.mpr ⟨h, rfl⟩, ?_, fun _ => Bool.or_eq_true_iff.mpr (.inl h)⟩
    intro hfalse
    cases hfalse

/-- Two stores that answer every comparison of the two operands in opposite ways. -/
theorem undecided_leaf {left right : TemporalValue} {a b : SqlValue} (ha : a.isNull = false)
    (hb : b.isNull = false)
    (htruth : ∀ engine, p.truth engine row = leafTruth explicit operator left right a b engine)
    (hcompare : ∀ t op, (answering .null t).compare op a b = t) : Undecided p row := by
  obtain ⟨result, hresult⟩ :
      ∃ result, leafTruth explicit operator left right a b (answering .null .yes) = .ofBool result :=
    leafTruth_of_bool (r := fun _ => true) ha hb (hcompare .yes)
  refine ⟨answering .null .unknown, answering .null .yes, result, ?_, ?_⟩
  · rw [htruth]
    exact leafTruth_of_unknown ha hb (hcompare .unknown)
  · rw [htruth]
    exact hresult

theorem readsBound_left
    (hplain : compareLeaf operator (.column name) (.time bound) = .ok plain)
    (hp : withNullConventions explicit operator (.column name) (.time bound) plain = .ok p) :
    ReadsBound p row (explicit name) operator name bound := by
  obtain ⟨a, b, ha, hb, htruth⟩ := truth_leaf row rfl hplain hp
  obtain rfl := Except.ok.inj ha
  obtain ⟨rfl, hwhole⟩ := quoteTime_eq_ok hb
  simp only [SqlAlchemy.Expression.eval_column, SqlAlchemy.Expression.eval_literal] at htruth
  refine ⟨?_, ?_, ?_⟩
  · intro hnull
    rw [hnull] at htruth
    apply decided_unknown_iff htruth fun _ => rfl
    have : Nonempty Engine := ⟨Engine.bare⟩
    rw [exists_const]
    exact nullAnswers_left (boundValue_isNull bound)
  · intro n hn hbound engine
    rw [htruth, hn]
    exact leafTruth_of_test rfl (boundValue_isNull bound) fun op =>
      (compare_boundValue hbound hwhole engine).1
  · intro n hn hbound
    rw [hn] at htruth
    exact undecided_leaf rfl (boundValue_isNull bound) htruth fun t op =>
      (compare_outside hbound .null t).1

theorem readsBound_right
    (hplain : compareLeaf operator (.time bound) (.column name) = .ok plain)
    (hp : withNullConventions explicit operator (.time bound) (.column name) plain = .ok p) :
    ReadsBound p row (explicit name) operator.mirrored name bound := by
  obtain ⟨a, b, ha, hb, htruth⟩ := truth_leaf row rfl hplain hp
  obtain ⟨rfl, hwhole⟩ := quoteTime_eq_ok ha
  obtain rfl := Except.ok.inj hb
  simp only [SqlAlchemy.Expression.eval_column, SqlAlchemy.Expression.eval_literal] at htruth
  refine ⟨?_, ?_, ?_⟩
  · intro hnull
    rw [hnull] at htruth
    rw [isEquality_mirrored]
    apply decided_unknown_iff htruth fun _ => Bool.or_true _
    have : Nonempty Engine := ⟨Engine.bare⟩
    rw [exists_const]
    exact nullAnswers_right (boundValue_isNull bound)
  · intro n hn hbound engine
    rw [htruth, hn, test_mirrored]
    exact leafTruth_of_test (boundValue_isNull bound) rfl fun op =>
      (compare_boundValue hbound hwhole engine).2
  · intro n hn hbound
    rw [hn] at htruth
    exact undecided_leaf (boundValue_isNull bound) rfl htruth fun t op =>
      (compare_outside hbound .null t).2

end Bound

/-! ## The row of a comparison -/

section Stored

variable {row : Row} {columns : List String} {name : String}

theorem storedInstants_eq_none_iff (hrow : StoresInstants row columns) (hname : name ∈ columns) :
    storedInstants row name = none ↔ row name = .null := by
  rw [storedInstants]
  rcases hrow name hname with hnull | ⟨n, hn, -⟩
  · rw [hnull]
    exact iff_of_true rfl rfl
  · rw [hn]
    exact iff_of_false (Option.some_ne_none n) (fun h => by cases h)

theorem exists_stored (hrow : StoresInstants row columns) (hname : name ∈ columns)
    (hstored : storedInstants row name ≠ none) :
    ∃ n, row name = .time n ∧ storedInstants row name = some n := by
  rcases hrow name hname with hnull | ⟨n, hn, -⟩
  · exact (hstored ((storedInstants_eq_none_iff hrow hname).mpr hnull)).elim
  · exact ⟨n, hn, by rw [storedInstants, hn]⟩

end Stored

/-- An expression of one column: its instant later by a total, or the time since it. -/
structure ReadsColumn (clock : Int) {kind : Bool} (e : TemporalExpression kind) (name : String)
    (total : ℚ) : Prop where
  plain : e.subtracts = false
  columns : e.columns = [name]
  exact : ∀ stored, e.exact clock stored =
    (stored name).map fun n : Int => if kind = true then (n : ℚ) + total else total - n

/-- An expression of no column, and its value. -/
structure IsConstant (clock : Int) {kind : Bool} (e : TemporalExpression kind) (value : ℚ) :
    Prop where
  plain : e.subtracts = false
  columns : e.columns = []
  exact : ∀ stored, e.exact clock stored = some value

section OneColumn

variable {explicit : String → Bool} {clock : Int} {kind definite : Bool}
  {operator op : ComparisonOperator} {left right : TemporalExpression kind} {name : String}
  {total value bound : ℚ} {row : Row} {p : Arel}

/-- One column, and no difference of instants. -/
theorem agrees_of_readsBound (hrow : StoresInstants row (left.columns ++ right.columns))
    (hcolumns : left.columns ++ right.columns = [name])
    (hplain : (left.subtracts || right.subtracts) = false)
    (hbound : bound? clock left right = some bound)
    (hreads : ReadsBound p row definite op name bound)
    (hanswers : storedInstants row name = none →
      (AnswersNull explicit (storedInstants row) left right ↔ definite = true))
    (hequality : isEquality op = isEquality operator)
    (hexact : ∀ n, storedInstants row name = some n → ∃ x y,
      left.exact clock (storedInstants row) = some x ∧
        right.exact clock (storedInstants row) = some y ∧
          operator.test (.finite x) (.finite y) = op.test (.finite n) (.finite bound)) :
    Decided p row (comparisonTruth clock (storedInstants row) operator left right) ↔
      Agrees explicit clock (storedInstants row) operator left right := by
  have hmem : name ∈ left.columns ++ right.columns := by
    rw [hcolumns]
    exact List.mem_singleton_self name
  by_cases hnone : storedInstants row name = none
  · apply agrees_of_null ⟨name, hmem, hnone⟩
    rw [hreads.null ((storedInstants_eq_none_iff hrow hmem).mp hnone), hanswers hnone, hequality]
  · obtain ⟨n, hn, hstored⟩ := exists_stored hrow hmem hnone
    obtain ⟨x, y, hx, hy, htest⟩ := hexact n hstored
    have hnull : ¬ ReadsNull (storedInstants row) left right := by
      rintro ⟨other, hother, hmissing⟩
      rw [hcolumns, List.mem_singleton] at hother
      rw [hother] at hmissing
      exact hnone hmissing
    apply agrees_of_present hnull hplain hx hy
    · intro hinside
      rw [htest]
      exact hreads.inside n hn (hinside bound hbound)
    · intro other hother hout
      rw [hbound] at hother
      rw [← Option.some.inj hother] at hout
      exact hreads.outside n hn hout

theorem agrees_column_left (hleft : ReadsColumn clock left name total)
    (hright : IsConstant clock right value)
    (hrow : StoresInstants row (left.columns ++ right.columns))
    (hreads : ReadsBound p row definite (if kind = true then operator else operator.mirrored) name
      (if kind = true then value - total else total - value))
    (hanswers : storedInstants row name = none →
      (AnswersNull explicit (storedInstants row) left right ↔ definite = true)) :
    Decided p row (comparisonTruth clock (storedInstants row) operator left right) ↔
      Agrees explicit clock (storedInstants row) operator left right := by
  refine agrees_of_readsBound hrow ?_ ?_ ?_ hreads hanswers ?_ ?_
  · rw [hleft.columns, hright.columns, List.append_nil]
  · rw [hleft.plain, hright.plain, Bool.or_false]
  · rw [bound?, hleft.columns, hright.columns, hleft.exact, hright.exact]
    cases kind <;> simp
  · cases kind with
    | true => rfl
    | false => exact isEquality_mirrored operator
  · intro n hn
    rw [hleft.exact, hright.exact, hn]
    refine ⟨_, _, rfl, rfl, ?_⟩
    cases kind with
    | true =>
        simp only [if_true]
        exact test_moved operator (by ring)
    | false =>
        simp only [Bool.false_eq_true, if_false, test_mirrored]
        exact test_moved operator (by ring)

theorem agrees_column_right (hleft : IsConstant clock left value)
    (hright : ReadsColumn clock right name total)
    (hrow : StoresInstants row (left.columns ++ right.columns))
    (hreads : ReadsBound p row definite (if kind = true then operator.mirrored else operator) name
      (if kind = true then value - total else total - value))
    (hanswers : storedInstants row name = none →
      (AnswersNull explicit (storedInstants row) left right ↔ definite = true)) :
    Decided p row (comparisonTruth clock (storedInstants row) operator left right) ↔
      Agrees explicit clock (storedInstants row) operator left right := by
  refine agrees_of_readsBound hrow ?_ ?_ ?_ hreads hanswers ?_ ?_
  · rw [hleft.columns, hright.columns, List.nil_append]
  · rw [hleft.plain, hright.plain, Bool.or_false]
  · rw [bound?, hleft.columns, hright.columns, hleft.exact, hright.exact]
    cases kind <;> simp
  · cases kind with
    | true => exact isEquality_mirrored operator
    | false => rfl
  · intro n hn
    rw [hleft.exact, hright.exact, hn]
    refine ⟨_, _, rfl, rfl, ?_⟩
    cases kind with
    | true =>
        simp only [if_true, test_mirrored]
        exact test_moved operator (by ring)
    | false =>
        simp only [Bool.false_eq_true, if_false]
        exact test_moved operator (by ring)

end OneColumn

section Bare

variable {explicit : String → Bool} {stored : String → Option Int} {kind : Bool}
  {left right : TemporalExpression kind} {name : String}

theorem bareColumn?_of_columns (h : left.columns = []) : left.bareColumn? = none := by
  cases left with
  | column name => cases h
  | _ => rfl

theorem bareColumn?_duration (e : TemporalExpression false) : e.bareColumn? = none := by
  cases e <;> rfl

theorem answersNull_left (hleft : left.bareColumn? = some name) (hright : right.bareColumn? = none)
    (hnone : stored name = none) :
    AnswersNull explicit stored left right ↔ explicit name = true := by
  rw [AnswersNull, hleft, hright]
  constructor
  · intro h
    exact h.2 name (.inl rfl) hnone
  · intro h
    refine ⟨⟨name, .inl rfl, h, hnone⟩, ?_⟩
    rintro other (hother | hother) -
    · rwa [← Option.some.inj hother]
    · cases hother

theorem answersNull_right (hleft : left.bareColumn? = none) (hright : right.bareColumn? = some name)
    (hnone : stored name = none) :
    AnswersNull explicit stored left right ↔ explicit name = true := by
  rw [AnswersNull, hleft, hright]
  constructor
  · intro h
    exact h.2 name (.inr rfl) hnone
  · intro h
    refine ⟨⟨name, .inr rfl, h, hnone⟩, ?_⟩
    rintro other (hother | hother) -
    · cases hother
    · rwa [← Option.some.inj hother]

theorem answersNull_none (hleft : left.bareColumn? = none) (hright : right.bareColumn? = none) :
    AnswersNull explicit stored left right ↔ false = true := by
  rw [AnswersNull, hleft, hright]
  apply iff_of_false _ Bool.false_ne_true
  rintro ⟨⟨name, hname | hname, -⟩, -⟩ <;> cases hname

end Bare

/-! ## Differences of instants -/

section Raw

variable {explicit : String → Bool} {clock : Int} {kind : Bool} {operator : ComparisonOperator}
  {left right : TemporalExpression kind} {row : Row} {plain p element other : Arel} {name : String}

theorem IsRaw.eval (h : IsRaw element) (sum : SqlValue) (t : Truth) :
    element.eval (answering sum t) row = sum := by
  obtain ⟨op, a, b, rfl⟩ := h
  rfl

theorem not_readsNull_of_columns (row : Row) (hcolumns : left.columns ++ right.columns = []) :
    ¬ ReadsNull (storedInstants row) left right := by
  rintro ⟨name, hname, -⟩
  rw [hcolumns] at hname
  cases hname

/-- Beside an instant of Ruby's: an equality is UNKNOWN only where the difference is NULL. -/
theorem agrees_heterogeneous (hraw : IsRaw element)
    (hp : p = heterogeneousComparison operator element)
    (hcolumns : left.columns ++ right.columns = [])
    (hsome : (left.subtracts || right.subtracts) = true)
    (hone : (left.subtracts && right.subtracts) = false) :
    Decided p row (comparisonTruth clock (storedInstants row) operator left right) ↔
      Agrees explicit clock (storedInstants row) operator left right := by
  have hnull := not_readsNull_of_columns row hcolumns
  cases hequality : isEquality operator with
  | true =>
      rw [heterogeneousComparison, if_pos hequality] at hp
      apply agrees_of_undecided hnull hsome
      · refine ⟨answering .null .unknown, answering (.number (.finite 0)) .yes,
          decide (operator = .ne), ?_, ?_⟩
        · rw [hp, SqlAlchemy.Expression.truth_caseWhen, SqlAlchemy.Expression.truth_isNull,
            hraw.eval]
          rfl
        · rw [hp, SqlAlchemy.Expression.truth_caseWhen, SqlAlchemy.Expression.truth_isNull,
            hraw.eval]
          rfl
      · rintro ⟨hother, -⟩
        rw [hequality] at hother
        cases hother
  | false =>
      rw [heterogeneousComparison, hequality, if_neg Bool.false_ne_true] at hp
      have hdecided : Decided p row
          (comparisonTruth clock (storedInstants row) operator left right) ↔
            comparisonTruth clock (storedInstants row) operator left right = .unknown := by
        rw [hp]
        exact ⟨fun h => (h Engine.bare).symm, fun h _ => h.symm⟩
      rw [hdecided, comparisonTruth_eq_unknown_iff]
      constructor
      · intro h
        refine ⟨fun hmissing => (hnull hmissing).elim, fun _ _ => ⟨hequality, hcolumns, hone, h⟩, ?_⟩
        intro _ hplain
        rw [hsome] at hplain
        cases hplain
      · intro h
        exact (h.difference hnull hsome).2.2.2

/-- One store has a NULL that no convention answers, and another has two values. -/
theorem undecided_of_values {v w : TemporalValue} {a b : Engine → SqlValue} (e₁ e₂ : Engine)
    (result : ComparisonOperator → Bool)
    (htruth : ∀ engine, p.truth engine row =
      leafTruth explicit operator v w (a engine) (b engine) engine)
    (hnull : ((a e₁).isNull || (b e₁).isNull) = true)
    (hanswers : ¬ NullAnswers explicit v w (a e₁) (b e₁))
    (ha : (a e₂).isNull = false) (hb : (b e₂).isNull = false)
    (hbool : ∀ op, e₂.compare op (a e₂) (b e₂) = .ofBool (result op)) : Undecided p row := by
  obtain ⟨answer, hanswer⟩ :
      ∃ answer, leafTruth explicit operator v w (a e₂) (b e₂) e₂ = .ofBool answer :=
    leafTruth_of_bool ha hb hbool
  refine ⟨e₁, e₂, answer, ?_, ?_⟩
  · rw [htruth]
    exact leafTruth_null hnull fun h => hanswers h.2
  · rw [htruth]
    exact hanswer

theorem agrees_two_differences (hleft : IsRaw element) (hright : IsRaw other)
    (hplain : compareLeaf operator (.node element) (.node other) = .ok plain)
    (hp : withNullConventions explicit operator (.node element) (.node other) plain = .ok p)
    (hcolumns : left.columns ++ right.columns = [])
    (hboth : (left.subtracts && right.subtracts) = true) :
    Decided p row (comparisonTruth clock (storedInstants row) operator left right) ↔
      Agrees explicit clock (storedInstants row) operator left right := by
  obtain ⟨a, b, ha, hb, htruth⟩ := truth_leaf row rfl hplain hp
  obtain rfl := Except.ok.inj ha
  obtain rfl := Except.ok.inj hb
  have hsome : (left.subtracts || right.subtracts) = true := by
    rw [(Bool.and_eq_true_iff.mp hboth).1, Bool.true_or]
  apply agrees_of_undecided (not_readsNull_of_columns row hcolumns) hsome
  · apply undecided_of_values (answering .null .unknown) (answering (.number (.finite 0)) .yes)
      (fun op => op.test (.finite 0) (.finite 0)) htruth
    · rw [hleft.eval, hright.eval]
      rfl
    · rintro ⟨h, -⟩
      cases h
    · rw [hleft.eval]
      rfl
    · rw [hright.eval]
      rfl
    · intro op
      rw [hleft.eval, hright.eval]
      rfl
  · rintro ⟨-, -, h⟩
    rw [hboth] at h
    cases h

theorem agrees_column_difference (hraw : IsRaw element)
    (hplain : compareLeaf operator (.column name) (.node element) = .ok plain)
    (hp : withNullConventions explicit operator (.column name) (.node element) plain = .ok p)
    (hrow : StoresInstants row (left.columns ++ right.columns))
    (hleft : left.bareColumn? = some name) (hright : right.bareColumn? = none)
    (hcolumns : left.columns ++ right.columns = [name])
    (hsome : (left.subtracts || right.subtracts) = true) :
    Decided p row (comparisonTruth clock (storedInstants row) operator left right) ↔
      Agrees explicit clock (storedInstants row) operator left right := by
  obtain ⟨a, b, ha, hb, htruth⟩ := truth_leaf row rfl hplain hp
  obtain rfl := Except.ok.inj ha
  obtain rfl := Except.ok.inj hb
  have hmem : name ∈ left.columns ++ right.columns := by
    rw [hcolumns]
    exact List.mem_singleton_self name
  by_cases hnone : storedInstants row name = none
  · have hnull := (storedInstants_eq_none_iff hrow hmem).mp hnone
    simp only [SqlAlchemy.Expression.eval_column, hnull] at htruth
    apply agrees_of_null ⟨name, hmem, hnone⟩
    rw [answersNull_left hleft hright hnone]
    apply decided_unknown_iff htruth fun _ => rfl
    constructor
    · rintro ⟨engine, h, -⟩
      change (explicit name && true || false && _) = true at h
      rwa [Bool.false_and, Bool.or_false, Bool.and_true] at h
    · intro h
      refine ⟨answering (.number (.finite 0)) .yes, (nullAnswers_left ?_).mpr h⟩
      rw [hraw.eval]
      rfl
  · obtain ⟨n, hn, hstored⟩ := exists_stored hrow hmem hnone
    simp only [SqlAlchemy.Expression.eval_column, hn] at htruth
    apply agrees_of_undecided _ hsome
    · apply undecided_of_values (answering .null .unknown)
        (answering (.number (.finite 0)) .yes) (fun _ => true) htruth
      · rw [hraw.eval]
        rfl
      · rintro ⟨-, -, h⟩
        rw [hraw.eval] at h
        cases h rfl
      · rfl
      · rw [hraw.eval]
        rfl
      · intro op
        rw [hraw.eval]
        rfl
    · rintro ⟨-, h, -⟩
      rw [hcolumns] at h
      cases h
    · rintro ⟨other, hother, hmissing⟩
      rw [hcolumns, List.mem_singleton] at hother
      rw [hother] at hmissing
      exact hnone hmissing

theorem agrees_difference_column (hraw : IsRaw element)
    (hplain : compareLeaf operator (.node element) (.column name) = .ok plain)
    (hp : withNullConventions explicit operator (.node element) (.column name) plain = .ok p)
    (hrow : StoresInstants row (left.columns ++ right.columns))
    (hleft : left.bareColumn? = none) (hright : right.bareColumn? = some name)
    (hcolumns : left.columns ++ right.columns = [name])
    (hsome : (left.subtracts || right.subtracts) = true) :
    Decided p row (comparisonTruth clock (storedInstants row) operator left right) ↔
      Agrees explicit clock (storedInstants row) operator left right := by
  obtain ⟨a, b, ha, hb, htruth⟩ := truth_leaf row rfl hplain hp
  obtain rfl := Except.ok.inj ha
  obtain rfl := Except.ok.inj hb
  have hmem : name ∈ left.columns ++ right.columns := by
    rw [hcolumns]
    exact List.mem_singleton_self name
  by_cases hnone : storedInstants row name = none
  · have hnull := (storedInstants_eq_none_iff hrow hmem).mp hnone
    simp only [SqlAlchemy.Expression.eval_column, hnull] at htruth
    apply agrees_of_null ⟨name, hmem, hnone⟩
    rw [answersNull_right hleft hright hnone]
    apply decided_unknown_iff htruth fun _ => Bool.or_true _
    constructor
    · rintro ⟨engine, h, -⟩
      change (false && _ || explicit name && true) = true at h
      rwa [Bool.false_and, Bool.false_or, Bool.and_true] at h
    · intro h
      refine ⟨answering (.number (.finite 0)) .yes, (nullAnswers_right ?_).mpr h⟩
      rw [hraw.eval]
      rfl
  · obtain ⟨n, hn, hstored⟩ := exists_stored hrow hmem hnone
    simp only [SqlAlchemy.Expression.eval_column, hn] at htruth
    apply agrees_of_undecided _ hsome
    · apply undecided_of_values (answering .null .unknown)
        (answering (.number (.finite 0)) .yes) (fun _ => true) htruth
      · rw [hraw.eval]
        rfl
      · rintro ⟨-, h, -⟩
        rw [hraw.eval] at h
        cases h rfl
      · rw [hraw.eval]
        rfl
      · rfl
      · intro op
        rw [hraw.eval]
        rfl
    · rintro ⟨-, h, -⟩
      rw [hcolumns] at h
      cases h
    · rintro ⟨other, hother, hmissing⟩
      rw [hcolumns, List.mem_singleton] at hother
      rw [hother] at hmissing
      exact hnone hmissing

end Raw

/-! ## Two columns, and two constants -/

section Plain

variable {explicit : String → Bool} {clock : Int} {kind : Bool} {operator : ComparisonOperator}
  {left right : TemporalExpression kind} {row : Row} {plain p : Arel} {name other : String}

theorem agrees_two_columns
    (hplain : compareLeaf operator (.column name) (.column other) = .ok plain)
    (hp : withNullConventions explicit operator (.column name) (.column other) plain = .ok p)
    (hrow : StoresInstants row [name, other]) :
    Decided p row (comparisonTruth clock (storedInstants row) operator (.column name)
        (.column other)) ↔
      Agrees explicit clock (storedInstants row) operator (.column name) (.column other) := by
  obtain ⟨a, b, ha, hb, htruth⟩ := truth_leaf row rfl hplain hp
  obtain rfl := Except.ok.inj ha
  obtain rfl := Except.ok.inj hb
  simp only [SqlAlchemy.Expression.eval_column] at htruth
  have hmem : name ∈ [name, other] := List.mem_cons_self
  have hmem' : other ∈ [name, other] := List.mem_cons_of_mem name (List.mem_singleton_self other)
  have hisNull : ∀ {x}, x ∈ [name, other] →
      ((row x).isNull = true ↔ storedInstants row x = none) := by
    intro x hx
    rw [storedInstants_eq_none_iff hrow hx]
    cases row x <;> simp [SqlValue.isNull]
  by_cases hnull : ReadsNull (storedInstants row) (.column name) (.column other)
  · apply agrees_of_null hnull
    apply decided_unknown_iff htruth
    · intro engine
      obtain ⟨x, hx, hnone⟩ := hnull
      rcases List.mem_cons.mp hx with rfl | hx
      · rw [(hisNull hmem).mpr hnone, Bool.true_or]
      · rw [List.mem_singleton.mp hx] at hnone
        rw [(hisNull hmem').mpr hnone, Bool.or_true]
    · have hengine : Nonempty Engine := ⟨Engine.bare⟩
      rw [exists_const, NullAnswers, AnswersNull]
      simp only [isExplicitNull, TemporalValue.isTime, bareColumn?, Option.some.injEq,
        Bool.or_false, Bool.or_eq_true, Bool.and_eq_true, hisNull hmem, hisNull hmem']
      constructor
      · rintro ⟨h, hname, hother⟩
        refine ⟨?_, ?_⟩
        · rcases h with h | h
          · exact ⟨name, .inl rfl, h⟩
          · exact ⟨other, .inr rfl, h⟩
        · rintro x (rfl | rfl)
          · exact hname
          · exact hother
      · rintro ⟨⟨x, rfl | rfl, h⟩, hall⟩
        · exact ⟨.inl h, hall _ (.inl rfl), hall _ (.inr rfl)⟩
        · exact ⟨.inr h, hall _ (.inl rfl), hall _ (.inr rfl)⟩
  · have hthere : ∀ {x}, x ∈ [name, other] → storedInstants row x ≠ none :=
      fun hx hnone => hnull ⟨_, hx, hnone⟩
    obtain ⟨n, hn, hstored⟩ := exists_stored hrow hmem (hthere hmem)
    obtain ⟨m, hm, hstored'⟩ := exists_stored hrow hmem' (hthere hmem')
    apply agrees_of_present (x := n) (y := m) hnull rfl
    · rw [TemporalExpression.exact, hstored]
      rfl
    · rw [TemporalExpression.exact, hstored']
      rfl
    · intro _ engine
      rw [htruth, hn, hm]
      exact leafTruth_of_test rfl rfl fun op => rfl
    · intro bound hbound
      cases hbound

theorem agrees_two_constants {x y : ℚ} (hleft : IsConstant clock left x)
    (hright : IsConstant clock right y)
    (hp : p = .ofBool (operator.test (.finite x) (.finite y))) :
    Decided p row (comparisonTruth clock (storedInstants row) operator left right) ↔
      Agrees explicit clock (storedInstants row) operator left right := by
  apply agrees_of_present _ _ (hleft.exact _) (hright.exact _)
  · intro _ engine
    rw [hp, SqlAlchemy.Expression.truth_ofBool]
  · intro bound hbound
    rw [bound?, hleft.columns, hright.columns, if_pos rfl] at hbound
    cases hbound
  · apply not_readsNull_of_columns
    rw [hleft.columns, hright.columns, List.append_nil]
  · rw [hleft.plain, hright.plain, Bool.or_false]

end Plain

/-! ## Every comparison -/

section Comparison

variable {explicit : String → Bool} {clock : Int} {kind : Bool} {operator : ComparisonOperator}
  {left right : TemporalExpression kind} {row : Row} {plain p : Arel} {v w : TemporalValue}

theorem comparison_eq_ok (h : comparison clock explicit operator left right = .ok p) :
    ∃ v w plain, Lowered clock left v ∧ Lowered clock right w ∧
      compare (now clock) operator v w = .ok plain ∧
        withNullConventions explicit operator v w plain = .ok p := by
  obtain ⟨v, hv, h⟩ := Except.bind_eq_ok_iff.mp h
  obtain ⟨w, hw, h⟩ := Except.bind_eq_ok_iff.mp h
  obtain ⟨plain, hplain, hp⟩ := Except.bind_eq_ok_iff.mp h
  exact ⟨v, w, plain, lowered_value hv, lowered_value hw, hplain, hp⟩

/-- No operand is a bare column, so no convention applies. -/
theorem eq_plain (hv : isExplicitNull explicit v = false) (hw : isExplicitNull explicit w = false)
    (hp : withNullConventions explicit operator v w plain = .ok p) : p = plain := by
  rw [withNullConventions, hv, hw, Bool.or_false, Bool.and_false, if_neg Bool.false_ne_true] at hp
  exact (Except.ok.inj hp).symm

theorem withNullConventions_none (v w : TemporalValue) :
    withNullConventions (fun _ => false) operator v w plain = .ok plain := by
  have hnone : ∀ v, isExplicitNull (fun _ => false) v = false := fun v => by cases v <;> rfl
  rw [withNullConventions, hnone, hnone, Bool.or_false, Bool.and_false, if_neg Bool.false_ne_true]

theorem readsColumn_column (name : String) : ReadsColumn clock (.column name) name 0 := by
  refine ⟨rfl, rfl, ?_⟩
  intro stored
  simp only [TemporalExpression.exact, if_true, add_zero]

/-- A predicate is CEL's in every store exactly where its operands' ranges are kept, the instant
that its column is compared with is one of CEL's years, and no convention answers a NULL. -/
theorem comparison_agrees_iff (explicit : String → Bool) (clock : Int) {kind : Bool}
    (operator : ComparisonOperator) (left right : TemporalExpression kind) {row : Row} {p : Arel}
    (hrow : StoresInstants row (left.columns ++ right.columns))
    (h : comparison clock explicit operator left right = .ok p) :
    (∀ engine, p.truth engine row =
        comparisonTruth clock (storedInstants row) operator left right) ↔
      Agrees explicit clock (storedInstants row) operator left right := by
  obtain ⟨v, w, plain, hleft, hright, hplain, hp⟩ := comparison_eq_ok h
  cases hleft with
  | column name =>
      cases hright with
      | column other => exact agrees_two_columns hplain hp hrow
      | time hnone hnil hvalue =>
          apply agrees_column_left (readsColumn_column name) ⟨hnone, hnil, hvalue⟩ hrow
          · simp only [if_true, sub_zero]
            exact readsBound_left hplain hp
          · exact answersNull_left rfl (bareColumn?_of_columns hnil)
      | shifted hnone hname hbare hvalue => cases hplain
      | node hsome hnil hbare hraw =>
          apply agrees_column_difference hraw hplain hp hrow rfl hbare
          · rw [hnil]
            rfl
          · rw [hsome, Bool.or_true]
  | time hnone hnil hvalue =>
      cases hright with
      | column name =>
          apply agrees_column_right ⟨hnone, hnil, hvalue⟩ (readsColumn_column name) hrow
          · simp only [if_true, sub_zero]
            exact readsBound_right hplain hp
          · exact answersNull_right (bareColumn?_of_columns hnil) rfl
      | time hnone' hnil' hvalue' =>
          obtain rfl := Except.ok.inj hplain
          exact agrees_two_constants ⟨hnone, hnil, hvalue⟩ ⟨hnone', hnil', hvalue'⟩
            (eq_plain rfl rfl hp)
      | shifted hnone' hname hbare hvalue' =>
          apply agrees_column_right ⟨hnone, hnil, hvalue⟩ ⟨hnone', hname, hvalue'⟩ hrow
          · obtain rfl := eq_plain rfl rfl hp
            exact readsBound_right hplain (withNullConventions_none _ _)
          · intro _
            exact answersNull_none (bareColumn?_of_columns hnil) hbare
      | node hsome hnil' hbare hraw =>
          obtain rfl := Except.ok.inj hplain
          apply agrees_heterogeneous hraw (eq_plain rfl rfl hp)
          · rw [hnil, hnil', List.append_nil]
          · rw [hsome, Bool.or_true]
          · rw [hnone, Bool.false_and]
  | duration hnone hnil hvalue =>
      cases hright with
      | duration hnone' hnil' hvalue' =>
          obtain rfl := Except.ok.inj hplain
          exact agrees_two_constants ⟨hnone, hnil, hvalue⟩ ⟨hnone', hnil', hvalue'⟩
            (eq_plain rfl rfl hp)
      | timeSince hnone' hname hvalue' =>
          apply agrees_column_right ⟨hnone, hnil, hvalue⟩ ⟨hnone', hname, hvalue'⟩ hrow
          · obtain rfl := eq_plain rfl rfl hp
            exact readsBound_left hplain (withNullConventions_none _ _)
          · intro _
            exact answersNull_none (bareColumn?_duration _) (bareColumn?_duration _)
      | node hsome hnil' hbare hraw => cases hplain
  | shifted hnone hname hbare hvalue =>
      cases hright with
      | time hnone' hnil hvalue' =>
          apply agrees_column_left ⟨hnone, hname, hvalue⟩ ⟨hnone', hnil, hvalue'⟩ hrow
          · obtain rfl := eq_plain rfl rfl hp
            exact readsBound_left hplain (withNullConventions_none _ _)
          · intro _
            exact answersNull_none hbare (bareColumn?_of_columns hnil)
      | column other => cases hplain
      | shifted hnone' hname' hbare' hvalue' => cases hplain
      | node hsome hnil' hbare' hraw => cases hplain
  | timeSince hnone hname hvalue =>
      cases hright with
      | duration hnone' hnil hvalue' =>
          apply agrees_column_left ⟨hnone, hname, hvalue⟩ ⟨hnone', hnil, hvalue'⟩ hrow
          · obtain rfl := eq_plain rfl rfl hp
            exact readsBound_left hplain (withNullConventions_none _ _)
          · intro _
            exact answersNull_none (bareColumn?_duration _) (bareColumn?_duration _)
      | timeSince hnone' hname' hvalue' => cases hplain
      | node hsome hnil' hbare hraw => cases hplain
  | node hsome hnil hbare hraw =>
      cases hright with
      | column name =>
          apply agrees_difference_column hraw hplain hp hrow hbare rfl
          · rw [hnil]
            rfl
          · rw [hsome, Bool.true_or]
      | time hnone hnil' hvalue =>
          obtain rfl := Except.ok.inj hplain
          apply agrees_heterogeneous hraw (eq_plain rfl rfl hp)
          · rw [hnil, hnil', List.append_nil]
          · rw [hsome, Bool.true_or]
          · rw [hnone, Bool.and_false]
      | duration hnone hnil' hvalue => cases hplain
      | shifted hnone hname hbare' hvalue => cases hplain
      | timeSince hnone hname hvalue => cases hplain
      | node hsome' hnil' hbare' hraw' =>
          apply agrees_two_differences hraw hraw' hplain hp
          · rw [hnil, hnil', List.append_nil]
          · rw [hsome, hsome', Bool.and_true]

end Comparison

/-! ## A day -/

/-- The first instant of 2024. -/
def newYear : TimestampLiteral := ⟨"2024-01-01T00:00:00Z", 1704067200000000000, by rfl⟩

def dayLater : TemporalExpression true := .shift false (.column "due") (.duration "86400s")

theorem parseDuration_day : parseDuration "86400s" = .ok 86400000000000 := by
  have hterms : parseDuration "86400s" =
      .ok [(((86400 : ℕ) : ℚ) + ((0 : ℕ) : ℚ) / 10 ^ 0) * 1000000000].sum := by rfl
  rw [hterms]
  norm_num

theorem quoteTime_of_micros {n : Int} (h : inTimestampRange (n * 1000) = true) :
    quoteTime ((n * 1000 : Int) : ℚ) = .ok (.literal (.time (n * 1000))) := by
  rw [inTimestampRange, Bool.and_eq_true, decide_eq_true_eq, decide_eq_true_eq] at h
  have hmicros : ((n * 1000 : Int) : ℚ) / 1000 = n := by
    push_cast
    ring
  rw [quoteTime, hmicros, if_pos (Rat.den_intCast n), if_pos (by exact_mod_cast h),
    Rat.num_intCast]

theorem value_dayLater : value 0 dayLater = .ok (.shifted "due" 86400000000000) := by
  rw [dayLater, value, value, value, parseDuration_day]
  have hshift : arithmetic false (.column "due") (.duration 86400000000000) =
      .ok (.shifted "due" (signed false 0 86400000000000)) := rfl
  refine hshift.trans ?_
  rw [signed, if_neg Bool.false_ne_true, zero_add]

/-- The instant of a row a day later is compared with one, from the constant's side. -/
theorem comparison_shifted {left : TemporalExpression true} {total : ℚ} {n : Int}
    (hvalue : value 0 left = .ok (.shifted "due" total)) (hrange : inTimestampRange (n * 1000) = true)
    (hn : (newYear.nanos : ℚ) - total = (n * 1000 : Int)) :
    comparison 0 (fun _ => false) .ge left (.timestamp newYear) =
      .ok (.compare .ge (.column "due") (.literal (.time (n * 1000)))) := by
  have hright : value 0 (.timestamp newYear) = .ok (.time newYear.nanos) := by rfl
  have hplain : compare (now 0) .ge (.shifted "due" total) (.time newYear.nanos) =
      .ok (.compare .ge (.column "due") (.literal (.time (n * 1000)))) := by
    have hleaf : compare (now 0) .ge (.shifted "due" total) (.time newYear.nanos) =
        (quoteTime (newYear.nanos - total)).map (.compare .ge (.column "due")) := rfl
    rw [hleaf, hn, quoteTime_of_micros hrange]
    rfl
  rw [comparison, hvalue, hright]
  change (compare (now 0) .ge (.shifted "due" total) (.time newYear.nanos) >>= fun plain =>
    withNullConventions (fun _ => false) .ge (.shifted "due" total) (.time newYear.nanos) plain) = _
  rw [hplain]
  rfl

theorem comparison_agrees_iff_dayLater :
    let row : Row := fun _ => .time 1704067200000000000
    (∀ engine, (SqlAlchemy.Expression.compare .ge (.column "due")
        (.literal (.time (1703980800000000 * 1000)))).truth engine row =
          comparisonTruth 0 (storedInstants row) .ge dayLater (.timestamp newYear)) ↔
      Agrees (fun _ => false) 0 (storedInstants row) .ge dayLater (.timestamp newYear) := by
  intro row
  apply comparison_agrees_iff
  · intro name _
    exact .inr ⟨_, rfl, rfl⟩
  · apply comparison_shifted value_dayLater (by rfl)
    norm_num [newYear]

/-- A day past the last year, and back again. -/
theorem comparison_past_last_year :
    let row : Row := fun _ => .time 253402257600000000000
    let left : TemporalExpression true := .shift true dayLater (.duration "86400s")
    StoresInstants row left.columns ∧
      (∃ p, comparison 0 (fun _ => false) .ge left (.timestamp newYear) = .ok p ∧
        p.truth Engine.bare row = .yes) ∧
      comparisonTruth 0 (storedInstants row) .ge left (.timestamp newYear) = .unknown := by
  intro row left
  have hvalue : value 0 left = .ok (.shifted "due" (signed true 86400000000000 86400000000000)) := by
    rw [value, value_dayLater, value, parseDuration_day]
    rfl
  refine ⟨?_, ⟨_, comparison_shifted hvalue (n := 1704067200000000) (by rfl) ?_, ?_⟩, ?_⟩
  · intro name _
    exact .inr ⟨_, rfl, rfl⟩
  · norm_num [newYear, signed]
  · have htest : ComparisonOperator.ge.test (.finite ((253402257600000000000 : Int) : ℚ))
        (.finite ((1704067200000000 * 1000 : Int) : ℚ)) = true := by
      simp [ComparisonOperator.test]
      norm_num
    exact congrArg Truth.ofBool htest
  · rfl

end QueryPlanAdapters.ActiveRecord
