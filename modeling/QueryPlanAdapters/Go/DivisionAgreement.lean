import QueryPlanAdapters.Go.Division

/-!
# Go: comparisons of arithmetic are IEEE's

A comparison of two arithmetic expressions that the translator accepts is TRUE, FALSE or
NULL on a row as IEEE arithmetic has it, whatever the signs of the zeros that the row
stores. It is NULL where a column is missing.
-/

namespace QueryPlanAdapters.Go

open Sql

/-- A numeric column of a row: a finite double, of which the database sees the value, or
nothing, which stands for a missing attribute. -/
structure StoresDouble (entry : Entry) (x : SqlValue) (d : Option Double) : Prop where
  isColumn : entry.isColumn = true
  numeric : entry.valueType.holds (.number 0) = true
  stored : x = (d.map Double.toRat).elim .null fun q => .number (.finite q)
  finite : ∀ d' ∈ d, d'.isFinite = true
  missing : d = none → entry.nullConvention ≠ .explicit

namespace Arithmetic

/-- Whether the attributes are what a row stores of the columns that are read. -/
def Assigned (m : Mapper) (env : RowEnv) (attributes : String → Option Double) : Arithmetic → Prop
  | literal _ => True
  | reference name => ∀ entry, m.resolve name = some entry →
      StoresDouble entry (env entry.qualifier entry.column) (attributes name)
  | ring _ left right | quotient left right =>
      left.Assigned m env attributes ∧ right.Assigned m env attributes

end Arithmetic

section Translation

variable [Double.Rounding] {engine : Engine} {db : Database} {m : Mapper} {env : RowEnv}
  {attributes : String → Option Double} {opts : Options} {now : Int}

omit [Double.Rounding] in
theorem StoresDouble.shows {entry : Entry} {x : SqlValue} {d : Option Double}
    (h : StoresDouble entry x d) : Shows x (d.map Double.toRat) := by
  rw [h.stored]
  cases d with
  | none => rfl
  | some d => exact ⟨_, rfl, rfl, rfl⟩

omit [Double.Rounding] in
theorem StoresDouble.numericExpr {entry : Entry} {d : Option Double}
    (h : StoresDouble entry (env entry.qualifier entry.column) d) :
    NumericExpr engine db env (.column (elementColumn entry.qualifier entry)) d where
  finite := h.finite
  shows := h.shows
  notCase := rfl
  kind := by
    have hnumeric := h.numeric
    rw [Expr.scalarKind, Column.scalarKind]
    cases htype : entry.valueType <;> rw [htype] at hnumeric <;>
      simp [elementColumn, htype] at hnumeric ⊢ <;> cases hnumeric
  missing hmissing := by
    simp [explicitNullColumn, elementColumn, h.missing hmissing]

omit [Double.Rounding] in
/-- No number is a string operand. -/
theorem Denotes.isStringOperand {v : Val} {a : Option Double} (h : Denotes engine db env v a) :
    isStringOperand v = false := by
  cases h with
  | @expr e a he =>
      cases e with
      | column c =>
          have hkind := he.kind
          rw [Expr.scalarKind, Column.scalarKind] at hkind
          cases htype : c.type <;> simp [htype, Go.isStringOperand] at hkind ⊢
      | _ => rfl
  | _ => rfl

/-- A `+` over numbers has its numeric reading, or is refused. -/
theorem addValue_denoted {l r v : Val} {a b : Option Double} (hl : Denotes engine db env l a)
    (hr : Denotes engine db env r b) (hrun : addValue l r = .ok v) :
    numericArith RingOperator.add.toArith l r = .ok v := by
  have hlist : ∀ values, l ≠ .constant (.array values) := by
    rintro values rfl
    cases hl
  rw [addValue_of_not_array r hlist, hl.isStringOperand, hr.isStringOperand, Bool.or_self, if_neg Bool.false_ne_true] at hrun
  split at hrun
  · cases hrun
  · exact hrun

/-- What an arithmetic expression is lowered to denotes its IEEE value. -/
theorem yields_arithmetic (hexact : Double.Exact) (hengine : ExactEngine engine) {t : Arithmetic}
    (hassigned : t.Assigned m env attributes) (fuel s : Nat) :
    Yields ((builder opts now fuel).value t.node m) s fun v _ =>
      Denotes engine db env v (t.ieee attributes) ∧ IsPlain env v := by
  induction t generalizing fuel s with
  | literal d =>
      cases fuel with
      | zero => exact Yields.throw _
      | succ fuel => exact Yields.pure ⟨.constant d.isFinite, isPlain_number _⟩
  | reference name =>
      cases fuel with
      | zero => exact Yields.throw _
      | succ fuel =>
          show Yields (resolveVariable name m) s _
          cases hentry : m.resolve name with
          | none =>
              rw [resolveVariable, hentry]
              exact yields_errorf _ _
          | some entry =>
              have hstored := hassigned entry hentry
              rw [resolveVariable_column hentry hstored.isColumn]
              refine Yields.pure ⟨.expr hstored.numericExpr, ?_⟩
              rintro e ⟨⟩
              exact .column hstored.shows
  | ring op left right ihl ihr =>
      cases fuel with
      | zero => exact Yields.throw _
      | succ fuel =>
          have hstep : (builder opts now (fuel + 1)).value (.expression op.toPlan
              [left.node, right.node]) m =
              (builder opts now fuel).arithmetic op.toPlan op.toArith [left.node, right.node] m := by
            cases op <;> rfl
          show Yields ((builder opts now (fuel + 1)).value (.expression op.toPlan
              [left.node, right.node]) m) s _
          rw [hstep, Builder.arithmetic]
          refine (ihl hassigned.1 fuel s).bind fun l s₁ hl => ?_
          refine (ihr hassigned.2 fuel s₁).bind fun r s₂ hr => ?_
          have hplain : (!isTemporal l && !isTemporal r) = true := by
            rw [hl.1.isTemporal, hr.1.isTemporal]
            rfl
          have htemporal : temporalArith op.toArith l r = none := if_pos hplain
          rw [htemporal]
          have hlowered : (numericArith op.toArith l r).Returns fun v =>
              Denotes engine db env v (Option.map₂ (applyIEEE op.toArith) (left.ieee attributes)
                (right.ieee attributes)) ∧ IsPlain env v :=
            fun v hv => denotes_numericArith hexact hengine hl.1 hr.1 hl.2 hr.2 hv
          cases op with
          | add =>
              have hadd : (addValue l r).Returns _ :=
                fun v hv => hlowered v (addValue_denoted hl.1 hr.1 hv)
              exact (Yields.lift hadd).imp fun v s' h => h.1
          | sub => exact (Yields.lift hlowered).imp fun v s' h => h.1
          | mult => exact (Yields.lift hlowered).imp fun v s' h => h.1
  | quotient left right ihl ihr =>
      cases fuel with
      | zero => exact Yields.throw _
      | succ fuel =>
          show Yields ((builder opts now fuel).arithmetic .div .div [left.node, right.node] m) s _
          rw [Builder.arithmetic]
          refine (ihl hassigned.1 fuel s).bind fun l s₁ hl => ?_
          refine (ihr hassigned.2 fuel s₁).bind fun r s₂ hr => ?_
          have hlowered : (floatDiv l r).Returns _ :=
            fun v hv => denotes_floatDiv hexact hengine hl.1 hr.1 hl.2 hr.2 hv
          exact (Yields.lift hlowered).imp fun v s' h => h.1

end Translation

/-! ## The nodes of an expression -/

section Nodes

variable {m : Mapper}

namespace Arithmetic

/-- No ternary is lifted out of an expression. -/
theorem unlifted_node (t : Arithmetic) : Unlifted t.node := by
  induction t with
  | ring op left right ihl ihr =>
      cases op with
      | add => exact ihl.add ihr
      | _ => exact ⟨rfl, rfl, rfl⟩
  | _ => exact ⟨rfl, rfl, rfl⟩

theorem yieldsTimestamp_node (t : Arithmetic) : yieldsTimestamp t.node = false := by
  induction t with
  | ring op left right ihl ihr => cases op <;> first | exact ihl | rfl
  | _ => rfl

theorem omittedNullOperand_node (op : CmpOp) (l r : Arithmetic) :
    omittedNullOperand op l.node r.node m = false := by
  unfold omittedNullOperand
  cases l <;> cases r <;> cases op <;> rfl

theorem bareTemporal_none (op : CmpOp) (l r : Arithmetic) :
    Builder.bareTemporalAgainstTimestamp op l.node r.node m = pure none := by
  have hother (name : String) (t : Arithmetic) :
      Builder.bareTemporalAgainstTimestamp op (.var name) t.node m = pure none := by
    show (if !yieldsTimestamp t.node then pure none else _) = pure none
    rw [t.yieldsTimestamp_node]
    rfl
  cases l with
  | reference name => exact hother name r
  | _ =>
      cases r with
      | reference name => exact hother name _
      | _ => rfl

theorem mapLiteralLookup_none {b : Builder} (op : CmpOp) (l r : Arithmetic) :
    b.mapLiteralLookup op l.node r.node m = pure none := by
  rcases l with _ | _ | ⟨_ | _ | _, _, _⟩ | _ <;> rcases r with _ | _ | ⟨_ | _ | _, _, _⟩ | _ <;>
    rfl

end Arithmetic

end Nodes

/-! ## The comparison -/

section Agreement

variable [Double.Rounding] {engine : Engine} {db : Database} {m : Mapper} {env : RowEnv}
  {attributes : String → Option Double} {opts : Options} {now : Int} {op : CmpOp}
  {l r : Arithmetic}

omit [Double.Rounding] in
theorem comparedTruth_mirrored (op : CmpOp) (a b : Option Double) :
    comparedTruth op.mirrored b a = comparedTruth op a b := by
  cases a with
  | none => rw [comparedTruth_none_left, comparedTruth_none_right]
  | some x =>
      cases b with
      | none => rw [comparedTruth_none_left, comparedTruth_none_right]
      | some y => exact congrArg Truth.ofBool (test_mirrored op x y)

theorem yields_columnFirst_arithmetic (hexact : Double.Exact) (hengine : ExactEngine engine)
    (hl : l.Assigned m env attributes) (hr : r.Assigned m env attributes) (fuel s : Nat)
    (negated : Bool) :
    Yields ((builder opts now fuel).columnFirstComparison op l.node r.node m negated) s
      fun e _ => e.truth engine db env =
        (comparedTruth op (l.ieee attributes) (r.ieee attributes)).polarised negated := by
  rw [Builder.columnFirstComparison, Arithmetic.bareTemporal_none, pure_bind]
  dsimp only
  rw [Arithmetic.omittedNullOperand_node, if_neg Bool.false_ne_true]
  have hvalue {t : Arithmetic} (ht : t.Assigned m env attributes) (s : Nat) :
      Yields ((builder opts now fuel).value t.node m) s fun v _ =>
        Denotes engine db env v (t.ieee attributes) :=
    (yields_arithmetic hexact hengine ht fuel s).imp fun v s' h => h.1
  refine (hvalue hl s).bind fun lv s₁ hlv => (hvalue hr s₁).bind fun rv s₂ hrv => ?_
  refine (Yields.lift (P := fun e => e.truth engine db env =
    comparedTruth op (l.ieee attributes) (r.ieee attributes))
    fun e he => truth_compare_denoted hlv hrv he).bind fun e s₃ h => ?_
  exact Yields.pure (by rw [truth_negate, h.1])

/-- A comparison of arithmetic expressions that is accepted answers as IEEE arithmetic
does, for either sign of each zero that the row stores, and UNKNOWN where a column is
missing. -/
theorem ieee_comparison_agrees {operator : PlanOperator} {fuel s s' : Nat} {negated : Bool}
    {e : Expr} (hexact : Double.Exact) (hengine : ExactEngine engine)
    (hop : comparisonOps operator = some op) (hl : l.Assigned m env attributes)
    (hr : r.Assigned m env attributes)
    (hrun : (builder opts now fuel).predicate (.expression operator [l.node, r.node]) m negated s =
      .ok (e, s')) :
    e.truth engine db env =
      (comparedTruth op (l.ieee attributes) (r.ieee attributes)).polarised negated := by
  have hlowered : Yields ((builder opts now fuel).predicate
      (.expression operator [l.node, r.node]) m negated) s fun e _ => e.truth engine db env =
        (comparedTruth op (l.ieee attributes) (r.ieee attributes)).polarised negated := by
    refine yields_of_step (fun fuel => ?_) fuel
    rw [predicateStep_unlifted hop l.unlifted_node r.unlifted_node, Builder.comparisonPredicate,
      Arithmetic.mapLiteralLookup_none, pure_bind]
    dsimp only
    split
    · exact yields_errorf _ _
    · split
      · rw [← comparedTruth_mirrored]
        exact yields_columnFirst_arithmetic hexact hengine hr hl fuel s negated
      · exact yields_columnFirst_arithmetic hexact hengine hl hr fuel s negated
  exact hlowered.of_run hrun

end Agreement

/-! A quotient by a stored zero of negative sign, which no sign of an infinity decides. -/

/-- Numeric operators over rationals. -/
def exactEngine : Engine :=
  { Engine.bare with
    arith := fun op x y =>
      match x, y with
      | .number a, .number b =>
          match op with
          | .add => .number (.finite (a.toRat + b.toRat))
          | .sub => .number (.finite (a.toRat - b.toRat))
          | .mult => .number (.finite (a.toRat * b.toRat))
          | .div => .number (.finite (a.toRat / b.toRat))
          | .mod => .null
      | _, _ => .null
    castFloat := fun x => x }

theorem exactEngine_exact : ExactEngine exactEngine where
  ring {x y a b} op hx hy := by
    cases a with
    | none =>
        obtain rfl : x = .null := hx
        rw [Option.map₂_none_left]
        rfl
    | some a =>
        obtain ⟨d, rfl, hd, rfl⟩ := hx
        cases b with
        | none =>
            obtain rfl : y = .null := hy
            rfl
        | some b =>
            obtain ⟨e, rfl, he, rfl⟩ := hy
            cases op <;> exact ⟨_, rfl, rfl, rfl⟩
  quotient {x y a b} hx hy _ := by
    cases a with
    | none =>
        obtain rfl : x = .null := hx
        rw [Option.map₂_none_left]
        rfl
    | some a =>
        obtain ⟨d, rfl, hd, rfl⟩ := hx
        cases b with
        | none =>
            obtain rfl : y = .null := hy
            rfl
        | some b =>
            obtain ⟨e, rfl, he, rfl⟩ := hy
            exact ⟨_, rfl, rfl, rfl⟩
  castFloat hx := hx

def amountEntry (column : String) : Entry where
  relation := none
  scalarRelation := none
  column := column
  qualifier := "documents"
  valueType := .number
  nullConvention := .omitted

def amountMapper : Mapper where
  resolve name :=
    if name = "R.attr.x" then some (amountEntry "x")
    else if name = "R.attr.y" then some (amountEntry "y")
    else none

/-- The row stores 1 and -0, and the database shows 1 and 0. -/
def amountAttributes (name : String) : Option Double :=
  some (if name = "R.attr.y" then .negZero else .finite 1)

def amountRow : RowEnv := fun _ column =>
  .number (.finite (if column = "y" then 0 else 1))

def amountQuotient : Arithmetic :=
  .quotient (.reference "R.attr.x") (.reference "R.attr.y")

theorem amountQuotient_assigned :
    amountQuotient.Assigned amountMapper amountRow amountAttributes := by
  refine ⟨fun entry hentry => ?_, fun entry hentry => ?_⟩
  · obtain rfl := Option.some.inj hentry
    exact ⟨rfl, rfl, rfl, by rintro d ⟨⟩; rfl, by rintro ⟨⟩⟩
  · obtain rfl := Option.some.inj hentry
    exact ⟨rfl, rfl, rfl, by rintro d ⟨⟩; rfl, by rintro ⟨⟩⟩

theorem ieee_comparison_agrees_negZero : ∃ e s,
    (@builder Double.exactRounding tagsOptions 0 4).predicate
        (.expression .ne [amountQuotient.node, (Arithmetic.literal 1).node]) amountMapper false 0 =
      .ok (e, s) ∧
    e.truth exactEngine (fun _ => []) amountRow =
      (comparedTruth .ne (@Arithmetic.ieee Double.exactRounding amountAttributes amountQuotient)
        (@Arithmetic.ieee Double.exactRounding amountAttributes (.literal 1))).polarised false :=
  ⟨_, _, rfl, @ieee_comparison_agrees Double.exactRounding exactEngine (fun _ => []) amountMapper
    amountRow amountAttributes tagsOptions 0 .ne amountQuotient (.literal 1) .ne 4 0 _ false _
    Double.exact_exactRounding exactEngine_exact rfl amountQuotient_assigned trivial rfl⟩

end QueryPlanAdapters.Go
