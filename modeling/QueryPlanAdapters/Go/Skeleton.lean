import QueryPlanAdapters.Go.Subqueries
import QueryPlanAdapters.Go.Translate

/-!
# Go: the boolean skeleton

Connectives, ternaries, boolean columns, comparisons of a column with a literal of
its declared type or with null, and macros over direct relations, nested freely.
Over columns that keep what their entries declare, the expression a condition is
lowered to has the truth value CEL gives the condition, on every row and under
either polarity.
-/

namespace QueryPlanAdapters.Go

open Sql

/-! ## The fragment -/

/-- Whether a column compares with a literal of its declared type, or with null. -/
def Comparable (type : ValueType) (op : CmpOp) : Literal → Prop
  | .null => op.isOrdering = false
  | .bool _ => type = .bool
  | .string _ => type = .string
  | .number _ => type = .number
  | _ => False

theorem comparable_mirrored {type : ValueType} {op : CmpOp} {v : Literal}
    (h : Comparable type op v) : Comparable type op.mirrored v := by
  cases v with
  | null => cases op <;> exact h
  | _ => exact h

/-- The conditions of the skeleton, over the entries a mapper resolves. -/
inductive Skeleton : Mapper → Node → Prop
  | const {m : Mapper} (b : Bool) : Skeleton m (.value (.bool b))
  | column {m : Mapper} {reference : String} {entry : Entry}
      (hentry : m.resolve reference = some entry) (hcolumn : entry.isColumn = true)
      (htype : entry.valueType = .bool ∨ entry.valueType = .default) :
      Skeleton m (.var reference)
  | compared {m : Mapper} {operator : PlanOperator} {op : CmpOp} {reference : String}
      {entry : Entry} {v : Literal} (hop : comparisonOps operator = some op)
      (hentry : m.resolve reference = some entry) (hcolumn : entry.isColumn = true)
      (hv : Comparable entry.valueType op v) :
      Skeleton m (.expression operator [.var reference, .value v])
  | comparedFirst {m : Mapper} {operator : PlanOperator} {op : CmpOp} {reference : String}
      {entry : Entry} {v : Literal} (hop : comparisonOps operator = some op)
      (hentry : m.resolve reference = some entry) (hcolumn : entry.isColumn = true)
      (hv : Comparable entry.valueType op v) :
      Skeleton m (.expression operator [.value v, .var reference])
  | and {m : Mapper} {operands : List Node} (h : ∀ o ∈ operands, Skeleton m o) :
      Skeleton m (.expression .and operands)
  | or {m : Mapper} {operands : List Node} (h : ∀ o ∈ operands, Skeleton m o) :
      Skeleton m (.expression .or operands)
  | not {m : Mapper} {operand : Node} (h : Skeleton m operand) :
      Skeleton m (.expression .not [operand])
  | ternary {m : Mapper} {cond whenTrue whenFalse : Node} (hcond : Skeleton m cond)
      (htrue : Skeleton m whenTrue) (hfalse : Skeleton m whenFalse) :
      Skeleton m (.expression .if [cond, whenTrue, whenFalse])
  | overRelation {m : Mapper} {operator : PlanOperator} {combine : List Truth → Truth}
      {collection name : String} {entry : Entry} {rel : Relation} {body : Node}
      (hfold : macroFold operator = some combine)
      (hentry : m.resolve collection = some entry) (hrel : entry.relation = some rel)
      (hdirect : rel.via = [])
      (hbody : ∀ aliasName, Skeleton (scopedMapper m rel name aliasName) body) :
      Skeleton m (.expression operator [.var collection, .expression .lambda [body, .var name]])

/-- Whether a stored value is one the declared type holds. -/
def ValueType.holds : ValueType → SqlValue → Bool
  | _, .null => true
  | .bool, .bool _ | .string, .text _ | .number, .number _ | .timestamp, .time _ => true
  | .default, _ => true
  | _, _ => false

/-- A column keeps its declaration: its values have the declared type, and none is
NULL unless the entry says what a NULL stands for. -/
def Reading.keeps (reading : Reading) : Prop :=
  reading.entry.isColumn = true →
    reading.entry.valueType.holds (reading.row reading.entry.column) = true ∧
      (reading.entry.nullConvention = .unset →
        (reading.row reading.entry.column).isNull = false)

section Keeping

variable (engine : Engine) (db : Database)

/-- The columns of a macro's body keep their declarations on every element. -/
def elementsKeep (operands : List Node) (inner : List (List (Attributes → Prop)))
    (attributes : Attributes) : Prop :=
  match operands, inner with
  | [.var collection, .expression .lambda [_, .var name]], [_, [body, _]] =>
      ∀ reading rel, attributes collection = some reading → reading.entry.relation = some rel →
        ∀ row ∈ elements engine db rel reading.row, body (attributes.bind rel name row)
  | _, _ => True

/-- Every column the condition reads keeps its declaration, on every row it is read from. -/
def columnsKeep : Node → Attributes → Prop :=
  Operand.fold (fun _ _ => True)
    (fun reference attributes => ∀ reading, attributes reference = some reading → reading.keeps)
    (fun operator operands each inner attributes =>
      if (macroFold operator).isSome then elementsKeep engine db operands inner attributes
      else ∀ keep ∈ each, keep attributes)

end Keeping

/-! ## Comparisons -/

section Comparisons

variable {engine : Engine} {db : Database} {env : RowEnv}

/-- What a comparison of a column with a literal is lowered to. -/
def comparedColumn (op : CmpOp) (c : Column) (v : Literal) : Expr :=
  match v with
  | .null => .isNull (.column c) (op = .ne)
  | v => (definiteEquality op (.column c) (.lit (.constant v))).getD
      (.cmp op (.column c) (.lit (.constant v)))

variable {op : CmpOp} {v : Literal} {qualifier : String}

/-- A comparison of a column with a literal folds nothing and distributes over nothing. -/
theorem compare_eq_comparePlain [Double.Rounding] (now : Int) (op : CmpOp) (c : Column)
    (v : Literal) :
    compare now op (.expr (.column c)) (.constant v) =
      comparePlain op (.expr (.column c)) (.constant v) := rfl

/-- A comparison within one declared type keeps its shape. -/
theorem compare_column [Double.Rounding] {now : Int} {entry : Entry}
    (qualifier : String) (h : Comparable entry.valueType op v) :
    compare now op (.expr (.column (elementColumn qualifier entry))) (.constant v) =
      .ok (comparedColumn op (elementColumn qualifier entry) v) := by
  rw [compare_eq_comparePlain]
  cases v with
  | array items => exact h.elim
  | object fields => exact h.elim
  | null =>
      have hop : op.isOrdering = false := h
      simp [comparePlain, compareMixedTypes, Val.scalarKind, isListLiteral, nullComparison, hop, isNil, asExpr,
        comparedColumn, bind, Except.bind, pure, Except.pure]
  | _ =>
      have htype : entry.valueType = _ := h
      simp [comparePlain, compareMixedTypes, Val.scalarKind, Expr.scalarKind, Column.scalarKind,
        elementColumn, htype, isListLiteral, nullComparison, isNil, foldComparison, asExpr,
        assertNoMixedNullConventions, comparedColumn, bind, Except.bind, pure, Except.pure]

/-- Two values of one type compare alike in the database and in CEL. -/
theorem compare_eq_comparisonOutcome {x : SqlValue} {type : ValueType}
    (convention : NullConvention) (hv : Comparable type op v) (hliteral : isNullLiteral v = false)
    (hx : type.holds x = true) (hnull : x.isNull = false) :
    engine.compare op x (Val.constant v).bound =
      (comparisonOutcome op (storedOutcome convention x) (literalOutcome v)).asBoolean := by
  cases v with
  | null => cases hliteral
  | array items => exact hv.elim
  | object fields => exact hv.elim
  | bool b =>
      obtain rfl : type = .bool := hv
      cases x with
      | bool a => cases op <;> cases a <;> cases b <;> rfl
      | null => cases hnull
      | _ => cases hx
  | number d =>
      obtain rfl : type = .number := hv
      cases x with
      | number a => cases op <;> simp [Engine.compare, SqlValue.isNull, SqlValue.sameTypeKeys,
          comparisonOutcome, storedOutcome, literalOutcome, Val.bound, Outcome.asBoolean,
          ComparisonOperator.isOrdering, ComparisonOperator.test, orderingKeys, Value.toNumeric,
          Value.valuesEqual]
      | null => cases hnull
      | _ => cases hx
  | string s =>
      obtain rfl : type = .string := hv
      cases x with
      | text a => cases op <;> simp [Engine.compare, SqlValue.isNull, SqlValue.sameTypeKeys,
          comparisonOutcome, storedOutcome, literalOutcome, Val.bound, Outcome.asBoolean,
          ComparisonOperator.isOrdering, ComparisonOperator.test, orderingKeys,
          Value.valuesEqual, compareCodePoints_eq_zero_iff, String.toList_inj]
      | null => cases hnull
      | _ => cases hx

/-- What a comparison of an attribute's column with a literal is lowered to. -/
def loweredComparison (op : CmpOp) (qualifier : String) (entry : Entry) (v : Literal) : Expr :=
  if isNullLiteral v && entry.nullConvention = .omitted then
    omittedNullComparison op (.column (elementColumn qualifier entry))
  else comparedColumn op (elementColumn qualifier entry) v

theorem truth_omittedNullComparison (op : CmpOp) (x : Expr) :
    (omittedNullComparison op x).truth engine db env =
      if (x.eval engine db env).isNull then .unknown else .ofBool (op = .ne) := by
  simp [omittedNullComparison, Expr.truth_case_else]

/-- A comparison with null is lowered to what CEL answers. -/
theorem truth_compared_null {entry : Entry} (hop : op.isOrdering = false)
    (hunset : entry.nullConvention = .unset → (env qualifier entry.column).isNull = false) :
    (loweredComparison op qualifier entry .null).truth engine db env =
      (comparisonOutcome op (storedOutcome entry.nullConvention (env qualifier entry.column))
        (literalOutcome .null)).asBoolean := by
  rw [comparisonOutcome_null hop]
  by_cases homitted : entry.nullConvention = .omitted
  · have hlowered : loweredComparison op qualifier entry .null =
        omittedNullComparison op (.column (elementColumn qualifier entry)) := by
      simp [loweredComparison, isNullLiteral, homitted]
    have hconvention : entry.nullConvention ≠ .explicit := by simp [homitted]
    rw [hlowered, truth_omittedNullComparison, if_neg hconvention]
    rfl
  · have hlowered : loweredComparison op qualifier entry .null =
        .isNull (.column (elementColumn qualifier entry)) (op = .ne) := by
      simp [loweredComparison, homitted, comparedColumn]
    have heq : (true ^^ (op = .ne : Bool)) = (op = .eq : Bool) := by cases op <;> first | rfl | cases hop
    rw [hlowered, Expr.truth_isNull, Expr.eval_column]
    cases hnull : (env qualifier entry.column).isNull with
    | false => simp [elementColumn, hnull]
    | true =>
        have hexplicit : entry.nullConvention = .explicit := by
          cases hconvention : entry.nullConvention with
          | unset => simp [hunset hconvention] at hnull
          | omitted => exact absurd hconvention homitted
          | explicit => rfl
        simp only [elementColumn, hnull, hexplicit, heq, if_true]

/-- A NULL against a literal that is not null: unequal where it is a null, and an error
where it is missing or ordered. -/
theorem comparisonOutcome_stored_null {type : ValueType}
    (convention : NullConvention) (hv : Comparable type op v)
    (hliteral : isNullLiteral v = false) :
    (comparisonOutcome op (storedOutcome convention .null) (literalOutcome v)).asBoolean =
      if convention = .explicit ∧ op.isOrdering = false then .ofBool (op = .ne) else .unknown := by
  cases v with
  | null => cases hliteral
  | array items => exact hv.elim
  | object fields => exact hv.elim
  | _ => cases convention <;> cases op <;> rfl

/-- The definite equality of an explicit-null column with a literal. -/
theorem definiteEquality_literal (op : CmpOp) (c : Column) (v : Val) :
    definiteEquality op (.column c) (.lit v) =
      if c.explicitNull = true ∧ op.isOrdering = false then
        let equality := Expr.and [.isNull (.column c) true, .cmp .eq (.column c) (.lit v)]
        some (if op = .ne then .not equality else equality)
      else none := by
  cases hnull : c.explicitNull <;> cases hop : op.isOrdering <;>
    simp [definiteEquality, explicitNullColumn, isColumn, hnull, hop]

/-- A comparison with a literal of the declared type is lowered to what CEL answers. -/
theorem truth_compared_literal {entry : Entry}
    (hv : Comparable entry.valueType op v) (hliteral : isNullLiteral v = false)
    (hholds : entry.valueType.holds (env qualifier entry.column) = true) :
    (loweredComparison op qualifier entry v).truth engine db env =
      (comparisonOutcome op (storedOutcome entry.nullConvention (env qualifier entry.column))
        (literalOutcome v)).asBoolean := by
  have hlowered : loweredComparison op qualifier entry v =
      (definiteEquality op (.column (elementColumn qualifier entry)) (.lit (.constant v))).getD
        (.cmp op (.column (elementColumn qualifier entry)) (.lit (.constant v))) := by
    cases v with
    | null => cases hliteral
    | _ => rfl
  have hcompare : ∀ op', (env qualifier entry.column).isNull = false →
      engine.compare op' (env qualifier entry.column) (Val.constant v).bound =
        (comparisonOutcome op' (storedOutcome entry.nullConvention (env qualifier entry.column))
          (literalOutcome v)).asBoolean := by
    intro op' hnull
    apply compare_eq_comparisonOutcome _ _ hliteral hholds hnull
    cases v with
    | null => cases hliteral
    | _ => exact hv
  rw [hlowered, definiteEquality_literal]
  cases hnull : (env qualifier entry.column).isNull with
  | true =>
      have hx : env qualifier entry.column = .null := by
        cases hx : env qualifier entry.column <;> simp [hx, SqlValue.isNull] at hnull ⊢
      rw [hx, comparisonOutcome_stored_null _ hv hliteral]
      by_cases hdefinite : entry.nullConvention = .explicit ∧ op.isOrdering = false
      · rw [if_pos hdefinite, if_pos (by simpa [elementColumn] using hdefinite)]
        cases op with
        | eq | ne => simp [elementColumn, hx, SqlValue.isNull]
        | lt | le | gt | ge => cases hdefinite.2
      · rw [if_neg hdefinite, if_neg (by simpa [elementColumn] using hdefinite)]
        simp [elementColumn, hx]
  | false =>
      by_cases hdefinite : entry.nullConvention = .explicit ∧ op.isOrdering = false
      · rw [if_pos (by simpa [elementColumn] using hdefinite)]
        cases op with
        | eq => simp [elementColumn, hnull, hcompare .eq hnull]
        | ne => simp [elementColumn, hnull, hcompare .eq hnull, comparisonOutcome_ne]
        | lt | le | gt | ge => cases hdefinite.2
      · rw [if_neg (by simpa [elementColumn] using hdefinite)]
        simpa [elementColumn] using hcompare op hnull

/-- A comparison of a column that keeps its declaration is lowered to what CEL answers. -/
theorem truth_loweredComparison {entry : Entry}
    (hcolumn : entry.isColumn = true) (hv : Comparable entry.valueType op v)
    (hkeeps : ({ entry := entry.unqualified, row := env qualifier } : Reading).keeps) :
    (loweredComparison op qualifier entry v).truth engine db env =
      (comparisonOutcome op
        ({ entry := entry.unqualified, row := env qualifier } : Reading).outcome
        (literalOutcome v)).asBoolean := by
  obtain ⟨hholds, hunset⟩ := hkeeps hcolumn
  have houtcome : ({ entry := entry.unqualified, row := env qualifier } : Reading).outcome =
      storedOutcome entry.nullConvention (env qualifier entry.column) := if_pos hcolumn
  rw [houtcome]
  cases hliteral : isNullLiteral v with
  | false => exact truth_compared_literal hv hliteral hholds
  | true =>
      obtain rfl : v = .null := by
        cases v <;> first | rfl | cases hliteral
      exact truth_compared_null hv hunset

end Comparisons

/-! ## Runs of the translator -/

section Runs

variable {m : Mapper} {reference : String} {entry : Entry} {s : Nat}

variable {op : CmpOp} {v : Literal}

theorem resolveVariable_column (hentry : m.resolve reference = some entry)
    (hcolumn : entry.isColumn = true) :
    resolveVariable reference m =
      pure (.expr (.column (elementColumn entry.qualifier entry))) := by
  obtain ⟨hrelation, hscalar⟩ := Entry.isColumn_iff.mp hcolumn
  simp [resolveVariable, hentry, hrelation, hscalar]

theorem omittedNullOperand_literal
    (hentry : m.resolve reference = some entry) (hv : Comparable entry.valueType op v) :
    omittedNullOperand op (.var reference) (.value v) m =
      (isNullLiteral v && entry.nullConvention = .omitted) := by
  cases v with
  | null =>
      have hop : op.isOrdering = false := hv
      simp [omittedNullOperand, hentry, hop, isNullLiteral]
  | _ => simp [omittedNullOperand, isNullLiteral]

variable [Double.Rounding] {opts : Options} {now : Int} {fuel : Nat}

/-- A column is lowered to itself. -/
theorem yields_value_column (hentry : m.resolve reference = some entry)
    (hcolumn : entry.isColumn = true) :
    Yields ((builder opts now fuel).value (.var reference) m) s fun v s' =>
      v = .expr (.column (elementColumn entry.qualifier entry)) ∧ s' = s := by
  cases fuel with
  | zero => exact Yields.throw _
  | succ fuel =>
      show Yields (resolveVariable reference m) s _
      rw [resolveVariable_column hentry hcolumn]
      exact Yields.pure ⟨rfl, rfl⟩

/-- A literal is lowered to itself. -/
theorem yields_value_literal (v : Literal) :
    Yields ((builder opts now fuel).value (.value v) m) s fun lowered s' =>
      lowered = .constant v ∧ s' = s := by
  cases fuel with
  | zero => exact Yields.throw _
  | succ fuel => exact Yields.pure ⟨rfl, rfl⟩

/-- A comparison of a column with a literal, the column first. -/
theorem yields_columnFirstComparison (negated : Bool)
    (hentry : m.resolve reference = some entry) (hcolumn : entry.isColumn = true)
    (hv : Comparable entry.valueType op v) :
    Yields ((builder opts now fuel).columnFirstComparison op (.var reference) (.value v) m negated)
      s fun e s' => e = negate (loweredComparison op entry.qualifier entry v) negated ∧ s' = s := by
  have htemporal : Builder.bareTemporalAgainstTimestamp op (.var reference) (.value v) m =
      pure none := rfl
  rw [Builder.columnFirstComparison, htemporal, pure_bind]
  dsimp only
  rw [omittedNullOperand_literal hentry hv]
  cases homitted : isNullLiteral v && entry.nullConvention = .omitted with
  | true =>
      refine (yields_value_column hentry hcolumn).bind fun l s₁ hl => ?_
      obtain ⟨rfl, rfl⟩ := hl
      exact Yields.pure ⟨by rw [loweredComparison, if_pos homitted], rfl⟩
  | false =>
      refine (yields_value_column hentry hcolumn).bind fun l s₁ hl => ?_
      obtain ⟨rfl, rfl⟩ := hl
      refine (yields_value_literal v).bind fun r s₂ hr => ?_
      obtain ⟨rfl, rfl⟩ := hr
      rw [compare_column _ hv]
      exact Yields.pure ⟨by rw [loweredComparison, if_neg (by simp [homitted])], rfl⟩

/-- A comparison of a column with a literal, in either order. -/
theorem yields_comparisonPredicate (negated : Bool)
    (hentry : m.resolve reference = some entry) (hcolumn : entry.isColumn = true)
    (hv : Comparable entry.valueType op v) :
    Yields ((builder opts now fuel).comparisonPredicate op (.var reference) (.value v) m negated) s
      fun e s' => e = negate (loweredComparison op entry.qualifier entry v) negated ∧ s' = s :=
  yields_columnFirstComparison negated hentry hcolumn hv

/-- The literal first: the mirrored comparison. -/
theorem yields_comparisonPredicate_first (negated : Bool)
    (hentry : m.resolve reference = some entry) (hcolumn : entry.isColumn = true)
    (hv : Comparable entry.valueType op v) :
    Yields ((builder opts now fuel).comparisonPredicate op (.value v) (.var reference) m negated) s
      fun e s' =>
        e = negate (loweredComparison op.mirrored entry.qualifier entry v) negated ∧ s' = s :=
  yields_columnFirstComparison negated hentry hcolumn (comparable_mirrored hv)

/-- A comparison of two leaves is lowered as it stands. -/
theorem predicateStep_comparison {b : Builder} {operator : PlanOperator}
    {left right : Node} (m : Mapper) (negated : Bool) (hop : comparisonOps operator = some op)
    (hleft : left.isExpression = false) (hright : right.isExpression = false) :
    b.predicateStep (.expression operator [left, right]) m negated =
      b.comparisonPredicate op left right m negated := by
  have hlift : liftListTernary (.expression operator [left, right]) = none := by
    cases left with
    | expression => cases hleft
    | _ =>
        cases right with
        | expression => cases hright
        | _ => rfl
  have hbinary : b.binaryPredicate operator [left, right] m negated =
      b.comparisonPredicate op left right m negated := by
    simp only [Builder.binaryPredicate, hlift, emptyListComparison_leaves operator hleft hright, hop]
  cases operator with
  | eq | ne | lt | le | gt | ge => exact hbinary
  | _ => cases hop

/-- A macro over a reference is lowered over what it is mapped to. -/
theorem predicateStep_overRelation {b : Builder} {operator : PlanOperator}
    {combine : List Truth → Truth} {collection : String} {lambda : Node} {m : Mapper}
    {negated : Bool} (hfold : macroFold operator = some combine) :
    b.predicateStep (.expression operator [.var collection, lambda]) m negated =
      b.relationMacro operator collection lambda m negated := by
  cases operator with
  | «exists» | existsOne | all => rfl
  | _ => cases hfold

end Runs

/-! ## Agreement -/

section Agreement

variable {engine : Engine} {db : Database} {m : Mapper}

/-- Wherever the columns keep their declarations, the expression is TRUE, FALSE or NULL
as CEL evaluates the condition, or its negation, to true, false or an error. -/
def Agrees (engine : Engine) (db : Database) (m : Mapper) (n : Node) (negated : Bool) (e : Expr) :
    Prop :=
  ∀ env, columnsKeep engine db n (Attributes.of m env) →
    e.truth engine db env =
      (policyTruth engine db n (Attributes.of m env)).polarised negated

variable {negated : Bool} {parts : List Expr}

theorem columnsKeep_expression {operator : PlanOperator} {operands : List Node}
    {attributes : Attributes} (hfold : macroFold operator = none) :
    columnsKeep engine db (.expression operator operands) attributes ↔
      ∀ o ∈ operands, columnsKeep engine db o attributes := by
  simp [columnsKeep, Operand.fold_expression, hfold]

theorem columnsKeep_overRelation {operator : PlanOperator} {combine : List Truth → Truth}
    {collection name : String} {reading : Reading} {rel : Relation} {body : Node}
    {attributes : Attributes} (hfold : macroFold operator = some combine)
    (hreading : attributes collection = some reading)
    (hrel : reading.entry.relation = some rel)
    (h : columnsKeep engine db
      (.expression operator [.var collection, .expression .lambda [body, .var name]]) attributes) :
    ∀ row ∈ elements engine db rel reading.row,
      columnsKeep engine db body (attributes.bind rel name row) := by
  rw [columnsKeep, Operand.fold_expression, hfold] at h
  exact h reading rel hreading hrel

theorem agrees_const (b negated : Bool) :
    Agrees engine db m (.value (.bool b)) negated (.boolConst (b ^^ negated)) := by
  intro env _
  cases b <;> cases negated <;> rfl

/-- A bare column is a boolean or, as a NULL or a value of another type, an error. -/
theorem agrees_column {reference : String} {entry : Entry} (negated : Bool)
    (hentry : m.resolve reference = some entry) (hcolumn : entry.isColumn = true) :
    Agrees engine db m (.var reference) negated
      (negate (.column (elementColumn entry.qualifier entry)) negated) := by
  intro env _
  have houtcome : policyTruth engine db (.var reference) (Attributes.of m env) =
      (storedOutcome entry.nullConvention (env entry.qualifier entry.column)).asBoolean := by
    have hunqualified : entry.unqualified.isColumn = true := hcolumn
    simp only [policyTruth, evaluate, Operand.fold_var, Attributes.of, hentry, Option.map_some,
      Option.elim_some, Reading.outcome, hunqualified, if_true]
    rfl
  rw [truth_negate, houtcome]
  congr 1
  rw [Expr.truth, Expr.eval_column]
  show (env entry.qualifier entry.column).asTruth = _
  cases env entry.qualifier entry.column with
  | null => cases entry.nullConvention <;> rfl
  | _ => rfl

/-- A comparison of a column with a literal, in either order. -/
theorem agrees_compared {operator : PlanOperator} {op : CmpOp} {reference : String}
    {entry : Entry} {v : Literal} (negated : Bool) (hop : comparisonOps operator = some op)
    (hentry : m.resolve reference = some entry) (hcolumn : entry.isColumn = true)
    (hv : Comparable entry.valueType op v) :
    Agrees engine db m (.expression operator [.var reference, .value v]) negated
        (negate (loweredComparison op entry.qualifier entry v) negated) ∧
      Agrees engine db m (.expression operator [.value v, .var reference]) negated
        (negate (loweredComparison op.mirrored entry.qualifier entry v) negated) := by
  have hfold : macroFold operator = none := by
    cases operator <;> first | rfl | cases hop
  have hreading (env) : Attributes.of m env reference =
      some { entry := entry.unqualified, row := env entry.qualifier } := by
    simp [Attributes.of, hentry]
  constructor
  · intro env hkeep
    have hkeeps := (columnsKeep_expression hfold).mp hkeep (.var reference) (by simp) _ (hreading env)
    rw [truth_negate, truth_loweredComparison hcolumn hv hkeeps, policyTruth,
      evaluate_comparison _ _ hop]
    simp [evaluate, hreading]
  · intro env hkeep
    have hkeeps := (columnsKeep_expression hfold).mp hkeep (.var reference) (by simp) _ (hreading env)
    rw [truth_negate, truth_loweredComparison hcolumn (comparable_mirrored hv) hkeeps,
      comparisonOutcome_mirrored, policyTruth, evaluate_comparison _ _ hop]
    simp [evaluate, hreading]

theorem agrees_not {operand : Node} {e : Expr} (h : Agrees engine db m operand (!negated) e) :
    Agrees engine db m (.expression .not [operand]) negated e := by
  intro env hkeep
  rw [h env ((columnsKeep_expression rfl).mp hkeep operand (by simp)), policyTruth_not,
    Truth.polarised_not]

/-- Both branches are guarded, so an erring condition is an error under both polarities. -/
theorem agrees_ternary {cond whenTrue whenFalse : Node} {condExpr trueExpr falseExpr : Expr}
    (hcond : Agrees engine db m cond false condExpr)
    (htrue : Agrees engine db m whenTrue negated trueExpr)
    (hfalse : Agrees engine db m whenFalse negated falseExpr) :
    Agrees engine db m (.expression .if [cond, whenTrue, whenFalse]) negated
      (guardedCase condExpr trueExpr falseExpr) := by
  intro env hkeep
  have hkeep := (columnsKeep_expression rfl).mp hkeep
  rw [guardedCase, Expr.truth_case_pair_none, Expr.truth_not, hcond env (hkeep cond (by simp)),
    htrue env (hkeep whenTrue (by simp)), hfalse env (hkeep whenFalse (by simp)),
    policyTruth_ternary]
  cases policyTruth engine db cond (Attributes.of m env) <;> simp

/-- The truths of lowered operands are the operands' truths under the polarity. -/
theorem map_truth_of_agrees {operands : List Node}
    {env : RowEnv} (h : List.Forall₂ (fun o e => Agrees engine db m o negated e) operands parts)
    (hkeep : ∀ o ∈ operands, columnsKeep engine db o (Attributes.of m env)) :
    parts.map (fun x => x.truth engine db env) =
      operands.map fun o =>
        (policyTruth engine db o (Attributes.of m env)).polarised negated := by
  induction h with
  | nil => rfl
  | cons ho _ ih =>
      obtain ⟨hkeep, hkeeps⟩ := List.forall_mem_cons.mp hkeep
      rw [List.map_cons, List.map_cons, ho env hkeep, ih hkeeps]

/-- De Morgan: under a negation, the other junction of the negated operands. -/
theorem agrees_and {operands : List Node}
    (h : List.Forall₂ (fun o e => Agrees engine db m o negated e) operands parts) :
    Agrees engine db m (.expression .and operands) negated (.combine (true ^^ negated) parts) := by
  intro env hkeep
  rw [Expr.truth_combine, map_truth_of_agrees h ((columnsKeep_expression rfl).mp hkeep),
    policyTruth_and, Truth.polarised_all]
  cases negated <;> simp [Function.comp_def]

theorem agrees_or {operands : List Node}
    (h : List.Forall₂ (fun o e => Agrees engine db m o negated e) operands parts) :
    Agrees engine db m (.expression .or operands) negated (.combine (false ^^ negated) parts) := by
  intro env hkeep
  rw [Expr.truth_combine, map_truth_of_agrees h ((columnsKeep_expression rfl).mp hkeep),
    policyTruth_or, Truth.polarised_any]
  cases negated <;> simp [Function.comp_def]

/-- A macro's CASE over the elements, given that its body agrees on each of them. -/
theorem agrees_overRelation {operator : PlanOperator} {combine : List Truth → Truth}
    {collection name aliasName : String} {entry : Entry} {rel : Relation} {body : Node}
    {bodyExpr folded : Expr} (hfold : macroFold operator = some combine)
    (hentry : m.resolve collection = some entry) (hrel : entry.relation = some rel)
    (hfresh : ∀ reference entry, m.resolve reference = some entry → entry.qualifier ≠ aliasName)
    (hbody : Agrees engine db (scopedMapper m rel name aliasName) body false bodyExpr)
    (hfolded : ∀ env, folded.truth engine db env =
      combine ((directScope rel aliasName entry.qualifier).truths engine db bodyExpr env)) :
    Agrees engine db m
      (.expression operator [.var collection, .expression .lambda [body, .var name]]) negated
      (negate folded negated) := by
  intro env hkeep
  have hreading : Attributes.of m env collection =
      some { entry := entry.unqualified, row := env entry.qualifier } := by
    simp [Attributes.of, hentry]
  have hkeeps := columnsKeep_overRelation hfold hreading hrel hkeep
  rw [truth_negate, hfolded, truths_directScope (hfresh _ _ hentry),
    policyTruth_overRelation body hfold hreading hrel]
  congr 2
  apply List.map_congr_left
  intro row hrow
  have hagrees := hbody (env.bind aliasName row)
  rw [← Attributes.bind_of hfresh] at hagrees
  exact hagrees (hkeeps row hrow)

end Agreement

/-! ## The translation -/

section Translation

variable {rel : Relation} {negated : Bool}

theorem returns_lambdaParts (body : Node) (name : String) (operator : PlanOperator) :
    (lambdaParts (.expression .lambda [body, .var name]) operator).Returns
      fun parts => parts = (body, name) := by
  rw [lambdaParts]
  split
  · exact Except.returns_throw _
  · exact Except.returns_ok.mpr rfl

theorem returns_requireRelation {m : Mapper} {collection : String} {entry : Entry}
    (hentry : m.resolve collection = some entry)
    (hrel : entry.relation = some rel) :
    (requireRelation m collection).Returns fun target => target = (rel, entry.qualifier) := by
  simp [requireRelation, hentry, hrel]

/-- Over a direct relation, a macro is its CASE over the relation's scope. -/
theorem triStateExists_direct (h : rel.via = []) (aliasName parent : String)
    (body : Expr) (sem : MacroSemantics) (negated : Bool) :
    triStateExists rel aliasName parent body sem negated =
      pure (negate (triState (directScope rel aliasName parent) body sem) negated) := by
  simp [triStateExists, relationScope_direct h, requireHops_direct h]

/-- Over a direct relation, each macro is a CASE that folds the rows of the scope. -/
theorem macroOverScope_direct {engine : Engine} {db : Database} {operator : PlanOperator}
    {combine : List Truth → Truth} (hfold : macroFold operator = some combine)
    (hdirect : rel.via = []) (aliasName parent : String) (body : Expr) (negated : Bool) :
    ∃ folded,
      Builder.macroOverScope operator (directScope rel aliasName parent) rel aliasName parent body
          negated = pure (negate folded negated) ∧
        ∀ env, folded.truth engine db env =
          combine ((directScope rel aliasName parent).truths engine db body env) := by
  cases operator with
  | «exists» =>
      obtain rfl := Option.some.inj hfold
      refine ⟨_, triStateExists_direct hdirect aliasName parent body existsSemantics negated, ?_⟩
      intro env
      rw [truth_triState, fold_existsSemantics]
  | all =>
      obtain rfl := Option.some.inj hfold
      refine ⟨_, triStateExists_direct hdirect aliasName parent body allSemantics negated, ?_⟩
      intro env
      rw [truth_triState, fold_allSemantics]
  | existsOne =>
      obtain rfl := Option.some.inj hfold
      refine ⟨exactlyOne (directScope rel aliasName parent) body, ?_, ?_⟩
      · simp [Builder.macroOverScope, requireHops_direct hdirect]
      · exact fun env => truth_exactlyOne _ _
  | _ => cases hfold

variable {engine : Engine} {db : Database}

/-- A macro over a direct relation, whose body is lowered under the next alias. -/
theorem yields_relationMacro {b : Builder} {operator : PlanOperator}
    {combine : List Truth → Truth} {collection name : String} {m : Mapper} {entry : Entry} {body : Node} {s : Nat}
    (hfold : macroFold operator = some combine) (hentry : m.resolve collection = some entry)
    (hrel : entry.relation = some rel) (hdirect : rel.via = []) (halias : m.avoidsAliases s)
    (hbody : Yields (b.predicate body (scopedMapper m rel name (aliasOf (s + 1))) false) (s + 1)
      fun e s' => s + 1 ≤ s' ∧
        Agrees engine db (scopedMapper m rel name (aliasOf (s + 1))) body false e) :
    Yields (b.relationMacro operator collection (.expression .lambda [body, .var name]) m negated) s
      fun e s' => s ≤ s' ∧ Agrees engine db m
        (.expression operator [.var collection, .expression .lambda [body, .var name]]) negated
        e := by
  have hfresh : ∀ reference entry, m.resolve reference = some entry →
      entry.qualifier ≠ aliasOf (s + 1) :=
    fun reference entry h => halias reference entry h (s + 1) s.lt_succ_self
  rw [Builder.relationMacro]
  refine (Yields.lift (returns_lambdaParts body name operator)).bind fun parts s₁ hparts => ?_
  obtain ⟨rfl, rfl⟩ := hparts
  refine (Yields.lift (returns_requireRelation hentry hrel)).bind fun target s₂ htarget => ?_
  obtain ⟨rfl, rfl⟩ := htarget
  refine (yields_newAlias s₂).bind fun aliasName s₃ hnew => ?_
  obtain ⟨rfl, rfl⟩ := hnew
  refine hbody.bind fun bodyExpr s₄ hbodyExpr => ?_
  obtain ⟨hs, hagrees⟩ := hbodyExpr
  rw [relationScope_direct hdirect, pure_bind]
  obtain ⟨folded, hfolded, htruth⟩ := macroOverScope_direct hfold hdirect (aliasOf (s₂ + 1))
    entry.qualifier bodyExpr negated
  rw [hfolded]
  exact Yields.pure ⟨by omega, agrees_overRelation hfold hentry hrel hfresh hagrees htruth⟩

variable [Double.Rounding] {opts : Options} {now : Int}

theorem predicateStep_unlifted {b : Builder} {operator : PlanOperator} {op : CmpOp} {l r : Node}
    {m : Mapper} (hop : comparisonOps operator = some op) (hl : Unlifted l)
    (hr : Unlifted r) :
    b.predicateStep (.expression operator [l, r]) m negated =
      b.comparisonPredicate op l r m negated := by
  have hbinary : b.binaryPredicate operator [l, r] m negated =
      b.comparisonPredicate op l r m negated := by
    simp only [Builder.binaryPredicate, hl.liftListTernary_none hr,
      hl.emptyListComparison_none hr, hop]
  cases operator with
  | eq | ne | lt | le | gt | ge => exact hbinary
  | _ => cases hop

@[simp] theorem builder_now (fuel : Nat) : (builder opts now fuel).now = now := by
  cases fuel <;> rfl

/-- What every step of the translator yields, every translation does. -/
theorem yields_of_step {n : Node} {m : Mapper} {s : Nat} {Q : Expr → Nat → Prop}
    (h : ∀ fuel, Yields ((builder opts now fuel).predicateStep n m negated) s Q) (fuel : Nat) :
    Yields ((builder opts now fuel).predicate n m negated) s Q := by
  cases fuel with
  | zero => exact Yields.throw _
  | succ fuel => exact h fuel

/-- The operands of a junction are lowered one after the other. -/
theorem yields_junction {operands : List Node} {m : Mapper} {s : Nat}
    (fuel : Nat) (halias : m.avoidsAliases s)
    (ih : ∀ o ∈ operands, ∀ s, m.avoidsAliases s →
      Yields ((builder opts now fuel).predicate o m negated) s fun e s' =>
        s ≤ s' ∧ Agrees engine db m o negated e) :
    Yields (operands.mapM fun o => (builder opts now fuel).predicate o m negated) s
      fun parts s' =>
        List.Forall₂ (fun o e => Agrees engine db m o negated e) operands parts ∧ s ≤ s' := by
  apply Yields.mapM le_rfl
  intro o ho s₁ hs
  exact (ih o ho s₁ (halias.mono hs)).imp fun e s₂ h => ⟨h.2, hs.trans h.1⟩

/-- Every lowering of a condition of the skeleton agrees with it, and only counts its
aliases upwards. -/
theorem yields_predicate {m : Mapper} {n : Node} (h : Skeleton m n) (fuel : Nat) (negated : Bool)
    {s : Nat} (halias : m.avoidsAliases s) :
    Yields ((builder opts now fuel).predicate n m negated) s fun e s' =>
      s ≤ s' ∧ Agrees engine db m n negated e := by
  induction h generalizing fuel negated s with
  | const b => exact yields_of_step (fun _ => Yields.pure ⟨le_rfl, agrees_const b negated⟩) fuel
  | column hentry hcolumn _ =>
      refine yields_of_step (fun fuel => ?_) fuel
      rw [Builder.predicateStep, resolveVariable_column hentry hcolumn, pure_bind]
      exact Yields.pure ⟨le_rfl, agrees_column negated hentry hcolumn⟩
  | compared hop hentry hcolumn hv =>
      refine yields_of_step (fun fuel => ?_) fuel
      rw [predicateStep_comparison _ negated hop rfl rfl]
      refine (yields_comparisonPredicate negated hentry hcolumn hv).imp fun e s' he => ?_
      obtain ⟨rfl, rfl⟩ := he
      exact ⟨le_rfl, (agrees_compared negated hop hentry hcolumn hv).1⟩
  | comparedFirst hop hentry hcolumn hv =>
      refine yields_of_step (fun fuel => ?_) fuel
      rw [predicateStep_comparison _ negated hop rfl rfl]
      refine (yields_comparisonPredicate_first negated hentry hcolumn hv).imp fun e s' he => ?_
      obtain ⟨rfl, rfl⟩ := he
      exact ⟨le_rfl, (agrees_compared negated hop hentry hcolumn hv).2⟩
  | and _ ih | or _ ih =>
      refine yields_of_step (fun fuel => ?_) fuel
      rw [Builder.predicateStep]
      split
      · exact yields_errorf _ _
      · refine (yields_junction fuel halias fun o ho s hs => ih o ho fuel negated hs).bind
          fun parts s₁ hparts => ?_
        refine Yields.pure ⟨hparts.2, ?_⟩
        first | exact agrees_and hparts.1 | exact agrees_or hparts.1
  | not h ih =>
      refine yields_of_step (fun fuel => ?_) fuel
      exact (ih fuel (!negated) halias).imp fun e s' he => ⟨he.1, agrees_not he.2⟩
  | ternary hcond htrue hfalse ihcond ihtrue ihfalse =>
      refine yields_of_step (fun fuel => ?_) fuel
      refine (ihcond fuel false halias).bind fun cond s₁ hcond => ?_
      refine (ihtrue fuel negated (halias.mono hcond.1)).bind fun whenTrue s₂ htrue => ?_
      have hs := hcond.1.trans htrue.1
      refine (ihfalse fuel negated (halias.mono hs)).bind fun whenFalse s₃ hfalse => ?_
      exact Yields.pure ⟨hs.trans hfalse.1, agrees_ternary hcond.2 htrue.2 hfalse.2⟩
  | overRelation hfold hentry hrel hdirect hbody ih =>
      refine yields_of_step (fun fuel => ?_) fuel
      rw [predicateStep_overRelation hfold]
      apply yields_relationMacro hfold hentry hrel hdirect halias
      apply ih (aliasOf _) fuel false
      exact avoidsAliases_scopedMapper (halias.mono (Nat.le_succ _)) le_rfl

/-- Over the mapper of a translation, an expression the translator returns for a
condition of the skeleton is TRUE, FALSE or NULL on a row as CEL evaluates the
condition, or under a negation its negation, to true, false or an error there. -/
theorem predicate_agrees_with_policy {parent : Mapper} {table : String} {n : Node}
    {negated : Bool} {fuel s s' : Nat} {e : Expr} {env : RowEnv}
    (htable : startsWithText table aliasPrefix = false)
    (hskeleton : Skeleton (rootMapper (guardedMapper parent) table) n)
    (hkeep : columnsKeep engine db n
      (Attributes.of (rootMapper (guardedMapper parent) table) env))
    (hrun : (builder opts now fuel).predicate n (rootMapper (guardedMapper parent) table) negated s =
      .ok (e, s')) :
    e.truth engine db env =
      (policyTruth engine db n
        (Attributes.of (rootMapper (guardedMapper parent) table) env)).polarised negated :=
  ((yields_predicate hskeleton fuel negated (avoidsAliases_rootMapper htable s)).of_run hrun).2
    env hkeep

end Translation

/-! A document without a tag named "draft", one of its two tags being unnamed. -/

def nameEntry : Entry where
  relation := none
  scalarRelation := none
  column := "name"
  qualifier := ""
  valueType := .string
  nullConvention := .explicit

def tagsRelation : Relation where
  field := none
  fields := [("name", nameEntry)]
  table := "tags"
  sourceColumn := "id"
  targetColumn := "document_id"
  via := []
  subqueryFilter := []

def tagsMapper : Mapper where
  resolve reference :=
    if reference = "R.attr.tags" then
      some { nameEntry with relation := some tagsRelation, column := "", valueType := .default }
    else none

def taggedRow (name : SqlValue) : Row := fun column =>
  if column = "name" then name else .number 1

def tagsDatabase : Database := fun table =>
  if table = "tags" then [taggedRow .null, taggedRow (.text "final")] else []

def noDraftTag : Node :=
  .expression .not [.expression .exists [.var "R.attr.tags",
    .expression .lambda [.expression .eq [.var "t.name", .value (.string "draft")], .var "t"]]]

def tagsOptions : Options where
  rootTable := "documents"
  nullRepresentation := .explicit

def noDraftRun : Except Failure (Expr × Nat) :=
  (builder tagsOptions 0 4).predicate noDraftTag
    (rootMapper (guardedMapper tagsMapper) "documents") false 0

def noDraftExpr : Expr :=
  match noDraftRun with
  | .ok (e, _) => e
  | .error _ => .null

theorem predicate_agrees_with_policy_tags :
    noDraftExpr.truth .bare tagsDatabase (fun _ => taggedRow .null) =
      (policyTruth .bare tagsDatabase noDraftTag
        (Attributes.of (rootMapper (guardedMapper tagsMapper) "documents")
          fun _ => taggedRow .null)).polarised false := by
  refine @predicate_agrees_with_policy .bare tagsDatabase _ tagsOptions 0 tagsMapper "documents"
    noDraftTag false 4 0 1 noDraftExpr (fun _ => taggedRow .null) (by decide) ?_ ?_ rfl
  · exact .not (.overRelation rfl rfl rfl rfl fun _ => .compared rfl rfl rfl rfl)
  · apply (columnsKeep_expression rfl).mpr
    intro o ho
    obtain rfl := List.mem_singleton.mp ho
    intro reading rel hreading hrel row hrow
    obtain rfl := Option.some.inj hreading
    obtain rfl := Option.some.inj hrel
    apply (columnsKeep_expression rfl).mpr
    intro o ho
    obtain rfl | rfl := List.mem_pair.mp ho
    · intro name hname hcolumn
      obtain rfl := Option.some.inj hname
      have hrows := List.mem_of_mem_filter hrow
      obtain rfl | rfl := List.mem_pair.mp hrows
      · exact ⟨rfl, nofun⟩
      · exact ⟨rfl, nofun⟩
    · exact trivial

end QueryPlanAdapters.Go
