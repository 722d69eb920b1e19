import QueryPlanAdapters.SpringData.Subqueries

/-!
# Spring Data: leaves

A bare attribute and a comparison with a literal, against what they evaluate to. A NULL
column, a type mismatch and a null literal each have a rule of their own; any other
comparison is left to the database, which compares values of one type as CEL does.
-/

namespace QueryPlanAdapters.SpringData

open Sql

variable {schema : Schema} {engine : Engine} {store : Store schema} {env : store.Env}

/-! ## Scopes and rows -/

/-- The rows of an environment are those of a scope and of the scopes around it. -/
def InScope (store : Store schema) : Scope schema → store.Env → Prop
  | .root entity _, env => ∃ row, env = [row] ∧ store.entity row = entity
  | .lambda entity _ _ outer, env =>
      ∃ before row, env = before ++ [row] ∧ store.entity row = entity ∧ InScope store outer before

/-- Whether an environment holds a row of an entity at a level. -/
def RowAt (store : Store schema) (env : store.Env) (level : Nat) (entity : schema.Entity) : Prop :=
  ∃ row, env[level]? = some row ∧ store.entity row = entity

theorem RowAt.append {level : Nat} {entity : schema.Entity} (h : RowAt store env level entity)
    (more : store.Env) : RowAt store (env ++ more) level entity := by
  obtain ⟨row, hrow, hentity⟩ := h
  obtain ⟨hlevel, -⟩ := List.getElem?_eq_some_iff.mp hrow
  exact ⟨row, by rw [List.getElem?_append_left hlevel, hrow], hentity⟩

theorem InScope.length {scope : Scope schema} (h : InScope store scope env) :
    env.length = scope.level + 1 := by
  induction scope generalizing env with
  | root entity mapper =>
      obtain ⟨row, rfl, -⟩ := h
      rfl
  | lambda entity relation lambdaVar outer ih =>
      obtain ⟨before, row, rfl, -, houter⟩ := h
      rw [List.length_append, ih houter]
      rfl

theorem InScope.current {scope : Scope schema} (h : InScope store scope env) :
    RowAt store env scope.level scope.entity := by
  cases scope with
  | root entity mapper =>
      obtain ⟨row, rfl, hentity⟩ := h
      exact ⟨row, rfl, hentity⟩
  | lambda entity relation lambdaVar outer =>
      obtain ⟨before, row, rfl, hentity, houter⟩ := h
      refine ⟨row, ?_, hentity⟩
      rw [Scope.level, ← houter.length]
      exact List.getElem?_concat_length

/-- What a resolved variable promises of an environment: a column of its type, or the row
that a chain starts from. -/
def Resolution.Sound (store : Store schema) (env : store.Env) : Resolution schema → Prop
  | .scalar path _ =>
      path.level < env.length ∧ path.javaType.holds (store.value path env) = true
  | .scalarBehind ref _ | .relation ref => RowAt store env ref.owner.level ref.owner.entity

variable {resolution : Resolution schema}

theorem Resolution.Sound.append (h : resolution.Sound store env)
    (more : store.Env) : resolution.Sound store (env ++ more) := by
  cases resolution with
  | scalar path mapping =>
      obtain ⟨hlevel, hholds⟩ := h
      refine ⟨by rw [List.length_append]; omega, ?_⟩
      rw [Store.value, List.getElem?_append_left hlevel]
      exact hholds
  | scalarBehind ref field => exact RowAt.append h more
  | relation ref => exact RowAt.append h more

theorem traversePath_sound {scope : Scope schema} (hscope : InScope store scope env)
    {dotted : Option String} {mapping : AttributeMapping}
    (h : (scope.traversePath dotted >>= fun path => .ok (.scalar path mapping)) = .ok resolution) :
    resolution.Sound store env := by
  rw [Except.bind_eq_ok_iff] at h
  obtain ⟨path, hpath, h⟩ := h
  obtain rfl := Except.ok.inj h
  obtain ⟨row, hrow, hentity⟩ := hscope.current
  have hlevel : scope.level < env.length := by
    rw [hscope.length]
    exact Nat.lt_succ_self _
  cases dotted with
  | none =>
      obtain rfl := Except.ok.inj hpath
      refine ⟨hlevel, ?_⟩
      simp only [Store.value, hrow]
      exact hentity ▸ store.element_holds row
  | some dotted =>
      rw [Scope.traversePath] at hpath
      split at hpath
      next javaType hcolumn =>
        obtain rfl := Except.ok.inj hpath
        refine ⟨hlevel, ?_⟩
        simp only [Store.value, hrow]
        exact store.column_holds row dotted javaType (hentity ▸ hcolumn)
      next => cases hpath

/-- A variable is resolved to a column of its type, or from a row of the environment. -/
theorem resolve_sound {scope : Scope schema} (hscope : InScope store scope env) {name : String}
    (h : scope.resolve name = .ok resolution) :
    resolution.Sound store env := by
  have hrow : RowAt store env scope.level scope.entity := hscope.current
  induction scope generalizing env with
  | root entity mapper =>
      rw [Scope.resolve] at h
      split at h
      next => exact traversePath_sound hscope h
      next =>
      split at h
      next => cases h
      next =>
        obtain rfl := Except.ok.inj h
        exact hrow
      next =>
        obtain rfl := Except.ok.inj h
        exact hrow
  | lambda entity relation lambdaVar outer ih =>
      rw [Scope.resolve] at h
      split at h
      next =>
        obtain ⟨before, row, rfl, -, houter⟩ := hscope
        exact (ih houter h houter.current).append [row]
      next suffix _ =>
        split at h
        next => exact traversePath_sound hscope h
        next =>
        split at h
        next =>
          obtain rfl := Except.ok.inj h
          exact hrow
        next => cases h
        next => exact traversePath_sound hscope h

theorem path_eq_ok {scope : Scope schema} {name : String} {path : Path}
    (h : scope.path name = .ok path) : ∃ mapping, scope.resolve name = .ok (.scalar path mapping) := by
  rw [Scope.path, Except.bind_eq_ok_iff] at h
  obtain ⟨resolution, hresolve, h⟩ := h
  cases resolution with
  | scalar other mapping =>
      obtain rfl := Except.ok.inj h
      exact ⟨mapping, hresolve⟩
  | scalarBehind ref field => cases h
  | relation ref => cases h

/-! ## Literals -/

/-- Comparing with an integral double is comparing with its whole part. -/
theorem test_trunc {d : Double} (h : d.isInteger = true) (op : ComparisonOperator) (a : Double) :
    op.test a (.finite d.trunc) = op.test a d := by
  cases d with
  | finite q =>
      have hden : q.den = 1 := of_decide_eq_true h
      have htrunc : ((Double.finite q).trunc : ℚ) = q := by
        rw [Double.trunc, Double.toRat, hden, Nat.cast_one, Int.tdiv_one]
        exact Rat.den_eq_one_iff q |>.mp hden
      rw [htrunc]
  | negZero =>
      show op.test a (.finite 0) = op.test a .negZero
      cases op <;> cases a <;> rfl
  | posInf => cases h
  | negInf => cases h
  | nan => cases h

/-- A literal that is neither null, a list nor a map. -/
def isScalar : PlanValue Double → Bool
  | .string _ | .bool _ | .number _ => true
  | _ => false

/-- A number is bound as one that compares alike. -/
theorem bound_number (d : Double) :
    ∃ e, (protoValueToJava (.number d)).bound = .number e ∧
      (protoValueToJava (.number d)).javaType.isNumber = true ∧
        ∀ (op : ComparisonOperator) (a : Double), op.test a e = op.test a d := by
  rw [protoValueToJava]
  split
  next hwhole =>
    have hinteger : d.isInteger = true := by
      simp only [Bool.and_eq_true] at hwhole
      exact hwhole.1.1
    exact ⟨_, rfl, rfl, fun op a => test_trunc hinteger op a⟩
  next => exact ⟨d, rfl, rfl, fun _ _ => rfl⟩

theorem bound_isNull {literal : PlanValue Double} (h : isScalar literal = true) :
    (protoValueToJava literal).bound.isNull = false := by
  cases literal with
  | number d =>
      obtain ⟨e, he, -, -⟩ := bound_number d
      rw [he]
      rfl
  | string s => rfl
  | bool b => rfl
  | _ => cases h

/-- Values that CEL finds neither equal nor ordered. -/
theorem compare_mismatch {left right : Value} (hequal : left.valuesEqual right = false)
    (hkeys : orderingKeys left right = none) (op : ComparisonOperator) :
    Value.compare op left right = if op.isOrdering then .unknown else .ofBool (op = .ne) := by
  cases op <;> simp [Value.compare, hequal, hkeys, ComparisonOperator.isOrdering]

/-! ## Columns -/

/-- What the adapter takes the value of a column for. -/
def columnValue (javaType : JavaType) (v : SqlValue) : Value :=
  match javaType with
  | .other name => .inherited name
  | _ => v.toCel

section Columns

variable {app : Application} {javaType : JavaType} {v : SqlValue} {literal : PlanValue Double}
  {declared : Option NullAttributeRepresentation} {besideNull : Bool} {op : ComparisonOperator}

theorem sentAttribute_present (hv : v.isNull = false) :
    sentAttribute app true javaType v declared besideNull = some (columnValue javaType v) := by
  unfold sentAttribute
  rw [if_neg (by simp [hv])]
  cases javaType <;> rfl

theorem sentAttribute_null (hv : v.isNull = true) :
    sentAttribute app true javaType v declared besideNull =
      match declared.getD (if besideNull then .explicit else .omitted) with
      | .explicit => some .null
      | .omitted => none := by
  unfold sentAttribute
  rw [if_pos hv]
  rfl

/-- No value of a column is one that a list or a map equals, or is ordered with. -/
theorem columnValue_aggregate (hliteral : isScalar literal = false) (hnull : literal ≠ .null) :
    (columnValue javaType v).valuesEqual (.ofPlan literal) = false ∧
      orderingKeys (columnValue javaType v) (.ofPlan literal) = none := by
  cases literal with
  | array items => cases javaType <;> cases v <;> exact ⟨rfl, rfl⟩
  | object fields => cases javaType <;> cases v <;> exact ⟨rfl, rfl⟩
  | null => exact absurd rfl hnull
  | _ => cases hliteral

/-- A null is equal to no other literal, and ordered with none. -/
theorem null_mismatch (hnull : literal ≠ .null) :
    Value.null.valuesEqual (.ofPlan literal) = false ∧
      orderingKeys .null (.ofPlan literal) = none := by
  cases literal <;> first | exact absurd rfl hnull | exact ⟨rfl, rfl⟩

/-- A value that is present equals no null, and is ordered with none. -/
theorem columnValue_null (hv : v.isNull = false) :
    (columnValue javaType v).valuesEqual .null = false := by
  cases v with
  | null => cases hv
  | _ => cases javaType <;> rfl

/-- A value that is present, by the type of its column. -/
theorem holds_cases (hholds : javaType.holds v = true) (hv : v.isNull = false) :
    (javaType = .string ∧ ∃ s, v = .text s) ∨ (javaType = .boolean ∧ ∃ b, v = .bool b) ∨
      (javaType.isNumber = true ∧ ∃ d, v = .number d ∧ columnValue javaType v = .number d) ∨
        ∃ name, javaType = .other name := by
  cases javaType with
  | string => cases v <;> simp [JavaType.holds, SqlValue.isNull] at hholds hv ⊢
  | boolean => cases v <;> simp [JavaType.holds, SqlValue.isNull] at hholds hv ⊢
  | other name => exact .inr (.inr (.inr ⟨name, rfl⟩))
  | _ =>
      cases v <;> simp [JavaType.holds, SqlValue.isNull, JavaType.isNumber, columnValue,
        SqlValue.toCel] at hholds hv ⊢

/-- A number is comparable with the columns of numbers. -/
theorem compatibleTypes_number {other : JavaType} (h : other.isNumber = true) :
    compatibleTypes javaType other = javaType.isNumber := by
  rw [compatibleTypes, h, Bool.and_true]
  cases hnumeric : javaType.isNumber with
  | true => exact Bool.or_true _
  | false =>
      have hne : javaType ≠ other := by
        rintro rfl
        rw [hnumeric] at h
        cases h
      rw [Bool.or_false, decide_eq_false hne]

/-- A column whose type is not comparable with the literal's holds no value that is. -/
theorem columnValue_mismatch (hholds : javaType.holds v = true) (hv : v.isNull = false)
    (htypes : compatibleTypes javaType (protoValueToJava literal).javaType = false) :
    (columnValue javaType v).valuesEqual (.ofPlan literal) = false ∧
      orderingKeys (columnValue javaType v) (.ofPlan literal) = none := by
  obtain ⟨rfl, s, rfl⟩ | ⟨rfl, b, rfl⟩ | ⟨hnumeric, d, rfl, hcolumn⟩ | ⟨name, rfl⟩ :=
    holds_cases hholds hv
  · cases literal with
    | string t => cases htypes
    | _ => exact ⟨rfl, rfl⟩
  · cases literal with
    | bool t => cases htypes
    | _ => exact ⟨rfl, rfl⟩
  · rw [hcolumn]
    cases literal with
    | number e =>
        obtain ⟨-, -, hnumber, -⟩ := bound_number e
        rw [compatibleTypes_number hnumber, hnumeric] at htypes
        cases htypes
    | _ => exact ⟨rfl, rfl⟩
  · cases literal <;> exact ⟨rfl, rfl⟩

/-- The database compares a column with a literal of its type as CEL does. -/
theorem compare_literal (hholds : javaType.holds v = true) (hv : v.isNull = false)
    (hliteral : isScalar literal = true)
    (htypes : compatibleTypes javaType (protoValueToJava literal).javaType = true) :
    engine.compare op v (protoValueToJava literal).bound =
      Value.compare op (columnValue javaType v) (.ofPlan literal) := by
  cases literal with
  | number d =>
      obtain ⟨e, he, hnumber, htest⟩ := bound_number d
      rw [compatibleTypes_number hnumber] at htypes
      obtain ⟨rfl, -⟩ | ⟨rfl, -⟩ | ⟨-, a, rfl, hcolumn⟩ | ⟨name, rfl⟩ := holds_cases hholds hv
      · cases htypes
      · cases htypes
      · rw [he, hcolumn, Engine.compare_number, htest]
        cases op <;> rfl
      · cases htypes
  | string t =>
      obtain ⟨rfl, s, rfl⟩ | ⟨rfl, -⟩ | ⟨hnumeric, -⟩ | ⟨name, rfl⟩ := holds_cases hholds hv
      · exact compare_eq_celCompare rfl op
      · cases htypes
      · cases javaType <;> simp [compatibleTypes, protoValueToJava, JavaValue.javaType,
          JavaType.isNumber] at hnumeric htypes
      · cases htypes
  | bool c =>
      obtain ⟨rfl, -⟩ | ⟨rfl, b, rfl⟩ | ⟨hnumeric, -⟩ | ⟨name, rfl⟩ := holds_cases hholds hv
      · cases htypes
      · exact compare_eq_celCompare rfl op
      · cases javaType <;> simp [compatibleTypes, protoValueToJava, JavaValue.javaType,
          JavaType.isNumber] at hnumeric htypes
      · cases htypes
  | _ => cases hliteral

end Columns

/-! ## Predicates on a column -/

section Predicates

variable {path : Path} {op : ComparisonOperator}

theorem truth_constant (result : Bool) :
    (constant result).truth engine store env = .ofBool result := by
  cases result <;> rfl

@[simp] theorem truth_unknown : TriPredicate.unknown.truth engine store env = .unknown := rfl

@[simp] theorem truth_triNot (p : Predicate) :
    (TriPredicate.not p).truth engine store env = (p.truth engine store env).not := by
  rw [TriPredicate.not, truth_not, truth_and]
  simp

theorem truth_baseUnlessUnknown {base witness : Predicate} {b : Bool}
    (hwitness : witness.truth engine store env = .ofBool b) :
    (TriPredicate.baseUnlessUnknown base witness).truth engine store env =
      if b then .unknown else base.truth engine store env := by
  rw [TriPredicate.baseUnlessUnknown, truth_or]
  simp only [List.map_cons, List.map_nil, truth_and, truth_triNot, truth_unknown, hwitness]
  cases b <;> cases base.truth engine store env <;> rfl

theorem truth_ternary (condition thenBranch elseBranch : Predicate) :
    (TriPredicate.ternary condition thenBranch elseBranch).truth engine store env =
      chosen (condition.truth engine store env) (thenBranch.truth engine store env)
        (elseBranch.truth engine store env) := by
  rw [TriPredicate.ternary, TriPredicate.unknownWhenUnknown, TriPredicate.determined, truth_or]
  simp only [List.map_cons, List.map_nil, truth_and, truth_or, truth_triNot]
  cases condition.truth engine store env <;> cases thenBranch.truth engine store env <;>
    cases elseBranch.truth engine store env <;> rfl

theorem truth_matchesNothing :
    (matchesNothing op path).truth engine store env =
      if (store.value path env).isNull then .unknown else .ofBool (op = .ne) := by
  rw [matchesNothing, truth_baseUnlessUnknown (truth_isNull _), eval_path, truth_constant]

/-- The default leaf is CEL's comparison with what the adapter takes the column for. -/
theorem truth_defaultLeaf {literal : PlanValue Double} (hliteral : isScalar literal = true)
    (hholds : path.javaType.holds (store.value path env) = true) :
    (defaultLeaf op path (protoValueToJava literal)).truth engine store env =
      if (store.value path env).isNull then .unknown
      else Value.compare op (columnValue path.javaType (store.value path env)) (.ofPlan literal) := by
  rw [defaultLeaf]
  cases hv : (store.value path env).isNull with
  | true =>
      rw [if_pos rfl]
      split
      · split
        · rfl
        · rw [truth_matchesNothing, if_pos hv]
      · have hnull : store.value path env = .null := by
          cases h : store.value path env <;> simp_all [SqlValue.isNull]
        rw [truth_compare, eval_path, hnull, Engine.compare_null_left]
  | false =>
      rw [if_neg Bool.false_ne_true]
      split
      next htypes =>
        obtain ⟨hequal, hkeys⟩ :=
          columnValue_mismatch hholds hv (by simpa using htypes)
        rw [compare_mismatch hequal hkeys]
        split
        · rfl
        · rw [truth_matchesNothing, if_neg (by simp [hv])]
      next htypes =>
        rw [truth_compare, eval_path, eval_literal]
        exact compare_literal hholds hv hliteral (by simpa using htypes)

end Predicates

/-! ## Comparisons with a literal -/

section Comparisons

variable {app : Application} {scope : Scope schema} {name : String} {op : ComparisonOperator}
  {literal : PlanValue Double} {path : Path} {mapping : AttributeMapping} {p : Predicate}

theorem scalarMapping_of_resolve {resolution : Resolution schema}
    (h : scope.resolve name = .ok resolution) : scalarMapping name scope = resolution.mapping := by
  rw [scalarMapping, h]

/-- A scalar is sent as an explicit null exactly when its mapping says so. -/
theorem isExplicitNull_scalar (h : scope.resolve name = .ok (.scalar path mapping)) :
    isExplicitNull name scope = decide (mapping.convention = some .explicit) := by
  rw [isExplicitNull, scalarMapping_of_resolve h]
  cases mapping with
  | field f => rfl
  | relation r => rfl

theorem isDeclaredOmitted_scalar (h : scope.resolve name = .ok (.scalar path mapping)) :
    isDeclaredOmitted name scope = decide (mapping.convention = some .omitted) := by
  rw [isDeclaredOmitted, scalarMapping_of_resolve h]
  cases mapping with
  | field f => rfl
  | relation r => rfl

/-- A column is read by its mapping's convention. -/
theorem readAttribute_scalar (h : scope.resolve name = .ok (.scalar path mapping))
    (besideNull : Bool) :
    readAttribute store app true scope env name besideNull =
      sentAttribute app true path.javaType (store.value path env) mapping.convention besideNull := by
  rw [readAttribute, h]
  rfl

theorem comparisonTruth_mismatch {v : Value} (hequal : v.valuesEqual (.ofPlan literal) = false)
    (hkeys : orderingKeys v (.ofPlan literal) = none) :
    comparisonTruth op (some v) literal =
      if op.isOrdering then .unknown else .ofBool (op = .ne) :=
  compare_mismatch hequal hkeys op

theorem comparisonTruth_ne (x : Option Value) :
    comparisonTruth .ne x literal = (comparisonTruth .eq x literal).not := by
  cases x <;> simp [comparisonTruth, Value.compare]

/-- A comparison of a present column with a list or a map. -/
theorem comparison_aggregate (hliteral : isScalar literal = false) (hnull : literal ≠ .null)
    {javaType : JavaType} {v : SqlValue} {declared : Option NullAttributeRepresentation}
    (hpresent : v.isNull = false ∨ declared = some .explicit) :
    comparisonTruth op (sentAttribute app true javaType v declared false) literal =
      if op.isOrdering then .unknown else .ofBool (op = .ne) := by
  cases hv : v.isNull with
  | false =>
      rw [sentAttribute_present hv]
      have haggregate := @columnValue_aggregate javaType v literal hliteral hnull
      exact comparisonTruth_mismatch haggregate.1 haggregate.2
  | true =>
      obtain rfl : declared = some .explicit := by
        obtain h | h := hpresent
        · rw [hv] at h
          cases h
        · exact h
      rw [sentAttribute_null hv]
      obtain ⟨hequal, hkeys⟩ := null_mismatch hnull
      exact comparisonTruth_mismatch hequal hkeys

/-- Nothing is ordered with a list or a map. -/
theorem comparison_aggregate_ordering (hliteral : isScalar literal = false) (hnull : literal ≠ .null)
    (hop : op.isOrdering = true) (x : Option Value) : comparisonTruth op x literal = .unknown := by
  cases x with
  | none => rfl
  | some v =>
      have hkeys : orderingKeys v (.ofPlan literal) = none := by
        cases literal with
        | array items => cases v <;> rfl
        | object fields => cases v <;> rfl
        | null => exact absurd rfl hnull
        | _ => cases hliteral
      cases op with
      | eq => cases hop
      | ne => cases hop
      | _ => simp [comparisonTruth, Value.compare, hkeys]

theorem scalarAgainstAggregate_truth
    (hliteral : isScalar literal = false) (hnull : literal ≠ .null)
    (hscalar : holdsScalars name scope = true)
    (h : scalarAgainstAggregate op name scope = .ok p) :
    p.truth engine store env =
      comparisonTruth op (readAttribute store app true scope env name false) literal := by
  rw [scalarAgainstAggregate] at h
  split at h
  next hop =>
    obtain rfl := Except.ok.inj h
    rw [comparison_aggregate_ordering hliteral hnull hop, truth_unknown]
  next hop =>
  split at h
  next hexplicit =>
    obtain rfl := Except.ok.inj h
    have hconstant : (constant (op = .ne)).truth engine store env =
        if op.isOrdering then .unknown else .ofBool (op = .ne) := by
      rw [truth_constant, if_neg hop]
    rw [hconstant]
    cases hresolve : scope.resolve name with
    | error e =>
        rw [holdsScalars, scalarMapping, hresolve] at hscalar
        cases hscalar
    | ok resolution =>
        cases resolution with
        | scalar path mapping =>
            rw [isExplicitNull_scalar hresolve, decide_eq_true_iff] at hexplicit
            rw [readAttribute_scalar hresolve]
            exact (comparison_aggregate hliteral hnull (.inr hexplicit)).symm
        | scalarBehind ref field =>
            have hread : readAttribute store app true scope env name false =
                some (.inherited field.jpaPath) := by
              rw [readAttribute, hresolve]
              rfl
            rw [hread]
            symm
            apply comparisonTruth_mismatch
            all_goals cases literal <;> rfl
        | relation ref =>
            rw [holdsScalars, scalarMapping, hresolve] at hscalar
            cases hscalar
  next hexplicit =>
    rw [Except.bind_eq_ok_iff] at h
    obtain ⟨path, hpath, h⟩ := h
    obtain rfl := Except.ok.inj h
    obtain ⟨mapping, hresolve⟩ := path_eq_ok hpath
    rw [isExplicitNull_scalar hresolve, decide_eq_true_iff] at hexplicit
    rw [truth_matchesNothing, readAttribute_scalar hresolve]
    cases hv : (store.value path env).isNull with
    | false =>
        rw [comparison_aggregate hliteral hnull (.inl hv), if_neg Bool.false_ne_true, if_neg hop]
    | true =>
        rw [if_pos rfl, sentAttribute_null hv]
        cases hconvention : mapping.convention with
        | none => rfl
        | some convention =>
            cases convention with
            | explicit => exact absurd hconvention hexplicit
            | omitted => rfl

/-- A comparison of an attribute with null. -/
theorem nullComparison_truth (hop : op.isOrdering = false)
    (hresolve : scope.resolve name = .ok (.scalar path mapping)) :
    Predicate.truth engine store
        (if isDeclaredOmitted name scope then matchesNothing op path
          else if op = .eq then .isNull (.path path) else .isNotNull (.path path)) env =
      comparisonTruth op (readAttribute store app true scope env name true) .null := by
  rw [isDeclaredOmitted_scalar hresolve, readAttribute_scalar hresolve]
  have hpresent : (store.value path env).isNull = false →
      comparisonTruth op (sentAttribute app true path.javaType (store.value path env)
        mapping.convention true) .null = .ofBool (op = .ne) := by
    intro hv
    rw [sentAttribute_present hv]
    have hequal : (columnValue path.javaType (store.value path env)).valuesEqual .null = false :=
      columnValue_null hv
    cases op with
    | eq => simp [comparisonTruth, Value.compare, Value.ofPlan, hequal]
    | ne => simp [comparisonTruth, Value.compare, Value.ofPlan, hequal]
    | _ => cases hop
  cases homitted : decide (mapping.convention = some .omitted) with
  | true =>
      rw [decide_eq_true_iff] at homitted
      rw [if_pos rfl, truth_matchesNothing]
      cases hv : (store.value path env).isNull with
      | true => rw [sentAttribute_null hv, homitted]; rfl
      | false => rw [hpresent hv]; rfl
  | false =>
      rw [decide_eq_false_iff_not] at homitted
      rw [if_neg Bool.false_ne_true]
      cases hv : (store.value path env).isNull with
      | true =>
          have hsent : sentAttribute app true path.javaType (store.value path env)
              mapping.convention true = some .null := by
            rw [sentAttribute_null hv]
            cases hconvention : mapping.convention with
            | none => rfl
            | some convention =>
                cases convention with
                | explicit => rfl
                | omitted => exact absurd hconvention homitted
          rw [hsent]
          cases op with
          | eq => simp [hv, comparisonTruth, Value.compare, Value.ofPlan, Value.valuesEqual]
          | ne => simp [hv, comparisonTruth, Value.compare, Value.ofPlan, Value.valuesEqual]
          | _ => cases hop
      | false =>
          rw [hpresent hv]
          cases op with
          | eq => simp [hv]
          | ne => simp [hv]
          | _ => cases hop

/-- An equality of an attribute that is sent as an explicit null with a scalar. -/
theorem definiteEquality_truth (hop : op.isOrdering = false) (hliteral : isScalar literal = true)
    (hholds : path.javaType.holds (store.value path env) = true)
    (hconvention : mapping.convention = some .explicit) :
    (definiteEquality op (.path path) (.literal (protoValueToJava literal).bound) path.javaType
        (protoValueToJava literal).javaType true false).truth engine store env =
      comparisonTruth op (sentAttribute app true path.javaType (store.value path env)
        mapping.convention false) literal := by
  have hmismatch : ∀ v : Value, v.valuesEqual (.ofPlan literal) = false →
      comparisonTruth op (some v) literal = .ofBool (op = .ne) := by
    intro v hequal
    cases op with
    | eq => simp [comparisonTruth, Value.compare, hequal]
    | ne => simp [comparisonTruth, Value.compare, hequal]
    | _ => cases hop
  have hbound := bound_isNull hliteral
  rw [definiteEquality, hconvention]
  cases htypes : compatibleTypes path.javaType (protoValueToJava literal).javaType with
  | false =>
      have hsent : ∃ v, sentAttribute app true path.javaType (store.value path env)
          (some .explicit) false = some v ∧ v.valuesEqual (.ofPlan literal) = false := by
        cases hv : (store.value path env).isNull with
        | true =>
            have hnull : literal ≠ .null := by
              rintro rfl
              cases hliteral
            exact ⟨.null, sentAttribute_null hv, (null_mismatch hnull).1⟩
        | false => exact ⟨_, sentAttribute_present hv, (columnValue_mismatch hholds hv htypes).1⟩
      obtain ⟨v, hsent, hequal⟩ := hsent
      have hequality : (TriPredicate.baseUnlessUnknown .disjunction
          (.or [.isNull (.literal (protoValueToJava literal).bound)])).truth engine store env = .no := by
        have hwitness : (Predicate.or [.isNull (.literal (protoValueToJava literal).bound)]).truth
            engine store env = .ofBool false := by
          rw [truth_or]
          simp [hbound]
        rw [truth_baseUnlessUnknown hwitness]
        rfl
      rw [hsent, hmismatch v hequal]
      cases op with
      | eq => exact hequality
      | ne => exact (truth_triNot _).trans (congrArg Truth.not hequality)
      | _ => cases hop
  | true =>
      have hequality : (Predicate.and [.isNotNull (.path path),
          .compare .eq (.path path) (.literal (protoValueToJava literal).bound)]).truth engine store
            env = comparisonTruth .eq (sentAttribute app true path.javaType
              (store.value path env) (some .explicit) false) literal := by
        rw [truth_and]
        simp only [List.map_cons, List.map_nil, truth_isNotNull, truth_compare, eval_path, eval_literal,
          Truth.all_cons, Truth.all_nil, Truth.and_yes]
        cases hv : (store.value path env).isNull with
        | true =>
            have hnull : literal ≠ .null := by
              rintro rfl
              cases hliteral
            have hsent : sentAttribute app true path.javaType (store.value path env)
                (some .explicit) false = some .null := sentAttribute_null hv
            rw [hsent, comparisonTruth, Value.compare, (null_mismatch hnull).1]
            rfl
        | false =>
            rw [sentAttribute_present hv, compare_literal hholds hv hliteral htypes]
            rfl
      cases op with
      | eq => exact hequality
      | ne => rw [comparisonTruth_ne, ← hequality]; exact truth_triNot _
      | _ => cases hop

/-- A comparison that the default leaf translates, of an attribute whose NULL is missing. -/
theorem applyLeaf_truth (hliteral : isScalar literal = true)
    (hholds : path.javaType.holds (store.value path env) = true)
    (hconvention : op.isOrdering = true ∨ mapping.convention ≠ some .explicit) :
    (applyLeaf op path (protoValueToJava literal)).truth engine store env =
      comparisonTruth op (sentAttribute app true path.javaType (store.value path env)
        mapping.convention false) literal := by
  rw [applyLeaf, truth_defaultLeaf hliteral hholds]
  cases hv : (store.value path env).isNull with
  | false => rw [sentAttribute_present hv, if_neg Bool.false_ne_true]; rfl
  | true =>
      rw [if_pos rfl, sentAttribute_null hv]
      have hnull : literal ≠ .null := by
        rintro rfl
        cases hliteral
      cases hdeclared : mapping.convention with
      | none => rfl
      | some convention =>
          cases convention with
          | omitted => rfl
          | explicit =>
              obtain hop | hne := hconvention
              · obtain ⟨hequal, hkeys⟩ := null_mismatch hnull
                exact ((comparisonTruth_mismatch hequal hkeys).trans (if_pos hop)).symm
              · exact absurd hdeclared hne

/-- What a comparison with a scalar is, when it is translated. -/
theorem leafFieldValue_scalar {value : JavaValue} (hvalue : value.bound.isNull = false)
    (h : leafFieldValue op name value scope = .ok p) :
    ∃ path, scope.path name = .ok path ∧
      p = if !op.isOrdering && isExplicitNull name scope then
          definiteEquality op (.path path) (.literal value.bound) path.javaType value.javaType
            true false
        else applyLeaf op path value := by
  cases value with
  | null => cases hvalue
  | list n => cases hvalue
  | map n => cases hvalue
  | _ =>
      obtain ⟨path, hpath, h⟩ := Except.bind_eq_ok_iff.mp h
      refine ⟨path, hpath, ?_⟩
      split at h
      next hdefinite => rw [if_pos hdefinite, ← Except.ok.inj h]
      next hdefinite =>
        rw [if_neg hdefinite]
        -- Only the ordering of a string has a refusal to pass.
        split at h
        · first
            | exact (Except.ok.inj h).symm
            | split at h
              · cases h
              · exact (Except.ok.inj h).symm
        · exact (Except.ok.inj h).symm

/-- A comparison of an attribute with a literal is CEL's, of what the adapter takes the
column for. -/
theorem leafFieldValue_truth (hscope : InScope store scope env)
    (h : leafFieldValue op name (protoValueToJava literal) scope = .ok p) :
    p.truth engine store env =
      comparisonTruth op
        (readAttribute store app true scope env name (isNullLiteral (.value literal))) literal := by
  have haggregate : isScalar literal = false → literal ≠ .null →
      (if holdsScalars name scope then scalarAgainstAggregate op name scope
        else .error (.unsupported (op.name ++ " comparison against a " ++
          constantShape (protoValueToJava literal) ++
          " constant is not supported for attribute " ++ name ++ ". Whole-" ++
          kindWord (protoValueToJava literal) ++
          " equality is not translatable to a scalar column comparison; map " ++
          "the attribute as a Relation and use in/hasIntersection, or compare elements " ++
          "individually."))) = .ok p →
      p.truth engine store env =
        comparisonTruth op (readAttribute store app true scope env name false) literal := by
    intro hliteral hnull h
    split at h
    next hscalar => exact scalarAgainstAggregate_truth hliteral hnull hscalar h
    next => cases h
  have hscalar : isScalar literal = true → p.truth engine store env =
      comparisonTruth op (readAttribute store app true scope env name false) literal := by
    intro hliteral
    obtain ⟨path, hpath, rfl⟩ := leafFieldValue_scalar (bound_isNull hliteral) h
    obtain ⟨mapping, hresolve⟩ := path_eq_ok hpath
    obtain ⟨-, hholds⟩ := resolve_sound hscope hresolve
    rw [readAttribute_scalar hresolve, isExplicitNull_scalar hresolve]
    split
    next hdefinite =>
      simp only [Bool.and_eq_true, Bool.not_eq_true', decide_eq_true_iff] at hdefinite
      exact definiteEquality_truth hdefinite.1 hliteral hholds hdefinite.2
    next hdefinite =>
      apply applyLeaf_truth hliteral hholds
      cases hop : op.isOrdering with
      | true => exact .inl rfl
      | false => exact .inr fun heq => hdefinite (by simp [hop, heq])
  cases literal with
  | array items => exact haggregate rfl nofun h
  | object fields => exact haggregate rfl nofun h
  | null =>
      obtain ⟨path, hpath, h⟩ := Except.bind_eq_ok_iff.mp h
      obtain ⟨mapping, hresolve⟩ := path_eq_ok hpath
      split at h
      next => cases h
      next hop =>
        refine Eq.trans ?_ (@nullComparison_truth schema engine store env app scope _ op _ _
          (by simpa using hop) hresolve)
        split at h
        next homitted => rw [if_pos homitted, ← Except.ok.inj h]
        next homitted => rw [if_neg homitted, ← Except.ok.inj h]
  | _ => exact hscalar rfl

/-- A bare attribute is read as a boolean, any other value as false. -/
theorem bare_truth (hscope : InScope store scope env) (hpath : scope.path name = .ok path) :
    (applyLeaf .eq path (.bool true)).truth engine store env =
      bareTruth true (readAttribute store app true scope env name false) := by
  obtain ⟨mapping, hresolve⟩ := path_eq_ok hpath
  obtain ⟨-, hholds⟩ := resolve_sound hscope hresolve
  rw [readAttribute_scalar hresolve]
  have hliteral : isScalar (.bool true) = true := rfl
  refine (truth_defaultLeaf hliteral hholds).trans ?_
  cases hv : (store.value path env).isNull with
  | true =>
      rw [if_pos rfl, sentAttribute_null hv]
      split <;> rfl
  | false =>
      rw [if_neg Bool.false_ne_true, sentAttribute_present hv]
      obtain ⟨htype, s, hs⟩ | ⟨htype, b, hb⟩ | ⟨-, d, -, hd⟩ | ⟨other, htype⟩ := holds_cases hholds hv
      · rw [htype, hs]; rfl
      · rw [htype, hb]; cases b <;> rfl
      · rw [hd]; rfl
      · rw [htype]; rfl

end Comparisons

end QueryPlanAdapters.SpringData
