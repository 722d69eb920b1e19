import QueryPlanAdapters.Convex.Refusals

/-!
# Convex: unrolling a quantifier over a literal list

`exists` over a literal list is the `or` of its body with the variable replaced
by each element, and `all` is the `and`, except where the body reads a node's
type off its shape: a variable and the literal in its place then choose different
arithmetic or different renderings. Where every such choice comes out alike, the
two forms evaluate alike, errors and throws included.
-/

namespace QueryPlanAdapters.Convex

/-! ## Substitution -/

section Substitution

variable (name : String) (literal : Json)

/-- Which operands a substitution reaches: not those a lambda that binds the name
again hides, nor the field of a `get-field` or the key of a `set-field`. -/
def substitutedOperands (operator : PlanOperator) (operands each : List Operand) :
    List Operand :=
  match operator with
  | .lambda =>
      match lambdaComponents (.expression .lambda operands) with
      | .ok components =>
          if components.names.contains name then operands
          else match each[components.bodyIndex]? with
            | some body => operands.set components.bodyIndex body
            | none => operands
      | .error _ => operands
  | .getField => each.take 1 ++ operands.drop 1
  | .setField => operands.take 1 ++ each.drop 1
  | _ => each

/-- Replace the variable by a literal value node. -/
def substitute : Operand → Operand :=
  Operand.fold .value (fun other => if other = name then .value literal else .var other)
    fun operator operands each _ =>
      .expression operator (substitutedOperands name operator operands each)

@[simp] theorem substitute_var (other : String) :
    substitute name literal (.var other) = if other = name then .value literal else .var other :=
  rfl

theorem substitute_expression (operator : PlanOperator) (operands : List Operand) :
    substitute name literal (.expression operator operands) =
      .expression operator
        (substitutedOperands name operator operands (operands.map (substitute name literal))) := by
  rw [substitute, Operand.fold_expression]

end Substitution

/-! ## Where a substitution changes a choice of the evaluator -/

section Choices

variable (name : String)

/-- The variable occurs only bare: no path goes through it. -/
def occursBare : Operand → Bool :=
  Operand.fold (fun _ => true) (fun other => other = name || referenceRoot other ≠ name)
    fun operator operands each _ =>
      match operator with
      | .lambda =>
          match lambdaComponents (.expression .lambda operands) with
          | .ok components =>
              components.names.contains name || (each[components.bodyIndex]?).getD true
          | .error _ => true
      | .getField => (each.take 1).all id
      | .setField => (each.drop 1).all id
      | _ => each.all id

/-- A node chooses alike before and after its operands were substituted: the mode of
an arithmetic, a modulo's refusal of variables, and the rendering of a conversion
to a string. -/
def choosesAlike (isBound : String → Bool) (operator : PlanOperator)
    (operands substituted : List Operand) : Bool :=
  match arithmeticOperator operator with
  | some arithmetic =>
      isTemporalNode operator operands ||
        (arithmeticMode isBound operator operands = arithmeticMode isBound operator substituted &&
          (arithmetic ≠ .mod ||
            operands.any Operand.isVariable = substituted.any Operand.isVariable))
  | none =>
      operator ≠ .string ||
        operands[0]?.any (fun o => numericTypeOf o = some .int) =
          substituted[0]?.any (fun o => numericTypeOf o = some .int)

/-- Every node of the tree chooses alike, under the variables bound around it. -/
def allChooseAlike (literal : Json) : Operand → (isBound : String → Bool) → Bool :=
  Operand.fold (fun _ _ => true) (fun _ _ => true) fun operator operands each _ isBound =>
    choosesAlike isBound operator operands
        (substitutedOperands name operator operands (operands.map (substitute name literal))) &&
      match operator with
      | .lambda =>
          match lambdaComponents (.expression .lambda operands) with
          | .ok components =>
              components.names.contains name ||
                (each[components.bodyIndex]?).all fun body =>
                  body fun other => isBound other || components.names.contains other
          | .error _ => true
      | .getField => (each.take 1).all (· isBound)
      | .setField => (each.drop 1).all (· isBound)
      | _ => each.all (· isBound)

end Choices

/-! ## Scopes -/

section Scopes

variable {scope : Scope} {name other : String} {v w : Value}

theorem Scope.set_set : (scope.set name v).set name w = scope.set name w := by
  simp only [Scope.set, Scope.mk.injEq, true_and, and_true]
  funext other
  by_cases h : other = name ∧ name ≠ "__proto__" <;> simp [Bindings.set, h]

theorem Scope.set_comm (h : other ≠ name) :
    (scope.set name v).set other w = (scope.set other w).set name v := by
  simp only [Scope.set, Scope.mk.injEq, true_and, and_true]
  funext read
  by_cases hname : read = name
  · simp [Bindings.set, hname, h.symm]
  · simp [Bindings.set, hname]

/-- Variables bound inside hide the ones they rename and commute with the others. -/
theorem Scope.bindVariables_set {names : List String} {values : List Value}
    (hlength : values.length = names.length) :
    (scope.set name v).bindVariables names values =
      if name ∈ names then scope.bindVariables names values
      else (scope.bindVariables names values).set name v := by
  induction names generalizing scope values with
  | nil => simp [Scope.bindVariables]
  | cons first names ih =>
      match values, hlength with
      | w :: values, hlength =>
          have hrest : values.length = names.length := by simpa using hlength
          simp only [Scope.bindVariables, List.zip_cons_cons, List.foldl_cons] at ih ⊢
          by_cases h : first = name
          · subst h
            simp [Scope.set_set]
          · rw [Scope.set_comm h, ih hrest]
            simp [Ne.symm h]

theorem Scope.isBound_set :
    (scope.set name v).isBound other = (scope.isBound other || other = name) := by
  by_cases hother : other = name
  · by_cases hproto : name = "__proto__"
    · subst hother hproto
      have hmember : "__proto__" ∈ objectPrototypeMembers := by decide
      simp only [Scope.isBound, Scope.set, Bindings.get?, Bindings.set, ne_eq, not_true_eq_false,
        and_false, if_false, List.contains_iff_mem.mpr hmember, decide_true, Bool.or_true]
      cases scope.bindings "__proto__" <;> rfl
    · simp [Scope.isBound, Scope.set, Bindings.get?, Bindings.set, hother, hproto]
  · simp [Scope.isBound, Scope.set, Bindings.get?, Bindings.set, hother]

theorem Scope.isBound_bindVariables {names : List String} {values : List Value}
    (hlength : values.length = names.length) :
    (scope.bindVariables names values).isBound other =
      (scope.isBound other || names.contains other) := by
  induction names generalizing scope values with
  | nil => simp [Scope.bindVariables]
  | cons first names ih =>
      match values, hlength with
      | w :: values, hlength =>
          have hrest : values.length = names.length := by simpa using hlength
          simp only [Scope.bindVariables, List.zip_cons_cons, List.foldl_cons] at ih ⊢
          rw [ih hrest, Scope.isBound_set, List.contains_cons, Bool.or_assoc]
          rfl

/-- A bare variable reads its value. -/
theorem lookUp_set_self (hbare : isBareName name = true) (hproto : name ≠ "__proto__") :
    lookUp name (scope.set name v) = .value v := by
  have hget : Bindings.get? (scope.set name v).bindings name = some v := by
    simp [Scope.set, Bindings.get?, Bindings.set, hproto]
  simp [lookUp, referenceRest_of_isBareName hbare, hget]

/-- A reference with another root reads past the variable. -/
theorem lookUp_set_of_ne (hbare : isBareName name = true) (h : referenceRoot other ≠ name) :
    lookUp other (scope.set name v) = lookUp other scope := by
  have hother : other ≠ name := by
    rintro rfl
    exact h (referenceRoot_of_isBareName hbare)
  have hget : ∀ read : String, read ≠ name →
      Bindings.get? (scope.set name v).bindings read = Bindings.get? scope.bindings read := by
    intro read hread
    simp [Scope.set, Bindings.get?, Bindings.set, hread]
  simp only [lookUp, hget _ h, hget _ hother]
  rfl

end Scopes

/-! ## Substitution and the shape of nodes -/

section Shapes

variable {name : String} {literal : Json}

/-- Only a bare variable changes its kind of node. -/
theorem looksLikeLambdaVariable_substitute {operand : Operand} (h : operand ≠ .var name) :
    looksLikeLambdaVariable (substitute name literal operand) =
      looksLikeLambdaVariable operand := by
  cases operand with
  | value v => rfl
  | var other =>
      have : other ≠ name := fun heq => h (heq ▸ rfl)
      simp [this]
  | expression operator operands => rw [substitute_expression]; rfl

theorem temporalKindOf_substitute (operand : Operand) :
    temporalKindOf (substitute name literal operand) = temporalKindOf operand := by
  induction operand using Operand.induction with
  | value v => rfl
  | var other =>
      rw [substitute_var]
      split <;> rfl
  | expression operator operands ih =>
      rw [substitute_expression]
      have heach : (operands.map (substitute name literal)).map temporalKindOf =
          operands.map temporalKindOf := by
        rw [List.map_map]
        exact List.map_congr_left ih
      cases operator <;> first
        | rfl
        | simp only [temporalKindOf, temporalKindsOf_eq_map, substitutedOperands, heach]

end Shapes

/-- A two-variable comprehension binds two values. -/
theorem length_of_mem_comprehensionPairs {target : Outcome} {items : List (List Value)}
    {item : List Value} (hpairs : comprehensionPairs target = some items) (hmem : item ∈ items) :
    item.length = 2 := by
  unfold comprehensionPairs at hpairs
  split at hpairs
  · obtain rfl := Option.some.inj hpairs
    obtain ⟨pair, -, rfl⟩ := List.mem_map.mp hmem
    rfl
  · obtain rfl := Option.some.inj hpairs
    obtain ⟨pair, -, rfl⟩ := List.mem_map.mp hmem
    rfl
  · cases hpairs

/-! ## Calls that evaluate alike -/

/-- Two calls of one operator whose operands evaluate alike and whose nodes choose
alike. -/
structure Call.Alike (first second : Call) : Prop where
  operator : first.operator = second.operator
  results : first.evaluators.map (· first.scope) = second.evaluators.map (· second.scope)
  nullIsMissing : first.scope.nullIsMissing = second.scope.nullIsMissing
  now : first.scope.now = second.scope.now
  temporalKinds : first.operands.map temporalKindOf = second.operands.map temporalKindOf
  mode : (arithmeticOperator first.operator).isSome = true →
    isTemporalNode first.operator first.operands = true ∨
      arithmeticMode first.scope.isBound first.operator first.operands =
          arithmeticMode second.scope.isBound second.operator second.operands ∧
        (first.operator = .mod →
          first.operands.any Operand.isVariable = second.operands.any Operand.isVariable)
  divisor : first.operands[1]?.any (isDocumentField first.scope.isBound) =
    second.operands[1]?.any (isDocumentField second.scope.isBound)
  rendering : first.operator = .string →
    first.operands[0]?.any (fun o => numericTypeOf o = some .int) =
      second.operands[0]?.any (fun o => numericTypeOf o = some .int)

/-- Two lambdas of one arity that agree on every item. -/
def Lambda.alike (first second : Lambda) : Prop :=
  first.arity = second.arity ∧
    ∀ values, values.length = first.arity → first.body values = second.body values

theorem Lambda.alike.filterLoop {l₁ l₂ : Lambda} (h : l₁.alike l₂) (harity : l₁.arity = 1)
    (filtered items : List Value) :
    filterLoop l₁.body filtered items = filterLoop l₂.body filtered items := by
  induction items generalizing filtered with
  | nil => rfl
  | cons item items ih =>
      have hbody : l₁.body [item] = l₂.body [item] := h.2 _ (by rw [harity]; rfl)
      simp only [Convex.filterLoop, hbody, ih]

namespace Call.Alike

variable {first second : Call} (h : first.Alike second)

include h

theorem arg (index : Nat) (role : String) : first.arg index role = second.arg index role := by
  have hresult : ∀ call : Call, call.arg index role =
      ((call.evaluators.map (· call.scope))[index]?).getD
        (.error (.unsupported (call.operator.name ++ " " ++ role))) := by
    intro call
    rw [Call.arg, List.getElem?_map]
    cases call.evaluators[index]? <;> rfl
  rw [hresult, hresult, h.results, h.operator]

theorem second_evaluator :
    (first.evaluators[1]?).map (· first.scope) = (second.evaluators[1]?).map (· second.scope) := by
  rw [← List.getElem?_map, ← List.getElem?_map, h.results]

theorem junction (decisive : Bool) : junction decisive first = junction decisive second := by
  rw [Convex.junction, Convex.junction, h.results]

theorem isTemporalNode :
    isTemporalNode first.operator first.operands = isTemporalNode second.operator second.operands := by
  have hany : ∀ operands : List Operand, (operands.any fun o => (temporalKindOf o).isSome) =
      (operands.map temporalKindOf).any (·.isSome) := by
    intro operands
    rw [List.any_map]
    rfl
  rw [Convex.isTemporalNode, Convex.isTemporalNode, hany, hany, h.temporalKinds, h.operator]

theorem temporalArithmetic : temporalArithmetic first = temporalArithmetic second := by
  simp only [Convex.temporalArithmetic, h.temporalKinds, h.operator, h.arg]

theorem timeSince : evaluateTimeSince first = evaluateTimeSince second := by
  have hkind : (first.operands[0]?).map temporalKindOf = (second.operands[0]?).map temporalKindOf := by
    rw [← List.getElem?_map, ← List.getElem?_map, h.temporalKinds]
  simp only [evaluateTimeSince, Call.operandAt, h.operator, h.arg, h.now]
  cases hfirst : first.operands[0]? with
  | none =>
      rw [hfirst, Option.map_none, eq_comm, Option.map_eq_none_iff] at hkind
      rw [hkind]
  | some operand =>
      rw [hfirst, Option.map_some, eq_comm, Option.map_eq_some_iff] at hkind
      obtain ⟨operand', hsecond, hkind⟩ := hkind
      simp only [hsecond, bind, Except.bind, hkind]

theorem hierarchy : evaluateHierarchy first = evaluateHierarchy second := by
  have hsecond := h.second_evaluator
  simp only [evaluateHierarchy, h.arg]
  cases hfirst : first.evaluators[1]? with
  | none =>
      rw [hfirst, Option.map_none, eq_comm, Option.map_eq_none_iff] at hsecond
      rw [hsecond]
  | some evaluator =>
      rw [hfirst, Option.map_some, eq_comm, Option.map_eq_some_iff] at hsecond
      obtain ⟨evaluator', hevaluator', hrun⟩ := hsecond
      simp only [hevaluator', hrun]

theorem quantifier (q : Quantifier) {l₁ l₂ : Lambda} (h₁ : lambdaOf first = .ok l₁)
    (h₂ : lambdaOf second = .ok l₂) (hlambda : l₁.alike l₂) (harity : l₁.arity = 1 ∨ l₁.arity = 2) :
    quantifier q first = quantifier q second := by
  obtain ⟨hsame, hbody⟩ := hlambda
  simp only [Convex.quantifier, h₁, h₂, h.arg, bind, Except.bind, ← hsame]
  cases second.arg 0 "collection" with
  | error thrown => rfl
  | ok target =>
      dsimp only
      have hrun : ∀ items : List (List Value), (∀ item ∈ items, item.length = l₁.arity) →
          items.map l₁.body = items.map l₂.body :=
        fun items hitems => List.map_congr_left fun item hmem => hbody item (hitems item hmem)
      rcases harity with harity | harity
      · rw [harity]
        cases macroItems target with
        | none => rfl
        | some items =>
            simp only [OfNat.one_ne_ofNat, if_false, Option.map_some]
            rw [hrun _ fun item hmem => ?_]
            obtain ⟨v, -, rfl⟩ := List.mem_map.mp hmem
            rw [harity]
            rfl
      · rw [harity]
        cases hpairs : comprehensionPairs target with
        | none => rfl
        | some items =>
            simp only [if_true]
            rw [hrun _ fun item hmem => ?_]
            rw [harity]
            exact length_of_mem_comprehensionPairs hpairs hmem

theorem filter {l₁ l₂ : Lambda} (h₁ : lambdaOf first = .ok l₁) (h₂ : lambdaOf second = .ok l₂)
    (hlambda : l₁.alike l₂) (harity : l₁.arity = 1) :
    evaluateFilter first = evaluateFilter second := by
  simp only [evaluateFilter, h.arg, h₁, h₂, bind, Except.bind, hlambda.filterLoop harity]

theorem map {l₁ l₂ : Lambda} (h₁ : lambdaOf first = .ok l₁) (h₂ : lambdaOf second = .ok l₂)
    (hlambda : l₁.alike l₂) (harity : l₁.arity = 1) : evaluateMap first = evaluateMap second := by
  have hbody : ∀ item, l₁.body [item] = l₂.body [item] :=
    fun item => hlambda.2 _ (by rw [harity]; rfl)
  simp only [evaluateMap, h.arg, h₁, h₂, bind, Except.bind, hbody]

variable [Double.Rounding]

theorem looseArithmetic {operator : ArithmeticOperator} (left right : Value)
    (hmod : operator = .mod →
      first.operands.any Operand.isVariable = second.operands.any Operand.isVariable) :
    looseArithmetic operator first left right = looseArithmetic operator second left right := by
  unfold Convex.looseArithmetic
  split <;> first
    | rfl
    | rw [h.divisor]
    | rw [hmod rfl]

theorem arithmetic {operator : ArithmeticOperator}
    (hoperator : arithmeticOperator first.operator = some operator) :
    arithmetic operator first = arithmetic operator second := by
  unfold Convex.arithmetic
  rw [← h.isTemporalNode]
  split
  · exact h.temporalArithmetic
  · rename_i htemporal
    obtain hcontra | ⟨hmode, hmod⟩ := h.mode (by rw [hoperator]; rfl)
    · exact absurd hcontra htemporal
    · have hmod' : operator = .mod → first.operator = .mod := by
        rintro rfl
        unfold arithmeticOperator at hoperator
        split at hoperator <;> simp_all
      simp only [h.arg, hmode, h.looseArithmetic _ _ fun heq => hmod (hmod' heq)]

end Call.Alike

/-- What two alike calls need beyond their operands: lambdas and map entries. -/
structure Call.InnerAlike (first second : Call) : Prop where
  quantifier : first.operator = .exists ∨ first.operator = .existsOne ∨ first.operator = .all →
    ∃ l₁ l₂, lambdaOf first = .ok l₁ ∧ lambdaOf second = .ok l₂ ∧ l₁.alike l₂ ∧
      (l₁.arity = 1 ∨ l₁.arity = 2)
  comprehension : first.operator = .filter ∨ first.operator = .map →
    ∃ l₁ l₂, lambdaOf first = .ok l₁ ∧ lambdaOf second = .ok l₂ ∧ l₁.alike l₂ ∧ l₁.arity = 1
  struct : first.operator = .struct → evaluateStruct first = evaluateStruct second

/-- Alike calls evaluate alike. A `get-field` reads its second operand as a name,
and is left to the caller. -/
theorem evaluateOperator_of_alike [Double.Rounding] {first second : Call} (h : first.Alike second)
    (hinner : first.InnerAlike second) (hfield : first.operator ≠ .getField) :
    evaluateOperator first = evaluateOperator second := by
  have hoperator := h.operator
  unfold evaluateOperator
  rw [← hoperator]
  cases hop : first.operator with
  | and | or => exact h.junction _
  | list => simp only [h.results]
  | «exists» | existsOne | all =>
      obtain ⟨l₁, l₂, h₁, h₂, hlambda, harity⟩ := hinner.quantifier (by simp [hop])
      exact h.quantifier _ h₁ h₂ hlambda harity
  | filter =>
      obtain ⟨l₁, l₂, h₁, h₂, hlambda, harity⟩ := hinner.comprehension (by simp [hop])
      exact h.filter h₁ h₂ hlambda harity
  | map =>
      obtain ⟨l₁, l₂, h₁, h₂, hlambda, harity⟩ := hinner.comprehension (by simp [hop])
      exact h.map h₁ h₂ hlambda harity
  | struct => exact hinner.struct hop
  | add | sub | mult | div | mod => exact h.arithmetic (by rw [hop]; rfl)
  | timeSince => exact h.timeSince
  | hierarchy => exact h.hierarchy
  | string => simp only [evaluateString, h.arg, h.rendering hop]
  | getField => exact absurd hop hfield
  | _ =>
      simp only [evaluateNot, comparison, evaluateIn, stringTest, evaluateMatches, listOperation,
        evaluateIndex, conversion, evaluateDuration, evaluateIf, hierarchyRelation, h.arg]

/-! ## The tree -/

section Tree

variable {name : String} {literal : Json}

/-- The three shapes of a lambda, with its body and its variables. -/
theorem lambdaComponents_cases {lambda : Operand} {components : LambdaComponents}
    (h : lambdaComponents lambda = .ok components) :
    ∃ operands body, lambda = .expression .lambda operands ∧
      operands[components.bodyIndex]? = some body ∧
      (components.names.length = 1 ∨ components.names.length = 2) ∧
      ((∃ first second, operands = [body, first, second] ∧ components.bodyIndex = 0) ∨
        (∃ second, operands = [body, second] ∧ components.bodyIndex = 0 ∧
          looksLikeLambdaVariable second = true) ∨
        ∃ first, operands = [first, body] ∧ components.bodyIndex = 1 ∧
          looksLikeLambdaVariable body = false) := by
  unfold lambdaComponents at h
  split at h
  · rename_i body first second
    split at h
    · obtain rfl := Except.ok.inj h
      exact ⟨_, body, rfl, rfl, .inr rfl, .inl ⟨first, second, rfl, rfl⟩⟩
    · cases h
  · rename_i first second
    split at h
    · rename_i hsecond
      obtain rfl := Except.ok.inj h
      exact ⟨_, first, rfl, rfl, .inl rfl, .inr (.inl ⟨second, rfl, rfl, hsecond⟩)⟩
    · rename_i hsecond
      split at h
      · obtain rfl := Except.ok.inj h
        exact ⟨_, second, rfl, rfl, .inl rfl, .inr (.inr ⟨first, rfl, rfl, by simpa using hsecond⟩)⟩
      · cases h
  · cases h
  · cases h

/-- A lambda's only variable has a bare name. -/
theorem isBareName_of_lambdaComponents {lambda : Operand} {components : LambdaComponents}
    (h : lambdaComponents lambda = .ok components) (hnames : components.names = [name]) :
    isBareName name = true := by
  have hbare : ∀ operand, looksLikeLambdaVariable operand = true → variableName operand = name →
      isBareName name = true := by
    intro operand hlooks hvariable
    cases operand with
    | var other => exact hvariable ▸ hlooks
    | value v => cases hlooks
    | expression operator operands => cases hlooks
  unfold lambdaComponents at h
  split at h
  · split at h
    · obtain rfl := Except.ok.inj h
      cases hnames
    · cases h
  · split at h
    · rename_i hsecond
      obtain rfl := Except.ok.inj h
      exact hbare _ hsecond (List.cons.inj hnames).1
    · split at h
      · rename_i hfirst
        obtain rfl := Except.ok.inj h
        exact hbare _ hfirst (List.cons.inj hnames).1
      · cases h
  · cases h
  · cases h

/-- A substituted lambda keeps its variables and the place of its body. -/
theorem lambdaComponents_substitute {lambda body : Operand} {components : LambdaComponents}
    (hname : isBareName name = true) (h : lambdaComponents lambda = .ok components)
    (hbody : lambda.operands[components.bodyIndex]? = some body) :
    lambdaComponents (substitute name literal lambda) = .ok components ∧
      (substitute name literal lambda).operands[components.bodyIndex]? =
        some (if components.names.contains name then body else substitute name literal body) := by
  obtain ⟨operands, body', rfl, hbody', -, hshape⟩ := lambdaComponents_cases h
  obtain rfl := Option.some.inj (hbody'.symm.trans hbody)
  rw [substitute_expression]
  simp only [substitutedOperands, h]
  by_cases hhidden : components.names.contains name
  · simp only [hhidden, if_true]
    exact ⟨h, hbody⟩
  · simp only [hhidden, Bool.false_eq_true, if_false, List.getElem?_map, hbody', Option.map_some]
    have hlooks : body' ≠ .var name → looksLikeLambdaVariable (substitute name literal body') =
        looksLikeLambdaVariable body' := looksLikeLambdaVariable_substitute
    rcases hshape with ⟨first, second, rfl, hindex⟩ |
      ⟨second, rfl, hindex, hsecond⟩ | ⟨first, rfl, hindex, hlooks'⟩
    · simp only [hindex, List.set_cons_zero, Operand.operands, List.getElem?_cons_zero, and_true]
      simpa [lambdaComponents] using h
    · simp only [hindex, List.set_cons_zero, Operand.operands, List.getElem?_cons_zero, and_true]
      simpa [lambdaComponents, hsecond] using h
    · have hne : body' ≠ .var name := by
        rintro rfl
        simp [looksLikeLambdaVariable, hname] at hlooks'
      simp only [hindex, List.set_cons_succ, List.set_cons_zero, Operand.operands,
        List.getElem?_cons_succ, List.getElem?_cons_zero, and_true]
      simpa [lambdaComponents, hlooks hne, hlooks'] using h

theorem occursBare_expression (operator : PlanOperator) (operands : List Operand) :
    occursBare name (.expression operator operands) =
      match operator with
      | .lambda =>
          match lambdaComponents (.expression .lambda operands) with
          | .ok components =>
              components.names.contains name ||
                ((operands.map (occursBare name))[components.bodyIndex]?).getD true
          | .error _ => true
      | .getField => ((operands.map (occursBare name)).take 1).all id
      | .setField => ((operands.map (occursBare name)).drop 1).all id
      | _ => (operands.map (occursBare name)).all id := by
  rw [occursBare, Operand.fold_expression]

theorem allChooseAlike_expression (operator : PlanOperator) (operands : List Operand)
    (isBound : String → Bool) :
    allChooseAlike name literal (.expression operator operands) isBound =
      (choosesAlike isBound operator operands (substitutedOperands name operator operands
          (operands.map (substitute name literal))) &&
        match operator with
        | .lambda =>
            match lambdaComponents (.expression .lambda operands) with
            | .ok components =>
                components.names.contains name ||
                  ((operands.map (allChooseAlike name literal))[components.bodyIndex]?).all
                    fun body => body fun other => isBound other || components.names.contains other
            | .error _ => true
        | .getField => ((operands.map (allChooseAlike name literal)).take 1).all (· isBound)
        | .setField => ((operands.map (allChooseAlike name literal)).drop 1).all (· isBound)
        | _ => (operands.map (allChooseAlike name literal)).all (· isBound)) := by
  rw [allChooseAlike, Operand.fold_expression]

/-- The operators a substitution goes through in every operand. -/
def isTransparent : PlanOperator → Bool
  | .lambda | .getField | .setField => false
  | _ => true

theorem substitutedOperands_of_isTransparent {operator : PlanOperator} {operands each : List Operand}
    (h : isTransparent operator = true) :
    substitutedOperands name operator operands each = each := by
  unfold substitutedOperands
  split <;> first | contradiction | rfl

theorem occursBare_operands {operator : PlanOperator} {operands : List Operand}
    (h : isTransparent operator = true)
    (hbare : occursBare name (.expression operator operands) = true) :
    ∀ operand ∈ operands, occursBare name operand = true := by
  rw [occursBare_expression] at hbare
  split at hbare <;> first | contradiction | simpa using hbare

theorem allChooseAlike_operands {operator : PlanOperator} {operands : List Operand}
    {isBound : String → Bool} (h : isTransparent operator = true)
    (halike : allChooseAlike name literal (.expression operator operands) isBound = true) :
    choosesAlike isBound operator operands (operands.map (substitute name literal)) = true ∧
      ∀ operand ∈ operands, allChooseAlike name literal operand isBound = true := by
  rw [allChooseAlike_expression, substitutedOperands_of_isTransparent h] at halike
  obtain ⟨hchoice, halike⟩ := Bool.and_eq_true_iff.mp halike
  refine ⟨hchoice, ?_⟩
  split at halike <;> first | contradiction | simpa using halike

variable {scope : Scope} {v : Value}

/-- Whether a substituted operand is certainly a double does not depend on the
variable being bound. -/
theorem isDoubleOperand_substitute {operand : Operand} (hbare : occursBare name operand = true) :
    isDoubleOperand (scope.set name v).isBound (substitute name literal operand) =
      isDoubleOperand scope.isBound (substitute name literal operand) := by
  cases operand with
  | value v => rfl
  | expression operator operands => rw [substitute_expression]; rfl
  | var other =>
      rw [substitute_var]
      split
      · rfl
      · rename_i hother
        have hroot : referenceRoot other ≠ name := by
          simpa [occursBare, hother] using hbare
        simp [isDoubleOperand, isDocumentField, Scope.isBound_set, hroot]

theorem arithmeticMode_substitute {operator : PlanOperator} {operands : List Operand}
    (hbare : ∀ operand ∈ operands, occursBare name operand = true) :
    arithmeticMode (scope.set name v).isBound operator (operands.map (substitute name literal)) =
      arithmeticMode scope.isBound operator (operands.map (substitute name literal)) := by
  have hdouble : (operands.map (substitute name literal)).any
      (isDoubleOperand (scope.set name v).isBound) =
      (operands.map (substitute name literal)).any (isDoubleOperand scope.isBound) := by
    rw [Bool.eq_iff_iff, List.any_eq_true, List.any_eq_true]
    refine exists_congr fun operand => and_congr_right fun hmem => ?_
    obtain ⟨inner, hinner, rfl⟩ := List.mem_map.mp hmem
    rw [isDoubleOperand_substitute (hbare inner hinner)]
  rw [arithmeticMode, arithmeticMode, hdouble]

/-- A bound variable is no document field, and neither is the literal in its place. -/
theorem isDocumentField_substitute {operand : Operand} (hname : isBareName name = true)
    (hbare : occursBare name operand = true) :
    isDocumentField (scope.set name v).isBound operand =
      isDocumentField scope.isBound (substitute name literal operand) := by
  cases operand with
  | value v => rfl
  | expression operator operands => rw [substitute_expression]; rfl
  | var other =>
      rw [substitute_var]
      by_cases hother : other = name
      · subst hother
        simp [isDocumentField, Scope.isBound_set, referenceRoot_of_isBareName hname]
      · have hroot : referenceRoot other ≠ name := by
          simpa [occursBare, hother] using hbare
        simp [isDocumentField, Scope.isBound_set, hroot, hother]

variable [Double.Rounding]

/-- A lambda's body under a bound variable, and the substituted lambda's body, agree
on every item. -/
theorem lambda_alike {operator operator' : PlanOperator} {operands operands' : List Operand}
    {lambda : Operand} {components : LambdaComponents} (hname : isBareName name = true)
    (hlambda : operands[1]? = some lambda)
    (hlambda' : operands'[1]? = some (substitute name literal lambda))
    (hcomponents : lambdaComponents lambda = .ok components)
    (hbare : occursBare name lambda = true)
    (halike : allChooseAlike name literal lambda (scope.set name (.ofJson literal)).isBound = true)
    (ih : ∀ body ∈ lambda.operands, occursBare name body = true → ∀ scope : Scope,
      allChooseAlike name literal body (scope.set name (.ofJson literal)).isBound = true →
        evaluate body (scope.set name (.ofJson literal)) =
          evaluate (substitute name literal body) scope) :
    ∃ l₁ l₂,
      lambdaOf (callOf operator operands (scope.set name (.ofJson literal))) = .ok l₁ ∧
        lambdaOf (callOf operator' operands' scope) = .ok l₂ ∧ l₁.alike l₂ ∧
          l₁.arity = components.names.length := by
  obtain ⟨inner, body, rfl, hbody, -, -⟩ := lambdaComponents_cases hcomponents
  obtain ⟨hcomponents', hbody'⟩ :=
    @lambdaComponents_substitute name literal _ body _ hname hcomponents hbody
  refine ⟨_, _, lambdaOf_callOf hlambda hcomponents hbody,
    lambdaOf_callOf hlambda' hcomponents' hbody', ⟨rfl, fun values hlength => ?_⟩, rfl⟩
  dsimp only at hlength ⊢
  rw [Scope.bindVariables_set hlength]
  by_cases hhidden : name ∈ components.names
  · simp [hhidden]
  · simp only [hhidden, if_false, List.contains_iff_mem]
    have hbound : (fun other => (scope.set name (.ofJson literal)).isBound other ||
        components.names.contains other) =
        ((scope.bindVariables components.names values).set name (.ofJson literal)).isBound := by
      funext other
      rw [← Scope.isBound_bindVariables hlength, Scope.bindVariables_set hlength, if_neg hhidden]
    refine ih body (List.mem_of_getElem? hbody) ?_ _ ?_
    · simpa [occursBare_expression, hcomponents, hhidden, hbody] using hbare
    · rw [allChooseAlike_expression] at halike
      rw [← hbound]
      simpa [hcomponents, hhidden, hbody] using (Bool.and_eq_true_iff.mp halike).2

/-- Entries of a map literal whose values evaluate alike make the same map. -/
theorem structLoop_substitute {operands : List Operand} {entries : List (String × Value)}
    (hentries : ∀ operand ∈ operands, isStructEntry operand = true)
    (hvalues : ∀ operand ∈ operands, ∀ v, operand.operands[1]? = some v →
      evaluate v (scope.set name (.ofJson literal)) = evaluate (substitute name literal v) scope) :
    structLoop (scope.set name (.ofJson literal)) entries
        (operands.map fun operand => (operand, operand.operands.map evaluate)) =
      structLoop scope entries ((operands.map (substitute name literal)).map fun operand =>
        (operand, operand.operands.map evaluate)) := by
  induction operands generalizing entries with
  | nil => rfl
  | cons operand operands ih =>
      obtain ⟨hentry, hrestEntries⟩ := List.forall_mem_cons.mp hentries
      obtain ⟨hvalue, hrestValues⟩ := List.forall_mem_cons.mp hvalues
      obtain ⟨key, v, rfl⟩ := isStructEntry_eq_true hentry
      have hrun := hvalue v rfl
      simp only [List.map_cons, substitute_expression, substitutedOperands, List.map_nil,
        Operand.operands, structLoop, entryKey, List.take_succ_cons, List.take_zero,
        List.drop_succ_cons, List.drop_zero, List.cons_append, List.nil_append,
        List.getElem?_cons_succ, List.getElem?_cons_zero, hrun]
      cases evaluate (substitute name literal v) scope with
      | error thrown => rfl
      | ok outcome =>
          cases outcome with
          | error => rfl
          | value v =>
              simp only [bind, Except.bind]
              split
              · rfl
              · exact ih hrestEntries hrestValues

/-- A node and its substituted form make alike calls. -/
theorem alike_callOf {operator : PlanOperator} {operands : List Operand} {v : Value}
    (hname : isBareName name = true)
    (hbare : ∀ operand ∈ operands, occursBare name operand = true)
    (hchoice : choosesAlike (scope.set name v).isBound operator operands
      (operands.map (substitute name literal)) = true)
    (hresults : operands.map (evaluate · (scope.set name v)) =
      (operands.map (substitute name literal)).map (evaluate · scope)) :
    (callOf operator operands (scope.set name v)).Alike
      (callOf operator (operands.map (substitute name literal)) scope) where
  operator := rfl
  results := by simpa [callOf, Function.comp_def] using hresults
  nullIsMissing := rfl
  now := rfl
  temporalKinds := by
    rw [callOf, callOf, List.map_map]
    exact (List.map_congr_left fun operand _ => temporalKindOf_substitute operand).symm
  mode := by
    intro harithmetic
    obtain ⟨arithmetic, harithmetic⟩ := Option.isSome_iff_exists.mp harithmetic
    simp only [callOf] at harithmetic ⊢
    simp only [choosesAlike, harithmetic, Bool.or_eq_true, Bool.and_eq_true, decide_eq_true_eq,
      arithmeticMode_substitute hbare] at hchoice
    refine hchoice.imp_right fun hloose => ⟨hloose.1, ?_⟩
    rintro rfl
    obtain rfl : ArithmeticOperator.mod = arithmetic := Option.some.inj harithmetic
    simpa using hloose.2
  divisor := by
    simp only [callOf, List.getElem?_map, Option.any_map]
    cases hoperand : operands[1]? with
    | none => rfl
    | some operand =>
        exact isDocumentField_substitute hname (hbare operand (List.mem_of_getElem? hoperand))
  rendering := by
    intro hstring
    obtain rfl : operator = .string := hstring
    simp only [callOf, List.getElem?_map]
    simpa [choosesAlike, arithmeticOperator] using hchoice

/-- A macro's lambda, and a map literal's entries, go through the substitution. -/
theorem innerAlike_callOf {operator : PlanOperator} {operands : List Operand}
    (hname : isBareName name = true) (hoperator : validateOperator operator operands = .ok ())
    (hbare : ∀ operand ∈ operands, occursBare name operand = true)
    (halike : ∀ operand ∈ operands,
      allChooseAlike name literal operand (scope.set name (.ofJson literal)).isBound = true)
    (hinner : ∀ operand ∈ operands, ∀ inner ∈ operand.operands,
      occursBare name inner = true → ∀ scope : Scope,
        allChooseAlike name literal inner (scope.set name (.ofJson literal)).isBound = true →
          evaluate inner (scope.set name (.ofJson literal)) =
            evaluate (substitute name literal inner) scope) :
    (callOf operator operands (scope.set name (.ofJson literal))).InnerAlike
      (callOf operator (operands.map (substitute name literal)) scope) := by
  have hlambdas : ∀ maxVariables, validateMacro maxVariables operator operands = .ok () →
      ∃ l₁ l₂, lambdaOf (callOf operator operands (scope.set name (.ofJson literal))) = .ok l₁ ∧
        lambdaOf (callOf operator (operands.map (substitute name literal)) scope) = .ok l₂ ∧
          l₁.alike l₂ ∧ (l₁.arity = 1 ∨ l₁.arity = 2) ∧ l₁.arity ≤ maxVariables := by
    intro maxVariables hlambdas
    unfold validateMacro at hlambdas
    cases hlambda : operands[1]? with
    | none => simp [hlambda] at hlambdas
    | some lambda =>
        simp only [hlambda, Except.bind_eq_ok_iff, Except.throwWhen_eq_ok_iff,
          decide_eq_false_iff_not, not_lt] at hlambdas
        obtain ⟨components, hcomponents, hmax⟩ := hlambdas
        have hmem := List.mem_of_getElem? hlambda
        obtain ⟨_, _, -, -, harity, -⟩ := lambdaComponents_cases hcomponents
        obtain ⟨l₁, l₂, h₁, h₂, hl, hlength⟩ := @lambda_alike name literal scope _ operator operator
          operands (operands.map (substitute name literal)) lambda components hname hlambda
          (by simp [hlambda]) hcomponents (hbare lambda hmem) (halike lambda hmem)
          (hinner lambda hmem)
        exact ⟨l₁, l₂, h₁, h₂, hl, by rwa [hlength], by rwa [hlength]⟩
  refine ⟨?_, ?_, ?_⟩
  · intro hquantifier
    have hvalid : validateMacro 2 operator operands = .ok () := by
      rcases hquantifier with h | h | h <;> obtain rfl := h <;> exact hoperator
    obtain ⟨l₁, l₂, h₁, h₂, hl, harity, -⟩ := hlambdas 2 hvalid
    exact ⟨l₁, l₂, h₁, h₂, hl, harity⟩
  · intro hcomprehension
    have hvalid : validateMacro 1 operator operands = .ok () := by
      rcases hcomprehension with h | h <;> obtain rfl := h <;> exact hoperator
    obtain ⟨l₁, l₂, h₁, h₂, hl, harity, hmax⟩ := hlambdas 1 hvalid
    exact ⟨l₁, l₂, h₁, h₂, hl, by omega⟩
  · intro hstruct
    obtain rfl : operator = .struct := hstruct
    have hentries : ∀ operand ∈ operands, isStructEntry operand = true := by
      simpa [validateOperator, validateStruct] using hoperator
    rw [evaluateStruct, evaluateStruct]
    simp only [callOf, ← List.map_prod_left_eq_zip]
    refine structLoop_substitute hentries fun operand hmem v hv => ?_
    obtain ⟨key, v', rfl⟩ := isStructEntry_eq_true (hentries operand hmem)
    obtain rfl : v' = v := by simpa [Operand.operands] using hv
    refine hinner _ hmem v' (by simp [Operand.operands]) ?_ scope ?_
    · have := hbare _ hmem
      rw [occursBare_expression] at this
      simpa using this
    · have := halike _ hmem
      rw [allChooseAlike_expression] at this
      simpa using (Bool.and_eq_true_iff.mp this).2

/-- Under the choices of the tree coming out alike, binding the variable and
substituting the literal evaluate alike, in every scope. -/
theorem evaluate_substitute {body : Operand} {parentOperator : Option PlanOperator}
    (hname : isBareName name = true) (hproto : name ≠ "__proto__")
    (hvalid : validateStructure body parentOperator = .ok ())
    (hbare : occursBare name body = true) (scope : Scope)
    (halike : allChooseAlike name literal body (scope.set name (.ofJson literal)).isBound = true) :
    evaluate body (scope.set name (.ofJson literal)) =
      evaluate (substitute name literal body) scope := by
  induction body using Operand.inductionTwo generalizing parentOperator scope with
  | value v => rfl
  | var other =>
      rw [substitute_var]
      by_cases hother : other = name
      · subst hother
        rw [if_pos rfl, evaluate_var, evaluate_value, lookUp_set_self hname hproto]
      · have hroot : referenceRoot other ≠ name := by
          simpa [occursBare, hother] using hbare
        rw [if_neg hother, evaluate_var, evaluate_var, lookUp_set_of_ne hname hroot]
  | expression operator operands ih ihInner =>
      obtain ⟨hoperator, hoperands⟩ := validateStructure_expression hvalid
      have hinner : ∀ operand ∈ operands, ∀ inner ∈ operand.operands,
          occursBare name inner = true → ∀ scope : Scope,
            allChooseAlike name literal inner (scope.set name (.ofJson literal)).isBound = true →
              evaluate inner (scope.set name (.ofJson literal)) =
                evaluate (substitute name literal inner) scope := by
        intro operand hmem inner hinner hbare scope halike
        cases operand with
        | value v => cases hinner
        | var other => cases hinner
        | expression operator' operands' =>
            exact ihInner _ hmem inner hinner
              ((validateStructure_expression (hoperands _ hmem)).2 inner hinner) hbare scope halike
      rw [substitute_expression, evaluate_expression, evaluate_expression]
      cases htransparent : isTransparent operator with
      | false =>
          cases operator <;> first | contradiction | skip
          case lambda => rfl
          case setField => rfl
          case getField =>
            cases operands with
            | nil => rfl
            | cons target rest =>
                rw [occursBare_expression] at hbare
                rw [allChooseAlike_expression] at halike
                have htarget := ih target List.mem_cons_self (hoperands target List.mem_cons_self)
                  (by simpa using hbare) scope (by simpa using (Bool.and_eq_true_iff.mp halike).2)
                simp only [evaluateOperator, evaluateGetField, Call.arg, Call.operandAt, callOf,
                  substitutedOperands, List.map_cons, List.take_succ_cons, List.take_zero,
                  List.drop_succ_cons, List.drop_zero, List.cons_append, List.nil_append,
                  List.getElem?_cons_zero, List.getElem?_cons_succ, htarget]
                rfl
      | true =>
          have hbares := occursBare_operands htransparent hbare
          obtain ⟨hchoice, halikes⟩ := allChooseAlike_operands htransparent halike
          rw [substitutedOperands_of_isTransparent htransparent]
          have hresults : operands.map (evaluate · (scope.set name (.ofJson literal))) =
              (operands.map (substitute name literal)).map (evaluate · scope) := by
            rw [List.map_map]
            exact List.map_congr_left fun operand hmem =>
              ih operand hmem (hoperands operand hmem) (hbares operand hmem) scope
                (halikes operand hmem)
          exact evaluateOperator_of_alike
            (alike_callOf hname hbares hchoice hresults)
            (innerAlike_callOf hname hoperator hbares halikes hinner)
            (by rintro rfl; contradiction)

end Tree

/-! ## The two forms of a quantifier -/

/-- Whether a variable is bound once the scope binds one more. -/
def boundWith (isBound : String → Bool) (name : String) : String → Bool := fun other =>
  isBound other || other = name

/-- The loop of `exists` stops on the first true body, as an `or` chain does, and the loop of
`all` on the first false one, as an `and` chain does. -/
theorem quantifierLoop_eq (isExists : Bool) (trueCount : Nat) (sawError : Bool)
    (results : List Result) :
    quantifierLoop (if isExists then .exists else .all) trueCount sawError results =
      junctionLoop isExists sawError results := by
  induction results generalizing trueCount sawError with
  | nil => cases isExists <;> rfl
  | cons result results ih =>
      rw [quantifierLoop.eq_def, junctionLoop]
      cases result with
      | error thrown => rfl
      | ok outcome =>
          simp only [bind, Except.bind]
          cases isExists <;> cases outcome.asBoolean <;> first | rfl | exact ih _ _

section Forms

variable [Double.Rounding] {items : List Json} {lambda body : Operand} {components : LambdaComponents}
  {name : String} {scope : Scope}

/-- A quantifier over a literal list loops over its bodies' evaluations. -/
theorem quantifier_literalList (q : Quantifier) (operator : PlanOperator)
    (hcomponents : lambdaComponents lambda = .ok components) (hnames : components.names = [name])
    (hbody : lambda.operands[components.bodyIndex]? = some body) :
    quantifier q (callOf operator [.value (.array items), lambda] scope) =
      quantifierLoop q 0 false
        (items.map fun item => evaluate body (scope.set name (.ofJson item))) := by
  have hlambda : lambdaOf (callOf operator [.value (.array items), lambda] scope) = .ok _ :=
    lambdaOf_callOf rfl hcomponents hbody
  have htarget : (callOf operator [.value (.array items), lambda] scope).arg 0 "collection" =
      .ok (.value (.array (items.map .ofJson))) := by
    simp [Call.arg, callOf, Value.ofJson, Value.ofJsonList_eq_map]
  simp only [quantifier, hlambda, htarget, hnames, bind, Except.bind, List.length_singleton,
    OfNat.one_ne_ofNat, if_false, macroItems, Option.map_some, List.map_map]
  rfl

/-- Each body under its element evaluates as the body with the element in the
variable's place. -/
theorem evaluate_bodies (hname : isBareName name = true) (hproto : name ≠ "__proto__")
    {parentOperator : Option PlanOperator}
    (hvalid : validateStructure body parentOperator = .ok ()) (hbare : occursBare name body = true)
    (halike : ∀ item ∈ items,
      allChooseAlike name item body (boundWith scope.isBound name) = true) :
    items.map (fun item => evaluate body (scope.set name (.ofJson item))) =
      (items.map (substitute name · body)).map (evaluate · scope) := by
  rw [List.map_map]
  refine List.map_congr_left fun item hmem => evaluate_substitute hname hproto hvalid hbare scope ?_
  have hbound : (scope.set name (.ofJson item)).isBound = boundWith scope.isBound name :=
    funext fun other => Scope.isBound_set
  rw [hbound]
  exact halike item hmem

end Forms

/-! ## A modulo of the variable -/

/-- `[5].exists(t, t % 2 == 1)`. -/
def oddElement : Operand :=
  .expression .exists [.value (.array [.number 5]), .expression .lambda [oddBody, .var "t"]]
where
  oddBody : Operand :=
    .expression .eq [.expression .mod [.var "t", .value (.number 2)], .value (.number 1)]

/-- `["a", "b"].exists(t, R.team == t)`. -/
def teamElement : Operand :=
  .expression .exists
    [.value (.array [.string "a", .string "b"]), .expression .lambda [teamBody, .var "t"]]
where
  teamBody : Operand := .expression .eq [.var "R.team", .var "t"]

end QueryPlanAdapters.Convex
