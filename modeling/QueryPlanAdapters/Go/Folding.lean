import QueryPlanAdapters.Go.Binding
import QueryPlanAdapters.Go.Rewrites
import QueryPlanAdapters.Go.ScalarContainer

/-!
# Go: macros over known elements

An `exists` or `all` over a literal list, or over the elements of `list(…)`, is unrolled
into the junction of its bodies, and is UNKNOWN where an element does not evaluate. The
junction is CEL's macro, unless a lambda of the body captures a name that an element reads,
or an element that is computed is null.
-/

namespace QueryPlanAdapters.Go

open Sql

theorem exists_mem_of_forall₂ {α β : Type} {R : α → β → Prop} {as : List α} {bs : List β}
    (h : List.Forall₂ R as bs) : ∀ b ∈ bs, ∃ a ∈ as, R a b := by
  induction h with
  | nil => exact nofun
  | cons hab _ ih =>
      intro b hb
      obtain rfl | hb := List.mem_cons.mp hb
      · exact ⟨_, List.mem_cons_self, hab⟩
      · obtain ⟨a, ha, hR⟩ := ih b hb
        exact ⟨a, List.mem_cons_of_mem _ ha, hR⟩

/-! ## Replacing a variable by an element -/

section Elements

variable {functions : Functions} {env : Valuation} {name : String} {body body' : Node}

variable {reference : String}

theorem readsVariable_self (name : String) : readsVariable name name = true := by
  simp [readsVariable]

theorem lookup_ofPlanFields (fields : List (String × Literal)) (key : String) :
    (Value.ofPlanFields fields).lookup key = (fields.lookup key).map Value.ofPlan := by
  induction fields with
  | nil => rfl
  | cons field fields ih =>
      obtain ⟨key', v⟩ := field
      rw [Value.ofPlanFields, List.lookup_cons, List.lookup_cons, ih]
      cases key == key' <;> rfl

/-- A path that is resolved inside a literal reads what CEL reads there. -/
theorem getField_elementAt {segments : List String} {v u : Literal}
    (h : elementAt reference v segments = .ok u) :
    segments.foldl getField (literalValue v) = literalValue u := by
  induction segments generalizing v with
  | nil =>
      obtain rfl := Except.ok.inj h
      rfl
  | cons segment segments ih =>
      cases v with
      | object fields =>
          rw [elementAt] at h
          split at h
          next field hfield =>
            have hget : getField (literalValue (.object fields)) segment = literalValue field := by
              simp only [literalValue, Value.ofPlan, getField, lookup_ofPlanFields, hfield,
                Option.map_some]
            rw [List.foldl_cons, hget]
            exact ih h
          next => cases h
      | _ => cases h

/-- What a literal element puts in a reference's place. -/
theorem literal_replaces {element : Literal} {n' : Node}
    (h : (if reference = name then .ok (.value element)
      else match cutPrefix reference (name ++ ".") with
        | some rest =>
            if rest = "" then .ok (.var reference)
            else do return .value (← elementAt reference element (pathParts rest))
        | none => .ok (.var reference) : Except Failure Node) = .ok n') :
    (readsVariable name reference = false ∧ n' = .var reference) ∨
      readsVariable name reference = true ∧ ∃ u, n' = .value u ∧ ∀ env : Valuation,
        env.bind name (.ofPlan element) reference = literalValue u := by
  split at h
  next hname =>
    subst hname
    obtain rfl := Except.ok.inj h
    exact .inr ⟨readsVariable_self _, element, rfl, fun env => if_pos rfl⟩
  next hname =>
    split at h
    next rest hrest =>
      split at h
      next hempty =>
        obtain rfl := Except.ok.inj h
        exact .inl ⟨by simp [readsVariable, hname, hrest, hempty], rfl⟩
      next hempty =>
        obtain ⟨u, hu, h⟩ := Except.bind_eq_ok_iff.mp h
        obtain rfl := Except.ok.inj h
        refine .inr ⟨by simp [readsVariable, hname, hrest, hempty], u, rfl, fun env => ?_⟩
        rw [Valuation.bind, if_neg hname, hrest]
        show (if rest = "" then _ else _) = _
        rw [if_neg hempty]
        exact getField_elementAt hu
    next hrest =>
      obtain rfl := Except.ok.inj h
      exact .inl ⟨by simp [readsVariable, hname, hrest], rfl⟩

/-- A literal element replaces the variable by what it is bound to. -/
theorem meaning_substituteLambdaVariable {element : Literal}
    (hcapture : CaptureFree name [] body)
    (h : substituteLambdaVariable body name element = .ok body') :
    meaning functions body' env = meaning functions body (env.bind name (.ofPlan element)) := by
  refine @meaning_substituted functions _ name [] body body' env _ ⟨?_, ?_, ?_⟩ hcapture h
    (fun reference hname => Valuation.bind_of_not_reads hname) ?_
  · intro reference n' hname h
    obtain ⟨-, rfl⟩ | ⟨hreads, -⟩ := literal_replaces h
    · rfl
    · rw [hname] at hreads
      cases hreads
  · intro reference n' h
    obtain ⟨-, rfl⟩ | ⟨-, u, rfl, -⟩ := literal_replaces h <;> rfl
  · intro reference n' hname h
    obtain ⟨hnot, -⟩ | ⟨-, u, rfl, -⟩ := literal_replaces h
    · rw [hname] at hnot
      cases hnot
    · exact nofun
  · intro reference hr hname r' h
    obtain ⟨hnot, -⟩ | ⟨-, u, rfl, hbind⟩ := literal_replaces h
    · rw [hname] at hnot
      cases hnot
    · exact (hbind env).symm

/-- What an element that is computed puts in a reference's place. -/
theorem node_replaces {element : Node} {n' : Node} (h : (if reference = name then .ok element
      else if startsWithText reference (name ++ ".") then
        errorf "cannot select %q from a computed list element" [.string reference]
      else .ok (.var reference) : Except Failure Node) = .ok n') :
    (readsVariable name reference = false ∧ n' = .var reference) ∨
      reference = name ∧ n' = element := by
  split at h
  next hname =>
    obtain rfl := Except.ok.inj h
    exact .inr ⟨hname, rfl⟩
  next hname =>
    split at h
    · cases h
    next hpath =>
      obtain rfl := Except.ok.inj h
      refine .inl ⟨?_, rfl⟩
      simp [readsVariable, hname, cutPrefix, hpath]

/-- An element that is computed replaces the variable by its value, if nothing captures what
the element reads. -/
theorem meaning_substituteLambdaNode {element : Node} {v : Value}
    (hlambda : isLambda element = false)
    (hcapture : CaptureFree name (freeReferences element) body)
    (h : substituteLambdaNode body name element = .ok body')
    (hvalue : meaning functions element env = .value v) :
    meaning functions body' env = meaning functions body (env.bind name v) := by
  refine @meaning_substituted functions _ name (freeReferences element) body body' env _
    ⟨?_, ?_, ?_⟩ hcapture h
    (fun reference hname => Valuation.bind_of_not_reads hname) ?_
  · intro reference n' hname h
    obtain ⟨-, rfl⟩ | ⟨rfl, -⟩ := node_replaces h
    · rfl
    · rw [readsVariable_self] at hname
      cases hname
  · intro reference n' h
    obtain ⟨-, rfl⟩ | ⟨-, rfl⟩ := node_replaces h
    · rfl
    · exact hlambda
  · intro reference n' hname h
    obtain ⟨hnot, -⟩ | ⟨-, rfl⟩ := node_replaces h
    · rw [hname] at hnot
      cases hnot
    · exact fun r hr => hr
  · intro reference hr hname r' h
    obtain ⟨hnot, -⟩ | ⟨rfl, rfl⟩ := node_replaces h
    · rw [hname] at hnot
      cases hnot
    · rw [hvalue]
      exact (if_pos rfl).symm

end Elements

/-! ## The elements of a list -/

/-- Whether the lowering takes an element to evaluate on a row. -/
def isPresent (engine : Engine) (db : Database) (env : RowEnv) : Val → Bool
  | .constant _ => true
  | v =>
      match asExpr v with
      | .ok x => (explicitNullColumn x).isSome || !(x.eval engine db env).isNull
      | .error _ => true

section Presence

variable {engine : Engine} {db : Database} {env : RowEnv}

variable {v : Val} {vs : List Val}

theorem isPresent_of_asExpr {x : Expr} (hconstant : ∀ c, v ≠ .constant c) (h : asExpr v = .ok x) :
    isPresent engine db env v =
      ((explicitNullColumn x).isSome || !(x.eval engine db env).isNull) := by
  unfold isPresent
  split
  next c => exact absurd rfl (hconstant c)
  next => rw [h]

theorem elementsDefined_cons (hconstant : ∀ c, v ≠ .constant c) :
    elementsDefined (v :: vs) = do
      let x ← asExpr v
      let defined ← elementsDefined vs
      return if (explicitNullColumn x).isSome then defined else .isNull x true :: defined := by
  cases v <;> first | rfl | exact absurd rfl (hconstant _)

/-- The guard of a list holds where every element is present. -/
theorem truth_elementsDefined {vs : List Val} {defined : List Expr}
    (h : elementsDefined vs = .ok defined) :
    Truth.all (defined.map fun x => x.truth engine db env) =
      .ofBool (vs.all (isPresent engine db env)) := by
  induction vs generalizing defined with
  | nil =>
      obtain rfl := Except.ok.inj h
      rfl
  | cons v vs ih =>
      by_cases hconstant : ∀ c, v ≠ .constant c
      · rw [elementsDefined_cons hconstant] at h
        obtain ⟨x, hx, h⟩ := Except.bind_eq_ok_iff.mp h
        obtain ⟨rest, hrest, h⟩ := Except.bind_eq_ok_iff.mp h
        obtain rfl := Except.ok.inj h
        rw [List.all_cons, isPresent_of_asExpr hconstant hx]
        cases hexplicit : (explicitNullColumn x).isSome with
        | true => simpa using ih hrest
        | false =>
            simp only [Bool.false_eq_true, if_false, List.map_cons, Truth.all_cons,
              Expr.truth_isNull, Bool.xor_true, Bool.false_or, ih hrest, Truth.and_ofBool]
      · obtain ⟨c, rfl⟩ : ∃ c, v = .constant c := by simpa using hconstant
        rw [List.all_cons]
        exact ih h

theorem truth_listWhenDefined {defined : List Expr}
    (h : elementsDefined vs = .ok defined) (e : Expr) :
    (listWhenDefined (if defined.isEmpty then none else some (.and defined)) e).truth engine db env =
      if vs.all (isPresent engine db env) then e.truth engine db env else .unknown := by
  have hguard := @truth_elementsDefined engine db env _ _ h
  cases defined with
  | nil =>
      have hall : vs.all (isPresent engine db env) = true := Truth.ofBool_inj.mp hguard.symm
      rw [hall]
      rfl
  | cons d ds =>
      show (Expr.case [(.and (d :: ds), e)] none).truth engine db env = _
      rw [Expr.truth_case_singleton, Expr.truth_combine, if_pos rfl, hguard]
      cases vs.all (isPresent engine db env) <;> rfl

/-- The value of an element against what it is lowered to: a constant is itself, a column that
declares its NULL to be a null never errs, and any other NULL is an error or a null. -/
def Carried (engine : Engine) (db : Database) (env : RowEnv) (isDeclared : Bool) (v : Val)
    (o : Outcome) : Prop :=
  match v with
  | .constant c => isDeclared = true ∧ o = literalValue c
  | v => ∀ x, asExpr v = .ok x → (explicitNullColumn x).isSome = isDeclared ∧
      if isDeclared then o ≠ .error
      else ((x.eval engine db env).isNull = true ↔ o = .error ∨ o = .value .null)

/-- An element is present where it evaluates, unless it is null and does not declare so. -/
theorem Carried.isPresent_iff {isDeclared : Bool} {o : Outcome}
    (h : Carried engine db env isDeclared v o)
    (hexpr : (∀ c, v ≠ .constant c) → ∃ x, asExpr v = .ok x) :
    isPresent engine db env v = true ↔
      o ≠ .error ∧ (o = .value .null → isDeclared = true) := by
  by_cases hconstant : ∀ c, v ≠ .constant c
  · obtain ⟨x, hx⟩ := hexpr hconstant
    unfold Carried at h
    split at h
    next c => exact absurd rfl (hconstant c)
    next =>
      obtain ⟨hexplicit, hvalue⟩ := h x hx
      rw [isPresent_of_asExpr hconstant hx, hexplicit]
      cases isDeclared with
      | true =>
          rw [if_pos rfl] at hvalue
          exact iff_of_true rfl ⟨hvalue, fun _ => rfl⟩
      | false =>
          rw [if_neg Bool.false_ne_true] at hvalue
          rw [Bool.false_or, Bool.not_eq_true', ← Bool.not_eq_true, hvalue]
          simp
  · obtain ⟨c, rfl⟩ : ∃ c, v = .constant c := by simpa using hconstant
    obtain ⟨rfl, rfl⟩ := h
    exact iff_of_true rfl ⟨nofun, fun _ => rfl⟩

theorem asExpr_of_elementsDefined {defined : List Expr} (h : elementsDefined vs = .ok defined) :
    ∀ v ∈ vs, (∀ c, v ≠ .constant c) → ∃ x, asExpr v = .ok x := by
  induction vs generalizing defined with
  | nil => exact nofun
  | cons v vs ih =>
      by_cases hconstant : ∀ c, v ≠ .constant c
      · rw [elementsDefined_cons hconstant] at h
        obtain ⟨x, hx, h⟩ := Except.bind_eq_ok_iff.mp h
        obtain ⟨rest, hrest, -⟩ := Except.bind_eq_ok_iff.mp h
        intro v' hv' hconstant'
        obtain rfl | hv' := List.mem_cons.mp hv'
        · exact ⟨x, hx⟩
        · exact ih hrest v' hv' hconstant'
      · obtain ⟨c, rfl⟩ : ∃ c, v = .constant c := by simpa using hconstant
        intro v' hv' hconstant'
        obtain rfl | hv' := List.mem_cons.mp hv'
        · exact absurd rfl (hconstant' c)
        · exact ih h v' hv' hconstant'

/-- The list is present where each of its elements is. -/
theorem all_isPresent_iff {elements : List Node} {declared : Node → Bool} {outcome : Node → Outcome}
    {vs : List Val}
    (h : List.Forall₂ (fun element v => isLambda element = false ∧
      Carried engine db env (declared element) v (outcome element)) elements vs)
    (hexpr : ∀ v ∈ vs, (∀ c, v ≠ .constant c) → ∃ x, asExpr v = .ok x) :
    vs.all (isPresent engine db env) = true ↔ ∀ element ∈ elements,
      outcome element ≠ .error ∧ (outcome element = .value .null → declared element = true) := by
  induction h with
  | nil => simp
  | cons helement _ ih =>
      obtain ⟨hv, hvs⟩ := List.forall_mem_cons.mp hexpr
      rw [List.all_cons, Bool.and_eq_true, List.forall_mem_cons, helement.2.isPresent_iff hv, ih hvs]

theorem constantList_eq_some {items : List Literal}
    (h : constantList vs = some items) : vs = items.map Val.constant := by
  induction vs generalizing items with
  | nil =>
      obtain rfl := Option.some.inj h
      rfl
  | cons v vs ih =>
      rw [constantList, List.mapM_cons] at h
      obtain ⟨c, hc, h⟩ := Option.bind_eq_some_iff.mp h
      obtain ⟨cs, hcs, h⟩ := Option.bind_eq_some_iff.mp h
      obtain rfl := Option.some.inj h
      have hv : v = .constant c := by
        cases v <;> first | exact congrArg _ (Option.some.inj hc) | cases hc
      rw [List.map_cons, hv, ih hcs]

end Presence

/-! ## Macros -/

/-- A list whose elements the plan gives: literals, or the operands of `list(…)`. -/
inductive KnownList where
  | literal (items : List Literal)
  | constructed (elements : List Node)

namespace KnownList

def node : KnownList → Node
  | literal items => .value (.array items)
  | constructed elements => .expression .list elements

/-- The elements that are nodes of their own. -/
def elements : KnownList → List Node
  | literal _ => []
  | constructed elements => elements

/-- No lambda of the body captures what an element reads. -/
def CaptureFree (name : String) (body : Node) : KnownList → Prop
  | literal _ => Go.CaptureFree name [] body
  | constructed elements =>
      ∀ element ∈ elements, Go.CaptureFree name (freeReferences element) body

/-- The bodies that the macro is unrolled into. -/
def Instance (functions : Functions) (valuation : Valuation) (name : String) (body body' : Node) :
    KnownList → Prop
  | literal items => ∃ item ∈ items, substituteLambdaVariable body name item = .ok body'
  | constructed elements => ∃ element ∈ elements,
      substituteLambdaNode body name element = .ok body' ∨
        ∃ c, meaning functions element valuation = literalValue c ∧
          substituteLambdaVariable body name c = .ok body'

end KnownList

section Macros

variable {functions : Functions} {valuation : Valuation} {operator : PlanOperator} {isAnd : Bool}

/-- The macro over the values of a list. -/
theorem meaning_foldable (hoperator : foldable operator = some isAnd) {collection : Node}
    {values : List Value} (hvalues : meaning functions collection valuation = .value (.array values))
    (body : Node) (name : String) :
    (meaning functions (.expression operator [collection, .expression .lambda [body, .var name]])
        valuation).asBoolean =
      let results := values.map fun v =>
        (meaning functions body (valuation.bind name v)).asBoolean
      if isAnd then Truth.all results else Truth.any results := by
  have hbinding : lambdaBinding operator = true := by
    cases operator <;> first | rfl | cases hoperator
  rw [meaning_overElements hbinding, hvalues]
  cases operator with
  | «exists» | all =>
      obtain rfl := Option.some.inj hoperator
      exact Outcome.asBoolean_ofTruth _
  | _ => cases hoperator

/-- A body with its variable bound to the value of an element. -/
def boundTruth (functions : Functions) (valuation : Valuation) (name : String) (body element : Node) :
    Truth :=
  (meaning functions element valuation).toValue.elim .unknown fun v =>
    (meaning functions body (valuation.bind name v)).asBoolean

/-- The values of elements, each of which has one. -/
theorem valuesOf_elements {elements : List Node}
    (h : ∀ element ∈ elements, meaning functions element valuation ≠ .error) (name : String)
    (body : Node) : ∃ values, valuesOf functions elements valuation = some values ∧
      values.map (fun v => (meaning functions body (valuation.bind name v)).asBoolean) =
        elements.map (boundTruth functions valuation name body) := by
  induction elements with
  | nil => exact ⟨[], rfl, rfl⟩
  | cons element elements ih =>
      obtain ⟨helement, helements⟩ := List.forall_mem_cons.mp h
      obtain ⟨values, hvalues, hresults⟩ := ih helements
      cases hvalue : meaning functions element valuation with
      | error => exact absurd hvalue helement
      | value v =>
          refine ⟨v :: values, ?_, ?_⟩
          · rw [valuesOf_cons, hvalue, hvalues]
            rfl
          · rw [List.map_cons, List.map_cons, hresults, boundTruth, hvalue]
            rfl

theorem valuesOf_eq_none {elements : List Node} {element : Node} (helement : element ∈ elements)
    (h : meaning functions element valuation = .error) :
    valuesOf functions elements valuation = none := by
  induction elements with
  | nil => cases helement
  | cons first elements ih =>
      rw [valuesOf_cons]
      obtain rfl | hmem := List.mem_cons.mp helement
      · rw [h]
        rfl
      · rw [ih hmem]
        cases (meaning functions first valuation).toValue <;> rfl

/-- The macro over elements that have values. -/
theorem meaning_constructed (hoperator : foldable operator = some isAnd) {elements : List Node}
    (h : ∀ element ∈ elements, meaning functions element valuation ≠ .error) (body : Node)
    (name : String) :
    (meaning functions
        (.expression operator [.expression .list elements, .expression .lambda [body, .var name]])
        valuation).asBoolean =
      let results := elements.map (boundTruth functions valuation name body)
      if isAnd then Truth.all results else Truth.any results := by
  obtain ⟨values, hvalues, hresults⟩ := valuesOf_elements h name body
  have hlist : meaning functions (.expression .list elements) valuation =
      .value (.array values) := by
    rw [meaning_strict rfl, hvalues]
    rfl
  rw [meaning_foldable hoperator hlist, hresults]

/-- The macro over an element that errs. -/
theorem meaning_constructed_error (hoperator : foldable operator = some isAnd)
    {elements : List Node} {element : Node} (helement : element ∈ elements)
    (h : meaning functions element valuation = .error) (body : Node) (name : String) :
    (meaning functions
        (.expression operator [.expression .list elements, .expression .lambda [body, .var name]])
        valuation).asBoolean = .unknown := by
  have hbinding : lambdaBinding operator = true := by
    cases operator <;> first | rfl | cases hoperator
  have hlist : meaning functions (.expression .list elements) valuation = .error := by
    rw [meaning_strict rfl, valuesOf_eq_none helement h]
    rfl
  rw [meaning_overElements hbinding, hlist]
  rfl

/-- A junction of bodies, each under the polarity of the whole. -/
theorem truth_junction {engine : Engine} {db : Database} {env : RowEnv} {parts : List Expr}
    {results : List Truth} {negated : Bool}
    (h : parts.map (fun e => e.truth engine db env) = results.map (·.polarised negated)) :
    (Expr.combine (isAnd ^^ negated) parts).truth engine db env =
      (if isAnd then Truth.all results else Truth.any results).polarised negated := by
  rw [Expr.truth_combine, h]
  cases isAnd with
  | true =>
      rw [if_pos rfl, Truth.polarised_all]
      cases negated <;> rfl
  | false =>
      rw [if_neg Bool.false_ne_true, Truth.polarised_any]
      cases negated <;> rfl

end Macros

/-! ## The translation -/

section Lowering

variable [Double.Rounding] (engine : Engine) (db : Database) (m : Mapper) (n : Nat) (env : RowEnv)
  (opts : Options) (now : Int)

/-- A condition is lowered, under either polarity, to the truth it has. -/
def LowersPredicate (cond : Node) (t : Truth) : Prop :=
  ∀ fuel s negated, n ≤ s → Yields ((builder opts now fuel).predicate cond m negated) s
    fun e s' => s ≤ s' ∧ e.truth engine db env = t.polarised negated

/-- An element is lowered to the value it has. -/
def LowersElement (element : Node) (isDeclared : Bool) (o : Outcome) : Prop :=
  ∀ fuel s, n ≤ s → Yields ((builder opts now fuel).value element m) s
    fun v s' => s ≤ s' ∧ Carried engine db env isDeclared v o

end Lowering

section Translation

variable [Double.Rounding] {engine : Engine} {db : Database} {m : Mapper} {n : Nat} {env : RowEnv}
  {opts : Options} {now : Int} {functions : Functions} {valuation : Valuation}
  {operator : PlanOperator} {isAnd negated : Bool} {name : String} {body : Node} {fuel s : Nat}

/-- The instances of a body are lowered one after the other. -/
theorem yields_instances {α : Type} {substitute : α → Except Failure Node} {as : List α}
    (hs : n ≤ s)
    (hbody : ∀ a ∈ as, ∀ body', substitute a = .ok body' →
      LowersPredicate engine db m n env opts now body'
        (meaning functions body' valuation).asBoolean) :
    Yields (as.mapM fun a => do
        let body ← (liftM (substitute a) : Translation Node)
        (builder opts now fuel).predicate body m negated) s fun parts s' =>
      List.Forall₂ (fun a e => ∃ body', substitute a = .ok body' ∧ e.truth engine db env =
        (meaning functions body' valuation).asBoolean.polarised negated) as parts ∧ s ≤ s' := by
  apply Yields.mapM le_rfl
  intro a ha s₁ hs₁
  refine (Yields.lift (P := fun body' => substitute a = .ok body') fun body' h => h).bind
    fun body' s₂ h => ?_
  obtain ⟨hsubstitute, rfl⟩ := h
  refine (hbody a ha body' hsubstitute fuel _ negated (hs.trans hs₁)).imp fun e s₃ h => ?_
  exact ⟨⟨body', hsubstitute, h.2⟩, hs₁.trans h.1⟩

omit [Double.Rounding] in
theorem lambdaParts_eq {name' : String} {body' : Node}
    (h : lambdaParts (.expression .lambda [body, .var name]) operator = .ok (body', name')) :
    body' = body ∧ name' = name := by
  rw [lambdaParts] at h
  split at h
  · cases h
  · obtain ⟨rfl, rfl⟩ := Prod.mk.inj (Except.ok.inj h)
    exact ⟨rfl, rfl⟩

/-- A macro over literals is the junction of its bodies. -/
theorem yields_foldValueListMacro (hoperator : foldable operator = some isAnd) (hs : n ≤ s)
    {items : List Literal} (hcapture : items ≠ [] → CaptureFree name [] body)
    (hbody : ∀ item ∈ items, ∀ body', substituteLambdaVariable body name item = .ok body' →
      LowersPredicate engine db m n env opts now body'
        (meaning functions body' valuation).asBoolean) :
    Yields ((builder opts now fuel).foldValueListMacro operator (.constant (.array items))
        (.expression .lambda [body, .var name]) m negated) s fun e s' =>
      s ≤ s' ∧ e.truth engine db env =
        (let results := items.map fun item =>
          (meaning functions body (valuation.bind name (.ofPlan item))).asBoolean
        if isAnd then Truth.all results else Truth.any results).polarised negated := by
  rw [Builder.foldValueListMacro.eq_def, hoperator]
  refine (Yields.lift (P := fun parts => parts.1 = body ∧ parts.2 = name) fun parts h =>
    lambdaParts_eq h).bind fun parts s₁ h => ?_
  obtain ⟨body₁, name₁⟩ := parts
  obtain ⟨⟨rfl, rfl⟩, rfl⟩ := h
  refine (yields_instances hs hbody).bind fun parts s₂ h => ?_
  obtain ⟨hparts, hle⟩ := h
  refine Yields.pure ⟨hle, truth_junction ?_⟩
  rw [List.map_map]
  apply map_eq_of_forall₂
  refine ((List.forall₂_and_left items parts).mpr ⟨fun _ h => h, hparts⟩).imp fun item e h => ?_
  obtain ⟨hitem, body', hsubstitute, htruth⟩ := h
  rw [htruth, meaning_substituteLambdaVariable (hcapture (List.ne_nil_of_mem hitem)) hsubstitute]
  rfl

/-- A macro over elements that are computed is the junction of its bodies, where each element
has a value. -/
theorem yields_foldListConstructorMacro (hoperator : foldable operator = some isAnd) (hs : n ≤ s)
    {elements : List Node} {defined : Option Expr}
    (hlambda : ∀ element ∈ elements, isLambda element = false)
    (hcapture : ∀ element ∈ elements, CaptureFree name (freeReferences element) body)
    (hbody : ∀ element ∈ elements, ∀ body', substituteLambdaNode body name element = .ok body' →
      LowersPredicate engine db m n env opts now body'
        (meaning functions body' valuation).asBoolean) :
    Yields ((builder opts now fuel).foldListConstructorMacro operator defined elements
        (.expression .lambda [body, .var name]) m negated) s fun e s' =>
      s ≤ s' ∧ ∃ junction, e = listWhenDefined defined junction ∧
        ((∀ element ∈ elements, meaning functions element valuation ≠ .error) →
          junction.truth engine db env =
            (let results := elements.map (boundTruth functions valuation name body)
            if isAnd then Truth.all results else Truth.any results).polarised negated) := by
  rw [Builder.foldListConstructorMacro.eq_def, hoperator]
  refine (Yields.lift (P := fun parts => parts.1 = body ∧ parts.2 = name) fun parts h =>
    lambdaParts_eq h).bind fun parts s₁ h => ?_
  obtain ⟨body₁, name₁⟩ := parts
  obtain ⟨⟨rfl, rfl⟩, rfl⟩ := h
  refine (yields_instances hs hbody).bind fun parts s₂ h => ?_
  obtain ⟨hparts, hle⟩ := h
  refine Yields.pure ⟨hle, _, rfl, fun hvalues => truth_junction ?_⟩
  rw [List.map_map]
  apply map_eq_of_forall₂
  refine ((List.forall₂_and_left elements parts).mpr ⟨fun _ h => h, hparts⟩).imp
    fun element e h => ?_
  obtain ⟨helement, body', hsubstitute, htruth⟩ := h
  cases hvalue : meaning functions element valuation with
  | error => exact absurd hvalue (hvalues element helement)
  | value v =>
      rw [htruth, meaning_substituteLambdaNode (hlambda element helement)
        (hcapture element helement) hsubstitute hvalue, Function.comp_apply, boundTruth, hvalue]
      rfl

/-- No element is a lambda. -/
theorem yields_value_lambda (operands : List Node) (fuel s : Nat) :
    Yields ((builder opts now fuel).value (.expression .lambda operands) m) s
      fun _ _ => False := by
  cases fuel with
  | zero => exact Yields.throw _
  | succ fuel =>
      show Yields (do
        return Val.expr (← (builder opts now fuel).predicate
          (.expression .lambda operands) m false)) s _
      refine Yields.bind (Q := fun _ _ => False) ?_ fun _ _ h => h.elim
      cases fuel with
      | zero => exact Yields.throw _
      | succ fuel => exact yields_errorf _ _

/-- The elements are lowered to their values. -/
theorem yields_elements (hs : n ≤ s) {elements : List Node} {declared : Node → Bool}
    (helements : ∀ element ∈ elements, LowersElement engine db m n env opts now element
      (declared element) (meaning functions element valuation)) :
    Yields (elements.mapM fun element => (builder opts now fuel).value element m) s fun vs s' =>
      List.Forall₂ (fun element v => isLambda element = false ∧ Carried engine db env
        (declared element) v (meaning functions element valuation)) elements vs ∧ s ≤ s' := by
  apply Yields.mapM le_rfl
  intro element helement s₁ hs₁
  cases hlambda : isLambda element with
  | true =>
      obtain ⟨operands, rfl⟩ : ∃ operands, element = .expression .lambda operands := by
        unfold isLambda at hlambda
        split at hlambda
        · exact ⟨_, rfl⟩
        · cases hlambda
      exact (yields_value_lambda operands fuel s₁).imp fun _ _ h => h.elim
  | false =>
      refine (helements element helement fuel s₁ (hs.trans hs₁)).imp fun v s₂ h => ?_
      exact ⟨⟨rfl, h.2⟩, hs₁.trans h.1⟩

/-- A list of elements is a literal where each is one, and is held back otherwise. -/
theorem yields_listConstructor (hs : n ≤ s) {elements : List Node} {declared : Node → Bool}
    (helements : ∀ element ∈ elements, LowersElement engine db m n env opts now element
      (declared element) (meaning functions element valuation)) :
    Yields ((builder opts now fuel).listConstructor elements m) s fun v s' => s ≤ s' ∧
      ((∃ items, v = .constant (.array items) ∧ List.Forall₂ (fun element item =>
          declared element = true ∧ meaning functions element valuation = literalValue item)
            elements items) ∨
        ∃ vs defined, v = .listValue (if defined.isEmpty then none else some (.and defined)) vs
            elements ∧ elementsDefined vs = .ok defined ∧
          List.Forall₂ (fun element v => isLambda element = false ∧ Carried engine db env
            (declared element) v (meaning functions element valuation)) elements vs) := by
  rw [Builder.listConstructor]
  refine (yields_elements hs helements).bind fun vs s₁ h => ?_
  obtain ⟨hvs, hle⟩ := h
  cases hconstant : constantList vs with
  | some items =>
      obtain rfl := constantList_eq_some hconstant
      refine Yields.pure ⟨hle, .inl ⟨items, rfl, ?_⟩⟩
      exact (List.forall₂_map_right_iff.mp hvs).imp fun element item h => h.2
  | none =>
      refine (Yields.lift (P := fun defined => elementsDefined vs = .ok defined)
        fun defined h => h).bind fun defined s₂ h => ?_
      obtain ⟨hdefined, rfl⟩ := h
      exact Yields.pure ⟨hle, .inr ⟨vs, defined, rfl, hdefined, hvs⟩⟩

/-- A macro over elements is CEL's where every element that is null declares so, and wherever
CEL's is an error. -/
theorem yields_constructedMacro (hoperator : foldable operator = some isAnd) (hs : n ≤ s)
    {elements : List Node} {declared : Node → Bool}
    (hcapture : ∀ element ∈ elements, CaptureFree name (freeReferences element) body)
    (helements : ∀ element ∈ elements, LowersElement engine db m n env opts now element
      (declared element) (meaning functions element valuation))
    (hbody : ∀ body', (KnownList.constructed elements).Instance functions valuation name body body' →
      LowersPredicate engine db m n env opts now body'
        (meaning functions body' valuation).asBoolean) :
    Yields ((builder opts now fuel).collectionMacro operator
        [.expression .list elements, .expression .lambda [body, .var name]] m negated) s fun e s' =>
      s ≤ s' ∧ (e.truth engine db env = (meaning functions (.expression operator
          [.expression .list elements, .expression .lambda [body, .var name]])
            valuation).asBoolean.polarised negated ↔
        (∀ element ∈ elements, meaning functions element valuation = .value .null →
            declared element = true) ∨
          (meaning functions (.expression operator
            [.expression .list elements, .expression .lambda [body, .var name]])
              valuation).asBoolean = .unknown) := by
  rw [Builder.collectionMacro]
  refine (yields_listConstructor hs helements).bind fun v s₁ h => ?_
  obtain ⟨hle, ⟨items, rfl, hitems⟩ | ⟨vs, defined, rfl, hdefined, hvs⟩⟩ := h
  · have hdeclared : ∀ element ∈ elements, declared element = true ∧
        meaning functions element valuation ≠ .error := by
      intro element helement
      obtain ⟨item, -, hdeclared, hvalue⟩ := exists_mem_of_forall₂ hitems.flip element helement
      rw [hvalue]
      exact ⟨hdeclared, nofun⟩
    have hcapture' : items ≠ [] → CaptureFree name [] body := by
      intro hne
      obtain ⟨item, rest, rfl⟩ := List.exists_cons_of_ne_nil hne
      obtain ⟨element, helement, -⟩ := exists_mem_of_forall₂ hitems item List.mem_cons_self
      exact (hcapture element helement).mono nofun
    have hbody' : ∀ item ∈ items, ∀ body', substituteLambdaVariable body name item = .ok body' →
        LowersPredicate engine db m n env opts now body'
          (meaning functions body' valuation).asBoolean := by
      intro item hitem body' hsubstitute
      obtain ⟨element, helement, -, hvalue⟩ := exists_mem_of_forall₂ hitems item hitem
      exact hbody body' ⟨element, helement, .inr ⟨item, hvalue, hsubstitute⟩⟩
    refine (yields_foldValueListMacro hoperator (hs.trans hle) hcapture' hbody').imp
      fun e s₂ h => ?_
    refine ⟨hle.trans h.1, iff_of_true ?_ (.inl fun element helement _ =>
      (hdeclared element helement).1)⟩
    have hresults : items.map (fun item =>
        (meaning functions body (valuation.bind name (.ofPlan item))).asBoolean) =
          elements.map (boundTruth functions valuation name body) := by
      apply map_eq_of_forall₂
      refine hitems.imp fun element item hitem => ?_
      rw [boundTruth, hitem.2]
      rfl
    rw [h.2, hresults, meaning_constructed hoperator fun element helement =>
      (hdeclared element helement).2]
  · have hlambda : ∀ element ∈ elements, isLambda element = false := by
      intro element helement
      obtain ⟨v, -, hv, -⟩ := exists_mem_of_forall₂ hvs.flip element helement
      exact hv
    have hbody' : ∀ element ∈ elements, ∀ body', substituteLambdaNode body name element = .ok body' →
        LowersPredicate engine db m n env opts now body'
          (meaning functions body' valuation).asBoolean := by
      intro element helement body' hsubstitute
      exact hbody body' ⟨element, helement, .inl hsubstitute⟩
    refine (yields_foldListConstructorMacro hoperator (hs.trans hle) hlambda hcapture hbody').imp
      fun e s₂ h => ?_
    obtain ⟨hle', junction, rfl, hjunction⟩ := h
    refine ⟨hle.trans hle', ?_⟩
    have hpresent := @all_isPresent_iff engine db env elements declared
      (fun element => meaning functions element valuation) vs hvs
      (asExpr_of_elementsDefined hdefined)
    rw [truth_listWhenDefined hdefined]
    by_cases herror : ∃ element ∈ elements, meaning functions element valuation = .error
    · -- The list errs, and so does the macro.
      obtain ⟨element, helement, hvalue⟩ := herror
      have hmissing : ¬ vs.all (isPresent engine db env) = true := fun hall =>
        (hpresent.mp hall element helement).1 hvalue
      rw [if_neg hmissing, meaning_constructed_error hoperator helement hvalue]
      exact iff_of_true (Truth.polarised_unknown _).symm (.inr rfl)
    · have hvalues : ∀ element ∈ elements, meaning functions element valuation ≠ .error :=
        fun element helement hvalue => herror ⟨element, helement, hvalue⟩
      rw [meaning_constructed hoperator hvalues, ← hjunction hvalues]
      by_cases hdeclared : ∀ element ∈ elements,
          meaning functions element valuation = .value .null → declared element = true
      · rw [if_pos (hpresent.mpr fun element helement =>
          ⟨hvalues element helement, hdeclared element helement⟩)]
        exact iff_of_true rfl (.inl hdeclared)
      · have hmissing : ¬ vs.all (isPresent engine db env) = true := fun hall =>
          hdeclared fun element helement => (hpresent.mp hall element helement).2
        rw [if_neg hmissing, or_iff_right hdeclared, hjunction hvalues,
          eq_comm, Truth.polarised_eq_unknown_iff]

/-- A macro over known elements is CEL's, under either polarity and in any scope, if no lambda
of its body captures what an element reads: save where an element that is computed is null
without a column that declares so, and CEL's macro is no error. -/
theorem knownListMacro_agrees_iff {list : KnownList} {declared : Node → Bool} {s' : Nat} {e : Expr}
    (hoperator : foldable operator = some isAnd) (hs : n ≤ s)
    (hcapture : list.CaptureFree name body)
    (helements : ∀ element ∈ list.elements, LowersElement engine db m n env opts now element
      (declared element) (meaning functions element valuation))
    (hbody : ∀ body', list.Instance functions valuation name body body' →
      LowersPredicate engine db m n env opts now body'
        (meaning functions body' valuation).asBoolean)
    (hrun : (builder opts now fuel).predicate
      (.expression operator [list.node, .expression .lambda [body, .var name]]) m negated s =
        .ok (e, s')) :
    e.truth engine db env = (meaning functions
        (.expression operator [list.node, .expression .lambda [body, .var name]])
          valuation).asBoolean.polarised negated ↔
      (∀ element ∈ list.elements, meaning functions element valuation = .value .null →
          declared element = true) ∨
        (meaning functions
          (.expression operator [list.node, .expression .lambda [body, .var name]])
            valuation).asBoolean = .unknown := by
  have hstep : ∀ (b : Builder) (lambda : Node), b.predicateStep
      (.expression operator [list.node, lambda]) m negated =
        b.collectionMacro operator [list.node, lambda] m negated := by
    intro b lambda
    cases operator <;> first | rfl | cases hoperator
  cases list with
  | literal items =>
      have hyields : Yields ((builder opts now fuel).predicate (.expression operator
          [(KnownList.literal items).node, .expression .lambda [body, .var name]]) m negated) s
            fun e s' => e.truth engine db env = (meaning functions (.expression operator
              [(KnownList.literal items).node, .expression .lambda [body, .var name]])
                valuation).asBoolean.polarised negated := by
        refine yields_of_step (fun fuel => ?_) fuel
        rw [hstep]
        show Yields ((builder opts now fuel).foldValueListMacro operator (.constant (.array items))
          (.expression .lambda [body, .var name]) m negated) s _
        refine (yields_foldValueListMacro hoperator hs (fun _ => hcapture)
          fun item hitem body' hsubstitute => hbody body' ⟨item, hitem, hsubstitute⟩).imp
            fun e s' h => ?_
        have hitems : meaning functions (KnownList.literal items).node valuation =
            .value (.array (items.map Value.ofPlan)) := congrArg Outcome.value (ofPlan_array items)
        rw [h.2, meaning_foldable hoperator hitems, List.map_map]
        rfl
      exact iff_of_true (hyields.of_run hrun) (.inl nofun)
  | constructed elements =>
      have hunrolled := fun fuel => @yields_constructedMacro _ engine db m n env opts now functions
        valuation operator isAnd negated name body fuel s hoperator hs elements declared hcapture
        helements hbody
      exact ((yields_of_step (fun fuel => (hstep _ _).symm ▸ hunrolled fuel) fuel).of_run hrun).2

end Translation

/-! Two tags, one of them unnamed, and a document that is public. -/

def differingNames : Node :=
  .expression .exists [.var "R.attr.tags", .expression .lambda
    [.expression .ne [.var "t.name", .var "x"], .var "t"]]

/-- Whether two tags differ in their names: the inner tag hides the outer one. -/
def hiddenTag : Node :=
  .expression .exists [.var "R.attr.tags", .expression .lambda
    [.expression .exists [.expression .list [.var "t.name"],
      .expression .lambda [differingNames, .var "x"]], .var "t"]]

def tagsValuation : Valuation := fun reference =>
  if reference = "R.attr.tags" then
    .value (.array [.record [("name", .null)], .record [("name", .string "final")]])
  else .error

def publicMapper : Mapper where
  resolve reference :=
    if reference = "R.attr.public" then
      some { nameEntry with column := "public", valueType := .bool, nullConvention := .omitted }
    else none

def publicRow : RowEnv := fun _ column => if column = "public" then .bool true else .null

def publicValuation : Valuation := fun reference =>
  if reference = "R.attr.public" then .value (.bool true) else .error

/-- Whether an element that is null is null. -/
def chosenNull : Node :=
  .expression .exists [.expression .list [.expression .if [.var "R.attr.public", .value .null,
      .value (.string "draft")]],
    .expression .lambda [.expression .eq [.var "x", .value .null], .var "x"]]

/-- The name of the outer tag is captured by the inner one, and no tag differs from itself; and
a null that a ternary yields is taken for an error. -/
theorem unrolled_differs :
    (∃ e, build 12 0 hiddenTag tagsMapper tagsOptions = .ok e ∧
        e.truth .bare tagsDatabase (fun _ => taggedRow .null) = .no ∧
          meaning listFunctions hiddenTag tagsValuation = .value (.bool true)) ∧
      ∃ e, build 6 0 chosenNull publicMapper tagsOptions = .ok e ∧
        e.truth .bare (fun _ => []) publicRow = .unknown ∧
          meaning listFunctions chosenNull publicValuation = .value (.bool true) :=
  ⟨⟨_, rfl, by decide, rfl⟩, _, rfl, by decide, rfl⟩

theorem knownListMacro_agrees_iff_public : ∃ e s,
    (builder tagsOptions 0 4).predicate
        (.expression .exists [(KnownList.constructed [.var "R.attr.public"]).node,
          .expression .lambda [.var "x", .var "x"]])
        (rootMapper (guardedMapper publicMapper) "documents") true 0 = .ok (e, s) ∧
      (e.truth .bare (fun _ => []) publicRow = (meaning listFunctions
          (.expression .exists [(KnownList.constructed [.var "R.attr.public"]).node,
            .expression .lambda [.var "x", .var "x"]]) publicValuation).asBoolean.polarised true ↔
        (∀ element ∈ (KnownList.constructed [.var "R.attr.public"]).elements,
            meaning listFunctions element publicValuation = .value .null → false = true) ∨
          (meaning listFunctions
            (.expression .exists [(KnownList.constructed [.var "R.attr.public"]).node,
              .expression .lambda [.var "x", .var "x"]]) publicValuation).asBoolean = .unknown) := by
  refine ⟨_, _, rfl, @knownListMacro_agrees_iff _ .bare (fun _ => [])
    (rootMapper (guardedMapper publicMapper) "documents") 0 publicRow tagsOptions 0 listFunctions
    publicValuation .exists false true "x" (.var "x") 4 0 (.constructed [.var "R.attr.public"])
    (fun _ => false) _ _ rfl le_rfl ?_ ?_ ?_ rfl⟩
  · intro element _
    exact .var "x"
  · intro element helement fuel s _
    obtain rfl := List.mem_singleton.mp helement
    cases fuel with
    | zero => exact Yields.throw _
    | succ fuel =>
        intro r hr
        obtain rfl := Except.ok.inj hr
        refine ⟨le_rfl, fun x hx => ?_⟩
        obtain rfl := Except.ok.inj hx
        exact ⟨rfl, iff_of_false nofun (by rintro (h | h) <;> cases h)⟩
  · rintro body' ⟨element, helement, h⟩ fuel s negated _
    obtain rfl := List.mem_singleton.mp helement
    obtain h | ⟨c, hc, h⟩ := h
    · obtain rfl := Except.ok.inj h
      cases fuel with
      | zero => exact Yields.throw _
      | succ fuel =>
          intro r hr
          obtain rfl := Except.ok.inj hr
          exact ⟨le_rfl, by cases negated <;> rfl⟩
    · obtain rfl := Except.ok.inj h
      cases c with
      | bool b =>
          cases fuel with
          | zero => exact Yields.throw _
          | succ fuel =>
              intro r hr
              obtain rfl := Except.ok.inj hr
              exact ⟨le_rfl, by cases negated <;> cases b <;> rfl⟩
      | _ => cases hc

end QueryPlanAdapters.Go
