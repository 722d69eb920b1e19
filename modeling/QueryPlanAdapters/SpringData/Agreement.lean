import QueryPlanAdapters.SpringData.Collections

/-!
# Spring Data: predicates and conditions

A translated predicate is TRUE, FALSE or UNKNOWN as the credited evaluation of its
condition is, under any number of negations and at any depth of nesting. It agrees with
CEL's evaluation where crediting makes no difference.
-/

namespace QueryPlanAdapters.SpringData

open Sql

variable {schema : Schema} {engine : Engine} {store : Store schema} {app : Application}
  {walker : PlanWalker schema} {scope : Scope schema} {env : store.Env} {depth : Nat}
  {p : Predicate}

/-! ## One step of the walk -/

section Steps

variable {operator : PlanOperator} {op : ComparisonOperator} {name collection lambdaVar : String}
  {literal : PlanValue Double} {raw : Double} {operands : List Node} {body : Node}

theorem traverse_comparison (swapped : Bool) (hop : comparisonOperator operator = some op)
    (literal : PlanValue Double) :
    walker.traverse (.expression operator (inOrder swapped (.var name) (.value literal))) depth
        scope =
      walker.attributeComparison operator (inOrder swapped (.var name) (.value literal))
        (mirroredWhen swapped op) name literal depth scope := by
  cases operator <;> first
    | (cases hop; done)
    | (obtain rfl := Option.some.inj hop; cases swapped <;> rfl)

theorem traverse_size (swapped : Bool) (hop : comparisonOperator operator = some op) (raw : Double) :
    walker.traverse (.expression operator (inOrder swapped (.expression .size [.var collection])
        (.value (.number raw)))) depth scope =
      walker.sizeComparison operator (inOrder swapped (.expression .size [.var collection])
        (.value (.number raw))) (mirroredWhen swapped op) collection raw depth scope := by
  cases operator <;> first
    | (cases hop; done)
    | (obtain rfl := Option.some.inj hop; cases swapped <;> rfl)

theorem traverse_filterSize (swapped : Bool) (hop : comparisonOperator operator = some op)
    (raw : Double) :
    walker.traverse (.expression operator (inOrder swapped
        (.expression .size [.expression .filter
          [.var collection, .expression .lambda [body, .var lambdaVar]]])
        (.value (.number raw)))) depth scope =
      walker.filterSizeComparison (mirroredWhen swapped op) collection lambdaVar raw depth scope
        (walker.traverse body) := by
  cases operator <;> first
    | (cases hop; done)
    | (obtain rfl := Option.some.inj hop; cases swapped <;> rfl)

theorem traverse_quantifier (hoperator : isQuantifier operator = true) :
    walker.traverse (.expression operator
        [.var collection, .expression .lambda [body, .var lambdaVar]]) depth scope =
      walker.relationMacro operator collection lambdaVar depth scope (walker.traverse body) := by
  cases operator <;> first | (cases hoperator; done) | rfl

variable {credit : Bool}

theorem verdict_comparison (swapped : Bool) (hop : comparisonOperator operator = some op) :
    verdict store app credit
        (.expression operator (inOrder swapped (.var name) (.value literal))) scope env =
      comparisonTruth (mirroredWhen swapped op)
        (readAttribute store app credit scope env name (isNullLiteral (.value literal))) literal := by
  cases operator <;> first
    | (cases hop; done)
    | (obtain rfl := Option.some.inj hop; cases swapped <;> rfl)

theorem verdict_size (swapped : Bool) (hop : comparisonOperator operator = some op) :
    verdict store app credit (.expression operator
        (inOrder swapped (.expression .size [.var collection]) (.value (.number raw)))) scope env =
      collectionSizeTruth store credit (mirroredWhen swapped op) collection raw scope env := by
  cases operator <;> first
    | (cases hop; done)
    | (obtain rfl := Option.some.inj hop; cases swapped <;> rfl)

theorem verdict_filterSize (swapped : Bool) (hop : comparisonOperator operator = some op) :
    verdict store app credit (.expression operator (inOrder swapped
        (.expression .size [.expression .filter
          [.var collection, .expression .lambda [body, .var lambdaVar]]])
        (.value (.number raw)))) scope env =
      filterSizeTruth credit (mirroredWhen swapped op)
        (bodiesOf store collection lambdaVar scope env (verdict store app credit body)) raw := by
  cases operator <;> first
    | (cases hop; done)
    | (obtain rfl := Option.some.inj hop; cases swapped <;> rfl)

theorem verdict_quantifier (hoperator : isQuantifier operator = true) :
    verdict store app credit (.expression operator
        [.var collection, .expression .lambda [body, .var lambdaVar]]) scope env =
      match bodiesOf store collection lambdaVar scope env (verdict store app credit body) with
      | some bodies => macroTruth operator bodies
      | none => .unknown := by
  cases operator <;> first | (cases hoperator; done) | rfl

end Steps

/-! ## Lambda bodies -/

/-- Whether every predicate that a node is translated to is its credited evaluation. -/
def Sound (engine : Engine) (store : Store schema) (app : Application) (walker : PlanWalker schema)
    (node : Node) (scope : Scope schema) : Prop :=
  ∀ depth p env, walker.traverse node depth scope = .ok p → InScope store scope env →
    p.truth engine store env = verdict store app true node scope env

section Bodies

variable {ref : ResolvedRelation schema} {collection lambdaVar : String} {body : Node}
  {translated : Predicate}

/-- What a macro's body promises of its lambda's scopes. -/
abbrev BodySound (engine : Engine) (store : Store schema) (app : Application)
    (walker : PlanWalker schema) (collection lambdaVar : String) (body : Node)
    (scope : Scope schema) : Prop :=
  ∀ ref element, scope.resolve collection = .ok (.relation ref) →
    Sound engine store app walker body (.lambda element ref.tail lambdaVar scope)

/-- The values of a translated body are those of the lambda's body, over every element. -/
theorem bodiesAt_eq_bodiesOf (hscope : InScope store scope env)
    (hresolve : scope.resolve collection = .ok (.relation ref)) {cs : ChainSubquery schema}
    (hcs : chainSubquery walker.selectInvocation scope ref = .ok cs)
    (hbody : BodySound engine store app walker collection lambdaVar body scope)
    (h : walker.traverse body depth (.lambda cs.element ref.tail lambdaVar scope) =
      .ok translated) :
    bodiesAt engine store ref env translated =
      bodiesOf store collection lambdaVar scope env (verdict store app true body) := by
  obtain ⟨row, hrow, hentity⟩ := resolve_sound hscope hresolve
  obtain ⟨-, hjoined⟩ := chainSubquery_eq_ok hcs
  rw [bodiesAt, bodiesOf, hresolve]
  simp only [elementsOf_of_row hrow]
  split
  next => rfl
  next =>
    refine congrArg some (List.map_congr_left fun e he => ?_)
    have helement : store.entity e = cs.element := entity_reach (hentity ▸ hjoined) he
    rw [helement]
    exact hbody ref cs.element hresolve depth translated (env ++ [e]) h
      ⟨env, e, rfl, helement, hscope⟩

theorem enterMacro_eq_ok {op : String} {inside : Nat → Except Refusal Predicate}
    (h : enterMacro walker.maxMacroDepth op depth inside = .ok p) :
    inside (depth + 1) = .ok p := by
  rw [enterMacro] at h
  split at h
  · cases h
  · exact h

theorem resolveRelation_eq_ok {found : Option (ResolvedRelation schema)}
    (h : resolveRelation collection scope = .ok found) :
    ∀ ref, found = some ref → scope.resolve collection = .ok (.relation ref) := by
  rintro ref rfl
  obtain ⟨resolution, hresolve, h⟩ := Except.bind_eq_ok_iff.mp h
  cases resolution with
  | relation other =>
      obtain rfl := Option.some.inj (Except.ok.inj h)
      exact hresolve
  | _ => cases h

theorem relationMacro_truth {operator : PlanOperator} (hoperator : isQuantifier operator = true)
    (hscope : InScope store scope env)
    (hbody : BodySound engine store app walker collection lambdaVar body scope)
    (h : walker.relationMacro operator collection lambdaVar depth scope
      (walker.traverse body) = .ok p) :
    p.truth engine store env =
      match bodiesOf store collection lambdaVar scope env (verdict store app true body) with
      | some bodies => macroTruth operator bodies
      | none => .unknown := by
  obtain ⟨found, hfound, h⟩ := Except.bind_eq_ok_iff.mp h
  cases found with
  | none => cases h
  | some ref =>
      have hresolve := resolveRelation_eq_ok hfound ref rfl
      obtain ⟨cs, hcs, h⟩ := Except.bind_eq_ok_iff.mp (enterMacro_eq_ok h)
      obtain ⟨translated, htranslated, h⟩ := Except.bind_eq_ok_iff.mp h
      obtain ⟨row, hrow, -⟩ := resolve_sound hscope hresolve
      obtain ⟨hsource, -⟩ := chainSubquery_eq_ok hcs
      rw [handleCollectionOperator_truth hsource hrow hoperator h,
        bodiesAt_eq_bodiesOf hscope hresolve hcs hbody htranslated] <;> rfl

theorem filterSizeComparison_truth {op : ComparisonOperator} {raw : Double}
    (hscope : InScope store scope env)
    (hbody : BodySound engine store app walker collection lambdaVar body scope)
    (h : walker.filterSizeComparison op collection lambdaVar raw depth scope
      (walker.traverse body) = .ok p) :
    p.truth engine store env =
      filterSizeTruth true op
        (bodiesOf store collection lambdaVar scope env (verdict store app true body)) raw := by
  obtain ⟨found, hfound, h⟩ := Except.bind_eq_ok_iff.mp h
  cases found with
  | none => cases h
  | some ref =>
      have hresolve := resolveRelation_eq_ok hfound ref rfl
      obtain ⟨cs, hcs, h⟩ := Except.bind_eq_ok_iff.mp (enterMacro_eq_ok h)
      obtain ⟨translated, htranslated, h⟩ := Except.bind_eq_ok_iff.mp h
      obtain ⟨row, hrow, -⟩ := resolve_sound hscope hresolve
      obtain ⟨hsource, -⟩ := chainSubquery_eq_ok hcs
      rw [matchingElementCount_truth hsource hrow h,
        bodiesAt_eq_bodiesOf hscope hresolve hcs hbody htranslated]

theorem sizeComparison_truth {operator : PlanOperator} {operands : List Node}
    {op : ComparisonOperator} {raw : Double} (hscope : InScope store scope env)
    (hrelation : isRelation collection scope = true)
    (h : walker.sizeComparison operator operands op collection raw depth scope = .ok p) :
    p.truth engine store env = collectionSizeTruth store true op collection raw scope env := by
  rw [isRelation] at hrelation
  split at hrelation
  next ref hresolve =>
    rw [PlanWalker.sizeComparison, resolveRelation, hresolve] at h
    obtain ⟨row, hrow, -⟩ := resolve_sound hscope hresolve
    exact elementCount_truth hresolve h hrow
  next => cases hrelation

end Bodies

/-! ## The walk -/

theorem booleanBranch_truth {branch : Node} {walk : Except Refusal Predicate}
    (h : booleanBranchPredicate branch walk = .ok p)
    (hwalk : walk = .ok p → p.truth engine store env = verdict store app true branch scope env) :
    p.truth engine store env = verdict store app true branch scope env := by
  cases branch with
  | value literal =>
      cases literal with
      | bool b =>
          obtain rfl := Except.ok.inj h
          exact truth_constant b
      | _ => cases h
  | var name => exact hwalk h
  | expression operator operands => exact hwalk h

theorem traverseEach_truths {operands : List Node} {predicates : List Predicate}
    (hscope : InScope store scope env)
    (hsound : ∀ operand ∈ operands, Sound engine store app walker operand scope)
    (h : walker.traverseEach operands depth scope = .ok predicates) :
    predicates.map (·.truth engine store env) = verdicts store app true operands scope env := by
  induction operands generalizing predicates with
  | nil =>
      obtain rfl := Except.ok.inj h
      rfl
  | cons operand operands ih =>
      obtain ⟨first, hfirst, h⟩ := Except.bind_eq_ok_iff.mp h
      obtain ⟨rest, hrest, h⟩ := Except.bind_eq_ok_iff.mp h
      obtain rfl := Except.ok.inj h
      have hhead := hsound operand List.mem_cons_self depth first env hfirst hscope
      rw [List.map_cons, hhead,
        ih (fun operand hmem => hsound operand (List.mem_cons_of_mem _ hmem)) hrest]
      rfl

/-- A ternary chooses as CEL's does, also where its condition is a constant. -/
theorem ternary_sound {condition thenBranch elseBranch : Node}
    (hcondition : Sound engine store app walker condition scope)
    (hthen : Sound engine store app walker thenBranch scope)
    (helse : Sound engine store app walker elseBranch scope) :
    Sound engine store app walker (.expression .if [condition, thenBranch, elseBranch]) scope := by
  intro depth p env h hscope
  have hbranches : ∀ branch ∈ [thenBranch, elseBranch], ∀ p,
      booleanBranchPredicate branch (walker.traverse branch depth scope) = .ok p →
        p.truth engine store env = verdict store app true branch scope env := by
    intro branch hbranch q hq
    apply booleanBranch_truth hq
    intro hwalk
    obtain rfl | hbranch := List.mem_cons.mp hbranch
    · exact hthen depth q env hwalk hscope
    · obtain rfl := List.mem_singleton.mp hbranch
      exact helse depth q env hwalk hscope
  have hwalked : (do
      let condition ← walker.traverse condition depth scope
      let thenBranch ←
        booleanBranchPredicate thenBranch (walker.traverse thenBranch depth scope)
      let elseBranch ←
        booleanBranchPredicate elseBranch (walker.traverse elseBranch depth scope)
      return TriPredicate.ternary condition thenBranch elseBranch) = .ok p →
        p.truth engine store env = verdict store app true
          (.expression .if [condition, thenBranch, elseBranch]) scope env := by
    intro h
    obtain ⟨first, hfirst, h⟩ := Except.bind_eq_ok_iff.mp h
    obtain ⟨second, hsecond, h⟩ := Except.bind_eq_ok_iff.mp h
    obtain ⟨third, hthird, h⟩ := Except.bind_eq_ok_iff.mp h
    obtain rfl := Except.ok.inj h
    rw [truth_ternary, hcondition depth first env hfirst hscope,
      hbranches _ List.mem_cons_self second hsecond,
      hbranches _ (List.mem_cons_of_mem _ List.mem_cons_self) third hthird]
    rfl
  cases condition with
  | value literal =>
      cases literal with
      | bool known =>
          cases known with
          | true => exact hbranches _ List.mem_cons_self p h
          | false => exact hbranches _ (List.mem_cons_of_mem _ List.mem_cons_self) p h
      | _ => cases h
  | var name => exact hwalked h
  | expression operator operands => exact hwalked h

/-- A translated predicate is what the credited evaluation says. -/
theorem traverse_truth {node : Node} (hcovered : Covered scope node) :
    Sound engine store app walker node scope := by
  induction hcovered with
  | constant literal =>
      intro depth p env h hscope
      cases h
  | bare name =>
      intro depth p env h hscope
      obtain ⟨path, hpath, h⟩ := Except.bind_eq_ok_iff.mp h
      obtain rfl := Except.ok.inj h
      exact bare_truth hscope hpath
  | junction hoperator hoperands ih =>
      intro depth p env h hscope
      obtain rfl | rfl := hoperator
      · obtain ⟨predicates, hpredicates, h⟩ := Except.bind_eq_ok_iff.mp h
        obtain rfl := Except.ok.inj h
        rw [truth_and, traverseEach_truths hscope ih hpredicates]
        rfl
      · obtain ⟨predicates, hpredicates, h⟩ := Except.bind_eq_ok_iff.mp h
        obtain rfl := Except.ok.inj h
        rw [truth_or, traverseEach_truths hscope ih hpredicates]
        rfl
  | negation hoperand ih =>
      intro depth p env h hscope
      obtain ⟨operand, hp, h⟩ := Except.bind_eq_ok_iff.mp h
      obtain rfl := Except.ok.inj h
      rw [truth_triNot, ih depth operand env hp hscope]
      rfl
  | ternary hcondition hthen helse ihcondition ihthen ihelse =>
      exact ternary_sound ihcondition ihthen ihelse
  | comparison swapped literal hop hattribute =>
      intro depth p env h hscope
      rw [traverse_comparison swapped hop, PlanWalker.attributeComparison, hattribute,
        Bool.and_false, if_neg Bool.false_ne_true] at h
      rw [verdict_comparison swapped hop]
      exact leafFieldValue_truth hscope h
  | size swapped raw hop hrelation =>
      intro depth p env h hscope
      rw [traverse_size swapped hop] at h
      rw [verdict_size swapped hop]
      exact sizeComparison_truth hscope hrelation h
  | filterSize swapped raw hop hbody ih =>
      intro depth p env h hscope
      rw [traverse_filterSize swapped hop] at h
      rw [verdict_filterSize swapped hop]
      exact filterSizeComparison_truth hscope ih h
  | quantifier hoperator hbody ih =>
      intro depth p env h hscope
      rw [traverse_quantifier hoperator] at h
      rw [verdict_quantifier hoperator]
      exact relationMacro_truth hoperator hscope ih h

/-! ## The adapter -/

/-- The predicate of a condition is CEL's value of it, and its negation that value's
negation, exactly where crediting makes no difference. -/
theorem conditional_agrees_iff {options : Options} {selectInvocation : Bool}
    {other : PlanOperator → List Node → Nat → Scope schema → Except Refusal Predicate}
    {condition : Node} (render : String → SqlValue → Value) (row : store.Row)
    (hcovered : Covered (.root (store.entity row) options.mapping) condition)
    (h : conditional options selectInvocation other (store.entity row) condition = .ok p) :
    (p.truth engine store [row] =
        verdict store ⟨options.nullAttributeRepresentation, render⟩ false condition
          (.root (store.entity row) options.mapping) [row]) ↔
      (verdict store ⟨options.nullAttributeRepresentation, render⟩ true condition
          (.root (store.entity row) options.mapping) [row] =
        verdict store ⟨options.nullAttributeRepresentation, render⟩ false condition
          (.root (store.entity row) options.mapping) [row]) := by
  rw [conditional, Except.bind_unit_eq_ok_iff] at h
  have hsound : Sound engine store ⟨options.nullAttributeRepresentation, render⟩
      ⟨selectInvocation, options.maxMacroDepth, other⟩ condition _ := traverse_truth hcovered
  rw [hsound 0 p [row] h.2 ⟨row, rfl, rfl⟩]

/-! A document whose owner is absent. -/

inductive Kind where
  | document
  | person
  | tag

def ownedDocuments : Schema where
  Entity := Kind
  element _ := .other "row"
  column
    | .tag, "flag" => some .boolean
    | _, _ => none
  joined
    | .document, "owner" => some .person
    | .person, "tags" => some .tag
    | _, _ => none

/-- One row of each kind, none related to another. -/
def unrelatedRows : Store ownedDocuments where
  Row := Kind
  entity row := row
  element _ := .null
  column _ _ := .null
  related _ _ := []
  element_holds _ := rfl
  column_holds := by
    intro row path javaType _
    cases javaType <;> rfl
  entity_related := nofun
  countable := by
    intro row hops
    cases hops with
    | nil =>
        show ((1 : Nat) : Int) < 2 ^ 63 - 1
        norm_num
    | cons hop hops =>
        show ((0 : Nat) : Int) < 2 ^ 63 - 1
        norm_num

def ownerMapping : Mapper :=
  [("owner", .relation (.mk "owner" none
    [("tags", .relation (.mk "tags" none [("flag", .field { jpaPath := "flag" })]))]))]

def ownerOptions : Options :=
  { mapping := ownerMapping, nullAttributeRepresentation := .omitted }

/-- `size(owner.tags.filter(t, t.flag)) == 0` -/
def noFlaggedTag : Node :=
  .expression .eq [.expression .size [.expression .filter
    [.var "owner.tags", .expression .lambda [.var "t.flag", .var "t"]]], .value (.number (.finite 0))]

def refuseOther {schema : Schema} :
    PlanOperator → List Node → Nat → Scope schema → Except Refusal Predicate :=
  fun _ _ _ _ => .error (.unsupported "")

theorem noFlaggedTag_covered :
    Covered (@Scope.root ownedDocuments .document ownerMapping) noFlaggedTag :=
  .filterSize false (.finite 0) rfl fun _ _ _ => .bare "t.flag"

/-- The predicate selects a document without an owner, on which CEL has an error. -/
theorem noFlaggedTag_selected :
    Covered (@Scope.root ownedDocuments .document ownerMapping) noFlaggedTag ∧
      ∃ p, @conditional ownedDocuments ownerOptions true refuseOther .document noFlaggedTag = .ok p ∧
        p.truth .bare unrelatedRows [.document] = .yes ∧
        verdict unrelatedRows ⟨.omitted, fun _ _ => .null⟩ false noFlaggedTag
          (.root .document ownerMapping) [.document] = .unknown :=
  ⟨noFlaggedTag_covered, _, rfl, rfl, rfl⟩

/-- `size(owner.tags) == 0`, which has the guard. -/
def noTag : Node :=
  .expression .eq [.expression .size [.var "owner.tags"], .value (.number (.finite 0))]

theorem conditional_agrees_iff_owner : ∃ p : Predicate,
    (p.truth .bare unrelatedRows [.document] =
        verdict unrelatedRows ⟨.omitted, fun _ _ => .null⟩ false noTag
          (.root .document ownerMapping) [.document]) ↔
      (verdict unrelatedRows ⟨.omitted, fun _ _ => .null⟩ true noTag
          (.root .document ownerMapping) [.document] =
        verdict unrelatedRows ⟨.omitted, fun _ _ => .null⟩ false noTag
          (.root .document ownerMapping) [.document]) :=
  ⟨_, @conditional_agrees_iff ownedDocuments .bare unrelatedRows _ ownerOptions true refuseOther noTag
    (fun _ _ => .null) .document (.size false (.finite 0) rfl rfl) rfl⟩

end QueryPlanAdapters.SpringData
