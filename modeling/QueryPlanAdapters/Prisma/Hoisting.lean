import QueryPlanAdapters.Prisma.Landing

/-!
# Prisma: rewriting a plan moves no column

What is moved out of a lambda body does not mention the lambda's variable, and so is
declared to be the same outside of it. The rewritten and folded plan therefore has no
reference that is declared at a place of its own.
-/

namespace QueryPlanAdapters.Prisma

variable {entries : String → Option MapperConfig} {places : Set (List String × String)}
  {lambdas : List (String × String)} {rewritten : Bool} {node : Node}

/-! ## Leaving a lambda -/

variable {enclosing : List String}

theorem mentionsVariableEach_eq_any (variableName : String) (operands : List Node) :
    mentionsVariableEach variableName operands = operands.any (mentionsVariable variableName) := by
  induction operands with
  | nil => rfl
  | cons operand operands ih => rw [mentionsVariableEach, ih, List.any_cons]

/-- Outside of a lambda that it does not mention, a reference is declared to be the same. -/
theorem declaredAttribute_leave {inner : List (String × String)} {variableName collection : String}
    {reference : String} (hinner : ∀ lambda ∈ inner, isReachedFrom variableName lambda.2 = false)
    (h : isReachedFrom variableName reference = false) :
    declaredAttribute entries (inner ++ (variableName, collection) :: lambdas) reference =
      declaredAttribute entries (inner ++ lambdas) reference := by
  induction inner generalizing reference with
  | nil => simp [declaredAttribute, h]
  | cons lambda inner ih =>
      obtain ⟨hlambda, hinner⟩ := List.forall_mem_cons.mp hinner
      simp only [List.cons_append, declaredAttribute]
      rw [ih hinner hlambda, ih hinner h]

section Leaving

variable {inner : List (String × String)} {variableName collection reference : String}

theorem IsPlaced.leave
    (h : IsPlaced entries places (inner ++ (variableName, collection) :: lambdas) reference)
    (hinner : ∀ lambda ∈ inner, isReachedFrom variableName lambda.2 = false)
    (hmentions : mentionsVariable variableName (.var reference) = false) :
    IsPlaced entries places (inner ++ lambdas) reference := by
  rwa [IsPlaced, declaredAttribute_leave hinner hmentions] at h

theorem IsRelation.leave
    (h : IsRelation entries (inner ++ (variableName, collection) :: lambdas) reference)
    (hinner : ∀ lambda ∈ inner, isReachedFrom variableName lambda.2 = false)
    (hmentions : mentionsVariable variableName (.var reference) = false) :
    IsRelation entries (inner ++ lambdas) reference := by
  rwa [IsRelation, declaredAttribute_leave hinner hmentions] at h

theorem not_mentions_each {operator : PlanOperator} {operands : List Node}
    (h : mentionsVariable variableName (.expression operator operands) = false) :
    ∀ operand ∈ operands, mentionsVariable variableName operand = false := by
  rw [mentionsVariable, mentionsVariableEach_eq_any] at h
  simpa using h

theorem Placed.leave
    (h : Placed entries places rewritten (inner ++ (variableName, collection) :: lambdas) node)
    (hinner : ∀ lambda ∈ inner, isReachedFrom variableName lambda.2 = false)
    (hmentions : mentionsVariable variableName node = false) :
    Placed entries places rewritten (inner ++ lambdas) node := by
  generalize hlambdas : inner ++ (variableName, collection) :: lambdas = all at h
  induction h generalizing inner with
  | value v => exact .value v
  | var hplaced =>
      subst hlambdas
      exact .var (hplaced.leave hinner hmentions)
  | compared hop hplaced =>
      subst hlambdas
      have hname := not_mentions_each hmentions _ List.mem_cons_self
      exact .compared hop (hplaced.leave hinner hname)
  | comparedFirst hop hplaced =>
      subst hlambdas
      have hname := not_mentions_each hmentions _ (List.mem_cons_of_mem _ List.mem_cons_self)
      exact .comparedFirst hop (hplaced.leave hinner hname)
  | constants a b hop => exact .constants a b hop
  | @size _ _ collection _ hop hleaf hrelation =>
      subst hlambdas
      have hsize := not_mentions_each hmentions _ List.mem_cons_self
      have hcollection := not_mentions_each hsize _ List.mem_cons_self
      refine .size hop hleaf fun name hname => ?_
      subst hname
      exact (hrelation name rfl).leave hinner hcollection
  | and h ih =>
      exact .and fun operand hoperand =>
        ih operand hoperand hinner (not_mentions_each hmentions operand hoperand) hlambdas
  | or h ih =>
      exact .or fun operand hoperand =>
        ih operand hoperand hinner (not_mentions_each hmentions operand hoperand) hlambdas
  | not h ih => exact .not (ih hinner (not_mentions_each hmentions _ List.mem_cons_self) hlambdas)
  | @quantified _ _ collection other body hop hrelation h ih =>
      subst hlambdas
      obtain ⟨hcollection, hlambda⟩ := List.forall_mem_cons.mp (not_mentions_each hmentions)
      have hbody := not_mentions_each (hlambda _ List.mem_cons_self) _ List.mem_cons_self
      refine .quantified hop (hrelation.leave hinner hcollection) ?_
      exact @ih ((other, collection) :: inner) (List.forall_mem_cons.mpr ⟨hcollection, hinner⟩)
        hbody rfl
  | constantCollection hop hrewritten => exact .constantCollection hop hrewritten
  | constantVariable hop hrelation hrewritten =>
      subst hlambdas
      have hcollection := not_mentions_each hmentions _ List.mem_cons_self
      exact .constantVariable hop (hrelation.leave hinner hcollection) hrewritten

end Leaving

/-! ## Substituting -/

theorem substituteNamedOperandEach_eq_map (name : String) (b : Bool) (operands : List Node) :
    substituteNamedOperandEach name b operands = operands.map (substituteNamedOperand name b) := by
  induction operands with
  | nil => rfl
  | cons operand operands ih => rw [substituteNamedOperandEach, ih, List.map_cons]

theorem substituteNamedOperand_expression (name : String) (b : Bool) (operator : PlanOperator)
    (operands : List Node) :
    substituteNamedOperand name b (.expression operator operands) =
      .expression operator (operands.map (substituteNamedOperand name b)) := by
  rw [substituteNamedOperand, substituteNamedOperandEach_eq_map]

theorem Placed.substitute (name : String) (b : Bool)
    (h : Placed entries places true lambdas node) :
    Placed entries places true lambdas (substituteNamedOperand name b node) := by
  induction h with
  | value v => exact .value v
  | @var _ other hplaced =>
      rw [substituteNamedOperand]
      split
      · exact .value _
      · exact .var hplaced
  | @compared _ _ other v hop hplaced =>
      rw [substituteNamedOperand_expression, List.map_cons, substituteNamedOperand]
      split
      · exact .constants _ v hop
      · exact .compared hop hplaced
  | @comparedFirst _ _ other v hop hplaced =>
      rw [substituteNamedOperand_expression, List.map_cons, List.map_cons, substituteNamedOperand,
        substituteNamedOperand]
      split
      · exact .constants v _ hop
      · exact .comparedFirst hop hplaced
  | constants v w hop => exact .constants v w hop
  | @size _ _ collection v hop hleaf hrelation =>
      rw [substituteNamedOperand_expression, List.map_cons, substituteNamedOperand_expression]
      cases collection with
      | value w => exact .size hop rfl hrelation
      | expression => cases hleaf
      | var other =>
          rw [List.map_cons, substituteNamedOperand]
          split
          · exact .size hop rfl (by simp)
          · exact .size hop rfl hrelation
  | and h ih =>
      rw [substituteNamedOperand_expression]
      exact .and (List.forall_mem_map.mpr ih)
  | or h ih =>
      rw [substituteNamedOperand_expression]
      exact .or (List.forall_mem_map.mpr ih)
  | not h ih =>
      rw [substituteNamedOperand_expression]
      exact .not ih
  | @quantified _ _ collection variableName body hop hrelation h ih =>
      rw [substituteNamedOperand_expression, List.map_cons, List.map_cons, List.map_nil,
        substituteNamedOperand, substituteNamedOperand_expression, List.map_cons, List.map_cons,
        List.map_nil]
      split
      · exact .constantCollection hop rfl
      · rw [substituteNamedOperand.eq_def name b (.var variableName)]
        dsimp only
        split
        · exact .constantVariable hop hrelation rfl
        · exact .quantified hop hrelation ih
  | constantCollection hop =>
      rw [substituteNamedOperand_expression, List.map_cons, List.map_cons,
        substituteNamedOperand_expression]
      exact .constantCollection hop rfl
  | @constantVariable _ _ collection body v hop hrelation =>
      rw [substituteNamedOperand_expression, List.map_cons, List.map_cons, List.map_nil,
        substituteNamedOperand, substituteNamedOperand_expression]
      split
      · exact .constantCollection hop rfl
      · exact .constantVariable hop hrelation rfl

/-! ## Outer references -/

theorem findOuterBooleanReferenceAmong_eq_some {isBoolean : Bool}
    {operands : List Node} {name : String}
    (h : findOuterBooleanReferenceAmong enclosing isBoolean operands = some name) :
    ∃ operand ∈ operands, (isBoolean || isBooleanPositionOperand operand) = true ∧
      findOuterBooleanReference enclosing operand = some name := by
  induction operands with
  | nil => cases h
  | cons operand operands ih =>
      rw [findOuterBooleanReferenceAmong] at h
      cases hposition : isBoolean || isBooleanPositionOperand operand with
      | false =>
          rw [hposition] at h
          obtain ⟨other, hother, hfound⟩ := ih h
          exact ⟨other, List.mem_cons_of_mem _ hother, hfound⟩
      | true =>
          rw [hposition] at h
          cases hfirst : findOuterBooleanReference enclosing operand with
          | some other =>
              rw [hfirst] at h
              obtain rfl : other = name := Option.some.inj h
              exact ⟨operand, List.mem_cons_self, hposition, hfirst⟩
          | none =>
              rw [hfirst] at h
              obtain ⟨other, hother, hfound⟩ := ih h
              exact ⟨other, List.mem_cons_of_mem _ hother, hfound⟩

/-- No operand of a comparison or of a macro is in a boolean position. -/
theorem findOuterBooleanReference_eq_none {operator : PlanOperator}
    {operands : List Node} (hop : isBooleanPositionOperator operator = false)
    (h : ∀ operand ∈ operands, isBooleanPositionOperand operand = false) :
    findOuterBooleanReference enclosing (.expression operator operands) = none := by
  rw [findOuterBooleanReference, hop, Option.eq_none_iff_forall_ne_some]
  intro name hname
  obtain ⟨operand, hoperand, hposition, -⟩ := findOuterBooleanReferenceAmong_eq_some hname
  simp [h operand hoperand] at hposition

theorem not_isBooleanPositionOperator {operator : PlanOperator}
    (h : (comparisonOperator operator).isSome = true) :
    isBooleanPositionOperator operator = false := by
  cases operator <;> first | rfl | cases h

/-- A reference that is found is placed, and reached from no enclosing lambda. -/
theorem Placed.outerReference {name : String} (h : Placed entries places rewritten lambdas node)
    (hfound : findOuterBooleanReference enclosing node = some name) :
    IsPlaced entries places lambdas name ∧ isOuterScopeName name enclosing = true := by
  have hnone : ∀ {operator : PlanOperator} {operands : List Node},
      isBooleanPositionOperator operator = false →
      (∀ operand ∈ operands, isBooleanPositionOperand operand = false) →
      findOuterBooleanReference enclosing (.expression operator operands) ≠ some name := by
    intro operator operands hop hoperands hsome
    rw [findOuterBooleanReference_eq_none hop hoperands] at hsome
    cases hsome
  induction h with
  | value v => cases hfound
  | var hplaced =>
      rw [findOuterBooleanReference] at hfound
      split at hfound
      next houter =>
        obtain rfl := Option.some.inj hfound
        exact ⟨hplaced, houter⟩
      next => cases hfound
  | compared hop | comparedFirst hop | constants _ _ hop =>
      exact absurd hfound (hnone (not_isBooleanPositionOperator hop)
        (by simp [isBooleanPositionOperand]))
  | size hop =>
      exact absurd hfound (hnone (not_isBooleanPositionOperator hop)
        (by simp [isBooleanPositionOperand, isBooleanPositionOperator]))
  | and h ih | or h ih =>
      obtain ⟨operand, hoperand, -, hfound⟩ := findOuterBooleanReferenceAmong_eq_some hfound
      exact ih operand hoperand hfound
  | not h ih =>
      obtain ⟨operand, hoperand, -, hoperandFound⟩ :=
        findOuterBooleanReferenceAmong_eq_some hfound
      obtain rfl := List.mem_singleton.mp hoperand
      exact ih hoperandFound
  | quantified hop | constantCollection hop | constantVariable hop =>
      refine absurd hfound (hnone ?_ (by simp [isBooleanPositionOperand, isBooleanPositionOperator]))
      obtain rfl | rfl := hop <;> rfl

/-! ## Hoisting -/

section Hoisting

variable {operator : PlanOperator} {collection variableName : String} {body : Node}
  {scopeVariables : List String}

theorem Placed.conjuncts {operands : List Node}
    (h : Placed entries places rewritten lambdas (.expression .and operands)) :
    ∀ operand ∈ operands, Placed entries places rewritten lambdas operand := by
  cases h with
  | and h => exact h
  | compared hop | comparedFirst hop | constants _ _ hop | size hop => cases hop
  | quantified hop | constantCollection hop | constantVariable hop =>
      obtain hop | hop := hop <;> cases hop

theorem splitConjuncts_eq_some {elementConjuncts outerConjuncts : List Node}
    (h : splitConjuncts operator variableName body = some (elementConjuncts, outerConjuncts)) :
    ∃ operands, body = .expression .and operands ∧
      elementConjuncts = operands.filter (mentionsVariable variableName) ∧
      outerConjuncts = operands.filter (!mentionsVariable variableName ·) := by
  rw [splitConjuncts.eq_def] at h
  split at h
  next operands =>
    dsimp only at h
    split at h
    next => cases h
    next =>
      obtain ⟨rfl, rfl⟩ := Prod.mk.inj (Option.some.inj h)
      exact ⟨operands, rfl, rfl, rfl⟩
  next => cases h

/-- A macro over a rewritten body. -/
theorem Placed.hoistFromMacro (hop : operator = .exists ∨ operator = .all)
    (hrelation : IsRelation entries lambdas collection)
    (hbody : Placed entries places true ((variableName, collection) :: lambdas) body)
    (hscope : variableName ∈ scopeVariables) :
    Placed entries places true lambdas
      (hoistFromMacro operator (.var collection) variableName body scopeVariables) := by
  rw [Prisma.hoistFromMacro]
  split
  next elementConjuncts outerConjuncts hsplit =>
    obtain ⟨operands, rfl, rfl, rfl⟩ := splitConjuncts_eq_some hsplit
    have helement : ∀ operand ∈ operands.filter (mentionsVariable variableName),
        Placed entries places true ((variableName, collection) :: lambdas) operand :=
      fun operand hoperand => hbody.conjuncts operand (List.mem_of_mem_filter hoperand)
    refine .and (List.forall_mem_cons.mpr ⟨.quantified hop hrelation ?_, fun operand hoperand => ?_⟩)
    · split
      next conjunct hsingle =>
        exact helement conjunct (by rw [hsingle]; exact List.mem_singleton.mpr rfl)
      next => exact .and helement
    · obtain ⟨hmem, hmentions⟩ := List.mem_filter.mp hoperand
      exact @Placed.leave entries places lambdas true operand [] variableName collection
        (hbody.conjuncts operand hmem) (by simp) (by simpa using hmentions)
  next =>
    split
    next outerRef hfound =>
      obtain ⟨hplaced, houter⟩ := hbody.outerReference hfound
      have hmentions : isReachedFrom variableName outerRef = false := by
        rw [isOuterScopeName, Bool.not_eq_true', List.any_eq_false] at houter
        simpa using houter variableName hscope
      have hq : Placed entries places true lambdas (.var outerRef) :=
        .var (@IsPlaced.leave entries places lambdas [] _ _ _ hplaced (by simp) hmentions)
      have hbuilds : ∀ b, Placed entries places true lambdas
          (rebuildMacro operator (.var collection) variableName
            (substituteNamedOperand outerRef b body)) :=
        fun b => .quantified hop hrelation (hbody.substitute outerRef b)
      have hempty : Placed entries places true lambdas
          (rebuildMacro operator (.var collection) variableName (.value (.bool false))) :=
        .quantified hop hrelation (.value _)
      have harms : ∀ arm ∈ ([
          .expression .and [.var outerRef, rebuildMacro operator (.var collection) variableName
            (substituteNamedOperand outerRef true body)],
          .expression .and [.expression .not [.var outerRef],
            rebuildMacro operator (.var collection) variableName
              (substituteNamedOperand outerRef false body)],
          .expression .and [.var outerRef, .expression .not [.var outerRef]]] : List Node),
          Placed entries places true lambdas arm := by
        intro arm harm
        simp only [List.mem_cons, List.not_mem_nil, or_false] at harm
        obtain rfl | rfl | rfl := harm
        · exact .and (by simp [hq, hbuilds])
        · exact .and (by simp [Placed.not hq, hbuilds])
        · exact .and (by simp [hq, Placed.not hq])
      refine .or ?_
      split
      · intro arm harm
        obtain harm | harm := List.mem_append.mp harm
        · exact harms arm harm
        · obtain rfl := List.mem_singleton.mp harm
          exact hempty
      · exact harms
    next => exact .quantified hop hrelation hbody

theorem parseLambdaMacro_eq_none {operands : List Node}
    (h : isCollectionOperator operator = false) : parseLambdaMacro operator operands = none := by
  rw [parseLambdaMacro.eq_def]
  split
  · simp [h]
  · rfl

/-- Another expression is rewritten within. -/
theorem hoist_expression {operands : List Node} (h : isCollectionOperator operator = false)
    (enclosingVariables : List String) :
    hoistOuterScopeReferences (.expression operator operands) enclosingVariables =
      .expression operator
        (operands.map fun operand => hoistOuterScopeReferences operand enclosingVariables) := by
  rw [hoistOuterScopeReferences, Operand.fold_expression, parseLambdaMacro_eq_none h]
  simp [Function.comp_def]

theorem hoist_quantifier (h : isCollectionOperator operator = true) (enclosingVariables : List String) :
    hoistOuterScopeReferences
        (.expression operator [.var collection, .expression .lambda [body, .var variableName]])
        enclosingVariables =
      hoistFromMacro operator (.var collection) variableName
        (hoistOuterScopeReferences body (enclosingVariables ++ [variableName]))
        (enclosingVariables ++ [variableName]) := by
  have hparse : parseLambdaMacro operator
      [.var collection, .expression .lambda [body, .var variableName]] =
        some ⟨.var collection, body, variableName⟩ := by
    simp [parseLambdaMacro, h]
  rw [hoistOuterScopeReferences, Operand.fold_expression, hparse]
  rfl

/-- The rewritten plan refers to no other place. -/
theorem Placed.hoist (h : Placed entries places false lambdas node)
    (enclosingVariables : List String) :
    Placed entries places true lambdas (hoistOuterScopeReferences node enclosingVariables) := by
  induction h generalizing enclosingVariables with
  | value v => exact .value v
  | var h => exact .var h
  | compared hop h =>
      rw [hoist_expression (not_isCollectionOperator hop)]
      exact .compared hop h
  | comparedFirst hop h =>
      rw [hoist_expression (not_isCollectionOperator hop)]
      exact .comparedFirst hop h
  | constants a b hop =>
      rw [hoist_expression (not_isCollectionOperator hop)]
      exact .constants a b hop
  | @size _ _ collection _ hop hleaf h =>
      rw [hoist_expression (not_isCollectionOperator hop), List.map_cons, hoist_expression rfl,
        List.map_singleton]
      cases collection with
      | value v => exact .size hop hleaf h
      | var name => exact .size hop hleaf h
      | expression => cases hleaf
  | and h ih =>
      rw [hoist_expression rfl]
      exact .and (List.forall_mem_map.mpr fun operand hoperand => ih operand hoperand _)
  | or h ih =>
      rw [hoist_expression rfl]
      exact .or (List.forall_mem_map.mpr fun operand hoperand => ih operand hoperand _)
  | not h ih =>
      rw [hoist_expression rfl]
      exact .not (ih _)
  | quantified hop hrelation h ih =>
      rw [hoist_quantifier (by obtain rfl | rfl := hop <;> rfl)]
      exact .hoistFromMacro hop hrelation (ih _) (by simp)
  | constantCollection _ hrewritten | constantVariable _ _ hrewritten => cases hrewritten

end Hoisting

/-! ## Folding -/

section Folding

variable {evaluation : ConstantEvaluation}

theorem constantFoldEach_eq_ok {operands folded : List Node}
    (h : constantFoldEach evaluation operands = .ok folded) :
    ∀ operand ∈ folded, ∃ original ∈ operands,
      constantFoldExpression evaluation original = .ok operand := by
  induction operands generalizing folded with
  | nil =>
      obtain rfl := Except.ok.inj h
      simp
  | cons original originals ih =>
      obtain ⟨first, hfirst, hrest⟩ := Except.bind_eq_ok_iff.mp h
      obtain ⟨rest, heach, hfolded⟩ := Except.bind_eq_ok_iff.mp hrest
      obtain rfl := Except.ok.inj hfolded
      refine List.forall_mem_cons.mpr ⟨⟨original, List.mem_cons_self, hfirst⟩, ?_⟩
      intro operand hoperand
      obtain ⟨other, hother, hfold⟩ := ih heach operand hoperand
      exact ⟨other, List.mem_cons_of_mem _ hother, hfold⟩

theorem Placed.foldLogical {isOr : Bool} {operands : List Node}
    (h : ∀ operand ∈ operands, Placed entries places true lambdas operand) :
    Placed entries places true lambdas (foldLogical isOr operands) := by
  have hfiltered : ∀ operand ∈ operands.filter (!·.isValue),
      Placed entries places true lambdas operand :=
    fun operand hoperand => h operand (List.mem_of_mem_filter hoperand)
  rw [Prisma.foldLogical]
  split
  · exact .value _
  · split
    next => exact .value _
    next operand hsingle =>
      exact hfiltered operand (by rw [hsingle]; exact List.mem_singleton.mpr rfl)
    next =>
      cases isOr with
      | false => exact .and hfiltered
      | true => exact .or hfiltered

theorem Placed.foldQuantifier {isExists : Bool} {collection : Node} {v : Literal}
    (hleaf : collection.isExpression = false)
    (hrelation : ∀ name, collection = .var name → IsRelation entries lambdas name) :
    Placed entries places true lambdas (foldQuantifier isExists collection v) := by
  have hsize : ∀ operator, (comparisonOperator operator).isSome = true →
      Placed entries places true lambdas
        (.expression operator [.expression .size [collection], .value (.number 0)]) :=
    fun operator hop => .size hop hleaf hrelation
  simp only [Prisma.foldQuantifier]
  split
  · split
    · exact hsize .gt rfl
    · exact .value _
  · split
    · exact .value _
    · exact hsize .eq rfl

/-- The operands of an expression are folded before it. -/
theorem constantFoldExpression_eq_ok {operator : PlanOperator} {operands : List Node}
    (h : constantFoldExpression evaluation (.expression operator operands) = .ok node) :
    ∃ folded, constantFoldEach evaluation operands = .ok folded ∧
      foldOperator evaluation operator folded = .ok node := by
  rw [constantFoldExpression] at h
  exact Except.bind_eq_ok_iff.mp (Except.bind_unit_eq_ok_iff.mp h).2

theorem constantFoldEach_single_eq_ok {operand : Node} {folded : List Node}
    (h : constantFoldEach evaluation [operand] = .ok folded) :
    ∃ operand', constantFoldExpression evaluation operand = .ok operand' ∧ folded = [operand'] := by
  obtain ⟨operand', hoperand, hrest⟩ := Except.bind_eq_ok_iff.mp h
  obtain rfl := Except.ok.inj hrest
  exact ⟨operand', hoperand, rfl⟩

theorem constantFoldEach_pair_eq_ok {first second : Node} {folded : List Node}
    (h : constantFoldEach evaluation [first, second] = .ok folded) :
    ∃ first' second', constantFoldExpression evaluation first = .ok first' ∧
      constantFoldExpression evaluation second = .ok second' ∧ folded = [first', second'] := by
  obtain ⟨first', hfirst, hrest⟩ := Except.bind_eq_ok_iff.mp h
  obtain ⟨rest, hseconds, hfolded⟩ := Except.bind_eq_ok_iff.mp hrest
  obtain ⟨second', hsecond, rfl⟩ := constantFoldEach_single_eq_ok hseconds
  obtain rfl := Except.ok.inj hfolded
  exact ⟨first', second', hfirst, hsecond, rfl⟩

theorem constantFoldExpression_leaf {folded : Node} (hleaf : node.isExpression = false)
    (h : constantFoldExpression evaluation node = .ok folded) : folded = node := by
  cases node with
  | value v => exact (Except.ok.inj h).symm
  | var name => exact (Except.ok.inj h).symm
  | expression => cases hleaf

/-- Of two operands, the first a leaf, the second is folded. -/
theorem constantFoldExpression_leaf_pair {operator : PlanOperator} {first second folded : Node}
    (hleaf : first.isExpression = false)
    (h : constantFoldExpression evaluation (.expression operator [first, second]) = .ok folded) :
    ∃ second', constantFoldExpression evaluation second = .ok second' ∧
      foldOperator evaluation operator [first, second'] = .ok folded := by
  obtain ⟨operands, hoperands, hfold⟩ := constantFoldExpression_eq_ok h
  obtain ⟨first', second', hfirst, hsecond, rfl⟩ := constantFoldEach_pair_eq_ok hoperands
  obtain rfl := constantFoldExpression_leaf hleaf hfirst
  exact ⟨second', hsecond, hfold⟩

/-- A comparison of which an operand is no constant is left as it is. -/
theorem foldOperator_comparison {operator : PlanOperator} {first second : Node}
    (hop : (comparisonOperator operator).isSome = true)
    (h : first.isValue = false ∨ second.isValue = false) :
    foldOperator evaluation operator [first, second] = .ok (.expression operator [first, second]) := by
  have hcases : ∀ v w, ¬(first = .value v ∧ second = .value w) := by
    rintro v w ⟨rfl, rfl⟩
    simp [Operand.isValue] at h
  cases operator <;> first
    | exact absurd hop (by decide)
    | (rw [foldOperator.eq_def]
       split <;> simp_all)

/-- A comparison of two constants is decided. -/
theorem foldOperator_constants {operator : PlanOperator} {v w : Literal} {folded : Node}
    (hop : (comparisonOperator operator).isSome = true)
    (h : foldOperator evaluation operator [.value v, .value w] = .ok folded) :
    ∃ b, folded = .value (.bool b) := by
  obtain ⟨op, hop⟩ := Option.isSome_iff_exists.mp hop
  have hfold : foldOperator evaluation operator [.value v, .value w] = (do
      return .value (.bool (← evaluation.comparison op v w))) := by
    cases operator <;> simp [comparisonOperator] at hop <;> subst hop <;> rfl
  rw [hfold] at h
  obtain ⟨b, -, hfolded⟩ := Except.bind_eq_ok_iff.mp h
  exact ⟨b, (Except.ok.inj hfolded).symm⟩

/-- A negation is folded when its operand is a constant. -/
theorem Placed.foldNot {operand folded : Node} (h : Placed entries places true lambdas operand)
    (hfold : foldOperator evaluation .not [operand] = .ok folded) :
    Placed entries places true lambdas folded := by
  cases operand with
  | value v =>
      obtain rfl := Except.ok.inj hfold
      exact .value _
  | var name =>
      obtain rfl := Except.ok.inj hfold
      exact .not h
  | expression =>
      obtain rfl := Except.ok.inj hfold
      exact .not h

/-- The lambda of a macro is folded within. -/
theorem constantFoldExpression_lambda {lambda : List Node} {folded : Node}
    (h : constantFoldExpression evaluation (.expression .lambda lambda) = .ok folded) :
    ∃ operands, constantFoldEach evaluation lambda = .ok operands ∧
      folded = .expression .lambda operands := by
  obtain ⟨operands, hoperands, hfold⟩ := constantFoldExpression_eq_ok h
  refine ⟨operands, hoperands, ?_⟩
  rw [foldOperator.eq_def] at hfold
  split at hfold <;> simp_all [comparisonOperator]

/-- A macro over a folded body. -/
theorem foldOperator_quantifier {operator : PlanOperator} {collection : Node} {lambda : List Node}
    {folded : Node} (hop : operator = .exists ∨ operator = .all)
    (h : foldOperator evaluation operator [collection, .expression .lambda lambda] = .ok folded) :
    (∃ isExists v rest, lambda = .value v :: rest ∧
        folded = foldQuantifier isExists collection v) ∨
      folded = .expression operator [collection, .expression .lambda lambda] := by
  obtain rfl | rfl := hop
  · match lambda, h with
    | .value v :: rest, h => exact .inl ⟨true, v, rest, rfl, (Except.ok.inj h).symm⟩
    | [], h | .var _ :: _, h | .expression _ _ :: _, h =>
        right
        cases collection <;> exact (Except.ok.inj h).symm
  · match lambda, h with
    | .value v :: rest, h => exact .inl ⟨false, v, rest, rfl, (Except.ok.inj h).symm⟩
    | [], h | .var _ :: _, h | .expression _ _ :: _, h =>
        right
        cases collection <;> exact (Except.ok.inj h).symm

/-- The folded plan refers to no other place. -/
theorem Placed.constantFold {folded : Node} (h : Placed entries places rewritten lambdas node)
    (hfold : constantFoldExpression evaluation node = .ok folded) :
    Placed entries places true lambdas folded := by
  induction h generalizing folded with
  | value v =>
      obtain rfl := Except.ok.inj hfold
      exact .value v
  | var h =>
      obtain rfl := Except.ok.inj hfold
      exact .var h
  | compared hop h =>
      obtain ⟨second, hsecond, hfold⟩ := constantFoldExpression_leaf_pair rfl hfold
      obtain rfl := constantFoldExpression_leaf rfl hsecond
      rw [foldOperator_comparison hop (.inl rfl)] at hfold
      obtain rfl := Except.ok.inj hfold
      exact .compared hop h
  | comparedFirst hop h =>
      obtain ⟨second, hsecond, hfold⟩ := constantFoldExpression_leaf_pair rfl hfold
      obtain rfl := constantFoldExpression_leaf rfl hsecond
      rw [foldOperator_comparison hop (.inr rfl)] at hfold
      obtain rfl := Except.ok.inj hfold
      exact .comparedFirst hop h
  | constants v w hop =>
      obtain ⟨second, hsecond, hfold⟩ := constantFoldExpression_leaf_pair rfl hfold
      obtain rfl := constantFoldExpression_leaf rfl hsecond
      obtain ⟨b, rfl⟩ := foldOperator_constants hop hfold
      exact .value _
  | size hop hleaf h =>
      obtain ⟨operands, hoperands, hfold⟩ := constantFoldExpression_eq_ok hfold
      obtain ⟨first, second, hfirst, hsecond, rfl⟩ := constantFoldEach_pair_eq_ok hoperands
      obtain rfl := constantFoldExpression_leaf rfl hsecond
      obtain ⟨collections, hcollections, hsize⟩ := constantFoldExpression_eq_ok hfirst
      obtain ⟨collection, hcollection, rfl⟩ := constantFoldEach_single_eq_ok hcollections
      obtain rfl := constantFoldExpression_leaf hleaf hcollection
      have hsame : foldOperator evaluation .size [collection] =
          .ok (.expression .size [collection]) := by cases collection <;> rfl
      rw [hsame] at hsize
      obtain rfl := Except.ok.inj hsize
      rw [foldOperator_comparison hop (.inl rfl)] at hfold
      obtain rfl := Except.ok.inj hfold
      exact .size hop hleaf h
  | and h ih =>
      obtain ⟨operands, hoperands, hfold⟩ := constantFoldExpression_eq_ok hfold
      obtain rfl : Prisma.foldLogical false operands = folded := Except.ok.inj hfold
      refine .foldLogical fun operand hoperand => ?_
      obtain ⟨original, horiginal, hfolded⟩ := constantFoldEach_eq_ok hoperands operand hoperand
      exact ih original horiginal hfolded
  | or h ih =>
      obtain ⟨operands, hoperands, hfold⟩ := constantFoldExpression_eq_ok hfold
      obtain rfl : Prisma.foldLogical true operands = folded := Except.ok.inj hfold
      refine .foldLogical fun operand hoperand => ?_
      obtain ⟨original, horiginal, hfolded⟩ := constantFoldEach_eq_ok hoperands operand hoperand
      exact ih original horiginal hfolded
  | not h ih =>
      obtain ⟨operands, hoperands, hfold⟩ := constantFoldExpression_eq_ok hfold
      obtain ⟨operand, hoperand, rfl⟩ := constantFoldEach_single_eq_ok hoperands
      exact (ih hoperand).foldNot hfold
  | quantified hop hrelation h ih =>
      obtain ⟨second, hsecond, hfold⟩ := constantFoldExpression_leaf_pair rfl hfold
      obtain ⟨lambda, hlambda, rfl⟩ := constantFoldExpression_lambda hsecond
      obtain ⟨body, binder, hbody, hbinder, rfl⟩ := constantFoldEach_pair_eq_ok hlambda
      obtain rfl := constantFoldExpression_leaf rfl hbinder
      obtain ⟨isExists, v, rest, -, rfl⟩ | rfl := foldOperator_quantifier hop hfold
      · refine .foldQuantifier rfl fun name hname => ?_
        obtain rfl := Operand.var.inj hname
        exact hrelation
      · exact .quantified hop hrelation (ih hbody)
  | constantCollection hop =>
      obtain ⟨second, hsecond, hfold⟩ := constantFoldExpression_leaf_pair rfl hfold
      obtain ⟨lambda, -, rfl⟩ := constantFoldExpression_lambda hsecond
      obtain ⟨isExists, v, rest, -, rfl⟩ | rfl := foldOperator_quantifier hop hfold
      · exact .foldQuantifier rfl (by simp)
      · exact .constantCollection hop rfl
  | constantVariable hop hrelation =>
      obtain ⟨second, hsecond, hfold⟩ := constantFoldExpression_leaf_pair rfl hfold
      obtain ⟨lambda, hlambda, rfl⟩ := constantFoldExpression_lambda hsecond
      obtain ⟨body, binder, hbody, hbinder, rfl⟩ := constantFoldEach_pair_eq_ok hlambda
      obtain rfl := constantFoldExpression_leaf rfl hbinder
      obtain ⟨isExists, v, rest, -, rfl⟩ | rfl := foldOperator_quantifier hop hfold
      · refine .foldQuantifier rfl fun name hname => ?_
        obtain rfl := Operand.var.inj hname
        exact hrelation
      · exact .constantVariable hop hrelation rfl

end Folding

/-! ## Every leaf lands -/

/-- The filter of a condition, which is rewritten and folded first. -/
def conditionFilter (evaluation : ConstantEvaluation) (b : Builder) (plan : Node)
    (context : TranslationContext) : Except Refusal PrismaFilter := do
  let condition ← constantFoldExpression evaluation (hoistOuterScopeReferences plan [])
  let (filter, _) ← b.positive condition context []
  return filter

/-- Records with a status and a relation to tags, which have a name. -/
def tagsMapping : RelationMapping where
  name := "tags"
  type := .many
  model := none
  field := none
  fields := some [("name", .ofField "name")]
  subqueryFilter := none

def taggedEntries (key : String) : Option MapperConfig :=
  if key = "R.tags" then some { MapperConfig.ofField "tags" with relation := some tagsMapping }
  else if key = "R.status" then some (.ofField "status")
  else none

/-- The columns of tagged records, where they belong. -/
def taggedPlaces : Set (List String × String) :=
  {(["tags"], "name"), ([], "status")}

def noEvaluation : ConstantEvaluation where
  comparison _ _ _ := unsupported ""
  arithmetic _ _ _ := unsupported ""
  text _ _ _ := false

/-- `R.tags.exists(t, op(t.name == "x", R.status == "draft"))` -/
def taggedPlan (operator : PlanOperator) : Node :=
  .expression .exists [.var "R.tags", .expression .lambda
    [.expression operator
      [.expression .eq [.var "t.name", .value (.string "x")],
        .expression .eq [.var "R.status", .value (.string "draft")]], .var "t"]]

theorem placed_taggedPlan {operator : PlanOperator} (h : operator = .and ∨ operator = .or) :
    Placed taggedEntries taggedPlaces false [] (taggedPlan operator) := by
  have hname : Placed taggedEntries taggedPlaces false [("t", "R.tags")]
      (.expression .eq [.var "t.name", .value (.string "x")]) :=
    .compared rfl ⟨_, .inl rfl, rfl⟩
  have hstatus : Placed taggedEntries taggedPlaces false [("t", "R.tags")]
      (.expression .eq [.var "R.status", .value (.string "draft")]) :=
    .compared rfl ⟨_, .inr rfl, rfl⟩
  refine .quantified (.inl rfl) ⟨_, _, _, rfl⟩ ?_
  obtain rfl | rfl := h
  · exact .and (by simp [hname, hstatus])
  · exact .or (by simp [hname, hstatus])

/-- A conjunct about the record itself is moved out of the body. -/
theorem local_taggedPlan : Local taggedEntries []
    (.expression .and [
      .expression .exists [.var "R.tags", .expression .lambda
        [.expression .eq [.var "t.name", .value (.string "x")], .var "t"]],
      .expression .eq [.var "R.status", .value (.string "draft")]]) := by
  have hmember : IsLocal taggedEntries [("t", "R.tags")] "t.name" := by
    refine .inr ⟨"name", by decide, by decide, ?_⟩
    intro path mapping projection config hdeclared hconfig hrelation
    obtain ⟨-, rfl, -⟩ := Attribute.relation.inj (Option.some.inj hdeclared)
    obtain rfl := Option.some.inj hconfig
    simp [MapperConfig.ofField, truthy]
  have hstatus : Local taggedEntries [] (.var "R.status") := .var trivial
  refine .operands rfl (List.forall_mem_cons.mpr ⟨.lambda rfl trivial ?_, ?_⟩)
  · exact .operands rfl (by simp [Local.var hmember, Local.value])
  · intro operand hoperand
    obtain rfl := List.mem_singleton.mp hoperand
    exact .operands rfl (by simp [hstatus, Local.value])

theorem declaredRelation_tagged {path : List String} {mapping : RelationMapping}
    (h : DeclaredRelation taggedEntries path mapping) : mapping = tagsMapping := by
  induction h with
  | @root key config mapping hconfig hmapping =>
      rw [taggedEntries] at hconfig
      split at hconfig
      next =>
        obtain rfl := Option.some.inj hconfig
        exact (Option.some.inj hmapping).symm
      next =>
        split at hconfig
        next =>
          obtain rfl := Option.some.inj hconfig
          cases hmapping
        next => cases hconfig
  | @field _ _ _ name config _ hconfig hmapping ih =>
      subst ih
      have hcolumn : config = .ofField "name" := by
        rw [tagsMapping, Option.getD_some, List.lookup_cons] at hconfig
        split at hconfig
        · exact (Option.some.inj hconfig).symm
        · cases hconfig
      rw [hcolumn] at hmapping
      cases hmapping

end QueryPlanAdapters.Prisma
