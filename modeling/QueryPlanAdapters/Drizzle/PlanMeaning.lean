import QueryPlanAdapters.Drizzle.RewrittenPlans

/-!
# Drizzle: rewritten plans mean what they meant

The pass keeps CEL's result wherever no node that is evaluated meets one of three
differences: a list function of a map, a concatenation with something that is no list, and
an instant that only one side of a comparison has.
-/

namespace QueryPlanAdapters.Drizzle

open Go

/-! ## Where a rewrite is exact -/

section Exactness

variable (functions : Functions) (mapped : String → Bool) (dateParse : String → Option Int)
  (now : Int)

/-- A node meets none of the differences, with the clock at `now` nanoseconds. -/
structure ExactAt (env : Valuation) (node : Node) : Prop where
  list {m} : listMembership node = some m → (referenceOf mapped m.list).isSome = true →
    isMap (meaning functions m.list env) = false
  concatenation {m} : concatenatedMembership node = some m →
    (referenceOf mapped m.list).isSome = true → ∀ x v, meaning functions m.element env = .value x →
      meaning functions m.list env = .value v → escapesConcatenation m.constants x v = false
  instant {c} : instantComparison dateParse (now / 1000000) node = some c →
    ∀ n, meaning functions c.conversion env = .value (.timestamp n) → c.Exact functions env now n

/-- The operators of functions and connectives, whose operands are all evaluated. -/
def isApplication : PlanOperator → Bool
  | .and | .or | .not => true
  | operator => isStrict operator

/-- Every node that is evaluated is exact; the references are dotted paths, and the variables of
lambdas bare names. -/
inductive Exact : Valuation → Node → Prop
  | value {env v} : Exact env (.value v)
  | var {env name} : "" ∉ pathParts name → Exact env (.var name)
  | application {env operator operands} : isApplication operator = true →
      (∀ o ∈ operands, Exact env o) →
      ExactAt functions mapped dateParse now env (.expression operator operands) →
        Exact env (.expression operator operands)
  | ternary {env cond whenTrue whenFalse} : Exact env cond →
      ((meaning functions cond env).asBoolean = .yes → Exact env whenTrue) →
      ((meaning functions cond env).asBoolean = .no → Exact env whenFalse) →
        Exact env (.expression .if [cond, whenTrue, whenFalse])
  | overElements {env operator collection body name} : lambdaBinding operator = true →
      isBareName name = true → Exact env collection →
      (∀ items, (meaning functions collection env).range = some items →
        ∀ v ∈ items, Exact (env.bind name v) body) →
        Exact env (.expression operator [collection, .expression .lambda [body, .var name]])

end Exactness

/-! ## One node -/

section Nodes

variable {functions : Functions} {mapped : String → Bool} {dateParse : String → Option Int}
  {now : Int} {env : Valuation}

/-- A set function or a concatenation holds no ternary that is lifted. -/
theorem liftConstantTernary_of_listMembership {node : Node} {m : ListMembership}
    (h : listMembership node = some m) : liftConstantTernary node = none := by
  have hfunction : ∀ {node : Node} {m : ListMembership} {comparison : Node → Node},
      listFunctionAll node = some m → liftSide node comparison = none := by
    intro node m comparison h
    unfold listFunctionAll at h
    split at h
    · rfl
    · rfl
    · cases h
  have hempty : ∀ {node : Node} {comparison : Node → Node},
      isEmptyList node = true → liftSide node comparison = none := by
    intro node comparison h
    rw [isEmptyList_eq h]
    rfl
  have hsides : ∀ {left right : Node} {f g : Node → Node},
      (if isEmptyList right then listFunctionAll left
        else if isEmptyList left then listFunctionAll right else none) = some m →
          (liftSide left f).or (liftSide right g) = none := by
    intro left right f g h
    split at h
    next hright => rw [hfunction h, hempty hright, Option.none_or]
    next =>
      split at h
      next hleft => rw [hempty hleft, hfunction h, Option.none_or]
      next => cases h
  unfold listMembership at h
  split at h
  · rfl
  · exact hsides h
  · exact hsides h
  · cases h

/-- A membership in a concatenation with a reference is no comparison of constants. -/
theorem liftConstantTernary_of_concatenatedMembership {node : Node} {m : ConcatenatedMembership}
    (h : concatenatedMembership node = some m) (hlist : m.list.isVariable = true) :
    liftConstantTernary node = none := by
  obtain ⟨rfl, -⟩ := concatenatedMembership_eq_some h
  obtain ⟨name, hname⟩ : ∃ name, m.list = .var name := by
    cases hshape : m.list with
    | var name => exact ⟨name, rfl⟩
    | _ => rw [hshape] at hlist; cases hlist
  have hvariable : ∀ element : Node, evaluateConstant (.expression .in
      [element, .expression .add [m.list, .value (.array m.constants)]]) = none := by
    intro element
    have hadd : evaluateConstant (.expression .add [m.list, .value (.array m.constants)]) = none := by
      rw [hname]
      rfl
    rw [evaluateConstant, hadd]
    cases evaluateConstant element <;> rfl
  have hleft : liftSide m.element (fun side => .expression .in
      [side, .expression .add [m.list, .value (.array m.constants)]]) = none := by
    unfold liftSide
    split
    next =>
      rw [hvariable, hvariable]
    next => rfl
  have hright : ∀ comparison : Node → Node,
      liftSide (.expression .add [m.list, .value (.array m.constants)]) comparison = none := by
    intro comparison
    rw [hname]
    rfl
  have hliftable : isLiftableComparison .in = true := rfl
  rw [liftConstantTernary, if_pos hliftable, hleft, hright, Option.none_or]

/-- An operand that no rewrite but the one of timestamps takes. -/
structure IsTemporal (node : Node) : Prop where
  ternary : findLiftableTernary node = none
  function : listFunctionAll node = none
  nonempty : isEmptyList node = false

theorem IsTemporal.of_duration {node : Node} {window : Double}
    (h : durationMilliseconds node = some window) : IsTemporal node := by
  unfold durationMilliseconds at h
  split at h
  · exact ⟨rfl, rfl, rfl⟩
  · cases h

theorem IsTemporal.of_literal {node : Node} {bound : Double}
    (h : timestampLiteralMilliseconds dateParse node = some bound) : IsTemporal node := by
  unfold timestampLiteralMilliseconds at h
  split at h
  · exact ⟨rfl, rfl, rfl⟩
  · cases h

theorem IsTemporal.of_timestampCall {node : Node} (h : isTimestampCall node = true) :
    IsTemporal node := by
  obtain ⟨operands, rfl⟩ := isTimestampCall_iff.mp h
  exact ⟨rfl, rfl, rfl⟩

theorem IsTemporal.sum {left right : Node} (hleft : IsTemporal left) (hright : IsTemporal right) :
    IsTemporal (.expression .add [left, right]) := by
  refine ⟨?_, rfl, rfl⟩
  rw [findLiftableTernary, findTernary, findTernary, findTernary, hleft.ternary, hright.ternary]
  rfl

theorem IsTemporal.of_shifted {side conversion : Node} {shift : Double}
    (h : shiftedTimestamp dateParse side = some (conversion, shift)) : IsTemporal side := by
  unfold shiftedTimestamp at h
  split at h
  next =>
    obtain h | ⟨-, h⟩ := Option.or_eq_some_iff.mp h
    · obtain ⟨-, hcall, hduration⟩ := conversionAndDuration_eq_some h
      exact .sum (.of_timestampCall hcall) (.of_duration hduration)
    · obtain ⟨-, hcall, hduration⟩ := conversionAndDuration_eq_some h
      exact .sum (.of_duration hduration) (.of_timestampCall hcall)
  next => exact ⟨rfl, rfl, rfl⟩
  next => cases h

theorem IsTemporal.of_instantSide {clock : Int} {operator : ComparisonOperator} {side other : Node}
    {c : InstantComparison} (h : instantSide dateParse clock operator side other = some c) :
    IsTemporal side ∧ IsTemporal other := by
  obtain h | ⟨-, h⟩ := Option.or_eq_some_iff.mp h
  · obtain ⟨⟨conversion, shift⟩, hshifted, h⟩ := Option.bind_eq_some_iff.mp h
    obtain ⟨bound, hbound, -⟩ := Option.map_eq_some_iff.mp h
    exact ⟨.of_shifted hshifted, .of_literal hbound⟩
  · unfold sinceSide at h
    split at h
    next =>
      split at h
      next =>
        obtain ⟨window, hwindow, -⟩ := Option.map_eq_some_iff.mp h
        exact ⟨⟨rfl, rfl, rfl⟩, .of_duration hwindow⟩
      next => cases h
    next => cases h

theorem liftSide_temporal {side : Node} (h : IsTemporal side) (comparison : Node → Node) :
    liftSide side comparison = none := by
  rw [liftSide, h.ternary]

variable (mapped) in
/-- A comparison of instants is no comparison of constants, and of no list. -/
theorem untouched_of_instantComparison {clock : Int} {node : Node} {c : InstantComparison}
    (h : instantComparison dateParse clock node = some c) :
    liftConstantTernary node = none ∧ listMembership node = none ∧
      concatenatedMembership node = none ∧ projectedMembership node = none ∧
        rewriteConstantKeyIndex mapped node = none := by
  unfold instantComparison at h
  split at h
  next operator left right =>
    obtain ⟨op, hop, h⟩ := Option.bind_eq_some_iff.mp h
    have hsides : IsTemporal left ∧ IsTemporal right := by
      obtain h | ⟨-, h⟩ := Option.or_eq_some_iff.mp h
      · exact IsTemporal.of_instantSide h
      · exact (IsTemporal.of_instantSide h).symm
    obtain ⟨hleft, hright⟩ := hsides
    have hempty : (if isEmptyList right then listFunctionAll left
        else if isEmptyList left then listFunctionAll right else none) = none := by
      rw [hleft.nonempty, hright.nonempty]
      rfl
    have hlifted : liftConstantTernary (.expression operator [left, right]) = none := by
      rw [liftConstantTernary, liftSide_temporal hleft, liftSide_temporal hright]
      exact ite_self none
    refine ⟨hlifted, ?_⟩
    cases operator with
    | eq | ne => exact ⟨hempty, rfl, rfl, rfl⟩
    | lt | le | gt | ge => exact ⟨rfl, rfl, rfl, rfl⟩
    | _ => cases hop
  next => cases h

variable (mapped) in
/-- A list function is no other shape that is rewritten. -/
theorem untouched_of_listMembership {node : Node} {m : ListMembership}
    (h : listMembership node = some m) : concatenatedMembership node = none ∧
      projectedMembership node = none ∧ rewriteConstantKeyIndex mapped node = none := by
  unfold listMembership at h
  split at h
  · exact ⟨rfl, rfl, rfl⟩
  · exact ⟨rfl, rfl, rfl⟩
  · exact ⟨rfl, rfl, rfl⟩
  · cases h

/-- Without the mapper only a variable is a reference. -/
theorem referenceOf_unmapped (node : Node) :
    (referenceOf (fun _ => false) node).isSome = node.isVariable := by
  unfold referenceOf
  split
  · rfl
  next receiver key =>
    cases referenceOf (fun _ => false) receiver with
    | none => rfl
    | some name =>
        rw [Option.bind_some, selectedReference, if_neg (by simp)]
        rfl
  next hvar _ =>
    cases node with
    | var name => exact absurd rfl (hvar name)
    | _ => rfl

section Rewritten

variable (hfunctions : CelFunctions functions now) (hdates : ReadsDates dateParse)
  (henv : Coherent env) {node rewritten : Node}

include hfunctions henv in
/-- The other rewrites keep CEL's result. -/
theorem meaning_rewriteNode {clock : Int}
    (hreceiver : ∀ receiver key, node = .expression .index [.var receiver, .value (.string key)] →
      "" ∉ pathParts receiver)
    (hlist : rewriteListFunction node = none)
    (hconcat : ∀ m, concatenatedMembership node = some m → m.list.isVariable = false)
    (hinstant : instantComparison dateParse clock node = none)
    (h : rewriteNode mapped dateParse clock node = some rewritten) :
    meaning functions rewritten env = meaning functions node env := by
  rw [rewriteNode_eq, rewriteStep, rewriteOperation, hlist, Option.none_or] at h
  cases hindex : rewriteConstantKeyIndex mapped node with
  | some r =>
      obtain ⟨receiver, key, reference, rfl, hselected, rfl⟩ :=
        rewriteConstantKeyIndex_eq_some hindex
      rw [hindex, Option.some_or, Option.elim_some] at h
      obtain rfl := Option.some_inj.mp h
      exact meaning_selected hfunctions henv rfl (hreceiver receiver key rfl) hselected
  | none =>
      rw [hindex, Option.none_or] at h
      cases hternary : liftConstantTernary node with
      | some r =>
          rw [hternary, Option.some_or, Option.elim_some] at h
          obtain rfl := Option.some_inj.mp h
          exact meaning_liftConstantTernary hternary
      | none =>
          rw [hternary, Option.none_or] at h
          cases hmembership : rewriteMembership node with
          | some r =>
              rw [hmembership, Option.elim_some] at h
              obtain rfl := Option.some_inj.mp h
              unfold rewriteMembership at hmembership
              split at hmembership
              next m hm =>
                rw [hconcat m hm, if_neg Bool.false_ne_true] at hmembership
                cases hmembership
              next => exact meaning_projectedMembership hmembership
          | none =>
              rw [hmembership, Option.elim_none, rewriteShiftedTimestamp, hinstant] at h
              rw [Option.some_inj.mp h]

include hfunctions hdates henv in
/-- One node keeps CEL's result exactly where it is exact, its operands rewritten before it. -/
theorem meaning_rewriteNode_iff
    (hreceiver : ∀ receiver key, node = .expression .index [.var receiver, .value (.string key)] →
      "" ∉ pathParts receiver)
    (h : rewriteNode mapped dateParse (now / 1000000) node = some rewritten) :
    meaning functions rewritten env = meaning functions node env ↔
      ExactAt functions (fun _ => false) dateParse now env node := by
  cases hinstant : instantComparison dateParse (now / 1000000) node with
  | some c =>
      obtain ⟨hternary, hlist, hconcat, hprojected, hindex⟩ :=
        untouched_of_instantComparison mapped hinstant
      have hstep : rewriteStep mapped node = none := by
        rw [rewriteStep, rewriteOperation, hindex, hternary, rewriteListFunction, hlist,
          rewriteMembership, hconcat]
        exact hprojected
      rw [rewriteNode_eq, hstep, Option.elim_none, rewriteShiftedTimestamp, hinstant] at h
      obtain ⟨literal, hliteral, rfl⟩ := Option.map_eq_some_iff.mp h
      rw [meaning_instantComparison_iff hfunctions hdates hinstant hliteral]
      constructor
      · intro hexact
        refine ⟨?_, ?_, ?_⟩
        · intro m hm
          rw [hlist] at hm
          cases hm
        · intro m hm
          rw [hconcat] at hm
          cases hm
        · intro c' hc
          obtain rfl := Option.some_inj.mp (hinstant.symm.trans hc)
          exact hexact
      · intro hexact
        exact hexact.instant hinstant
  | none =>
      cases hlist : listMembership node with
      | some m =>
          obtain ⟨hconcat, hprojected, hindex⟩ := untouched_of_listMembership mapped hlist
          have hexact : ExactAt functions (fun _ => false) dateParse now env node ↔
              (m.list.isVariable = true → isMap (meaning functions m.list env) = false) := by
            constructor
            · intro hexact hvariable
              exact hexact.list hlist ((referenceOf_unmapped m.list).trans hvariable)
            · intro hmap
              refine ⟨?_, ?_, ?_⟩
              · intro m' hm hreference
                obtain rfl := Option.some_inj.mp (hlist.symm.trans hm)
                exact hmap ((referenceOf_unmapped m.list).symm.trans hreference)
              · intro m' hm
                rw [hconcat] at hm
                cases hm
              · intro c hc
                rw [hinstant] at hc
                cases hc
          rw [hexact]
          cases hvariable : m.list.isVariable with
          | true =>
              have hfunction : rewriteListFunction node = some
                  (if isInequality node then .expression .not [m.all] else m.all) := by
                rw [rewriteListFunction, hlist, Option.bind_some, if_pos hvariable]
              rw [rewriteNode_eq, rewriteStep, rewriteOperation, hindex,
                liftConstantTernary_of_listMembership hlist, hfunction] at h
              obtain rfl := Option.some_inj.mp h
              rw [meaning_rewriteListFunction_iff hlist hfunction]
              constructor
              · intro hmap _
                exact hmap
              · intro hmap
                exact hmap rfl
          | false =>
              refine iff_of_true ?_ (by rintro ⟨⟩)
              refine meaning_rewriteNode hfunctions henv hreceiver ?_ ?_ hinstant h
              · rw [rewriteListFunction, hlist, Option.bind_some, hvariable]
                rfl
              · intro m' hm
                rw [hconcat] at hm
                cases hm
      | none =>
          have hnoList : rewriteListFunction node = none := by
            rw [rewriteListFunction, hlist, Option.bind_none]
          have hexact : ExactAt functions (fun _ => false) dateParse now env node ↔
              ∀ m, concatenatedMembership node = some m → m.list.isVariable = true →
                ∀ x v, meaning functions m.element env = .value x →
                  meaning functions m.list env = .value v →
                    escapesConcatenation m.constants x v = false := by
            constructor
            · intro hexact m hm hvariable
              exact hexact.concatenation hm ((referenceOf_unmapped m.list).trans hvariable)
            · intro hall
              refine ⟨?_, ?_, ?_⟩
              · intro m hm
                rw [hlist] at hm
                cases hm
              · intro m hm hreference
                exact hall m hm ((referenceOf_unmapped m.list).symm.trans hreference)
              · intro c hc
                rw [hinstant] at hc
                cases hc
          rw [hexact]
          by_cases hconcat : ∃ m, concatenatedMembership node = some m ∧ m.list.isVariable = true
          · obtain ⟨m, hm, hvariable⟩ := hconcat
            have hternary := liftConstantTernary_of_concatenatedMembership hm hvariable
            have hmembership : rewriteMembership node = some m.disjunction := by
              rw [rewriteMembership, hm]
              exact if_pos hvariable
            obtain ⟨hnode, -⟩ := concatenatedMembership_eq_some hm
            have hindex : rewriteConstantKeyIndex mapped node = none := by
              rw [hnode]
              rfl
            rw [rewriteNode_eq, rewriteStep, rewriteOperation, hindex, hternary, hnoList,
              hmembership] at h
            obtain rfl := Option.some_inj.mp h
            have hiff := meaning_disjunction_iff env hfunctions m
            rw [← hnode] at hiff
            rw [hiff]
            constructor
            · intro hescapes m' hm' _
              obtain rfl := Option.some_inj.mp (hm.symm.trans hm')
              exact hescapes
            · intro hall
              exact hall m hm hvariable
          · have hnever : ∀ m, concatenatedMembership node = some m → m.list.isVariable = false := by
              intro m hm
              rw [Bool.eq_false_iff]
              exact fun hvariable => hconcat ⟨m, hm, hvariable⟩
            refine iff_of_true (meaning_rewriteNode hfunctions henv hreceiver hnoList hnever
              hinstant h) ?_
            intro m hm hvariable
            exact absurd ⟨m, hm, hvariable⟩ hconcat

end Rewritten

end Nodes

/-! ## References of bodies -/

section References

theorem splitAt_append (separator : Char) (cs ds : List Char) :
    splitAt separator (cs ++ separator :: ds) = splitAt separator cs ++ splitAt separator ds := by
  induction cs with
  | nil => simp [splitAt]
  | cons c cs ih =>
      rw [List.cons_append, splitAt, splitAt, ih]
      split
      · rfl
      · cases hparts : splitAt separator cs with
        | nil => exact absurd hparts (splitAt_ne_nil separator cs)
        | cons part parts => rfl

theorem pathParts_append (path rest : String) :
    pathParts (path ++ "." ++ rest) = pathParts path ++ pathParts rest := by
  have hdot : ".".toList = ['.'] := rfl
  rw [pathParts, String.toList_append, String.toList_append, hdot, List.append_assoc,
    List.singleton_append, splitAt_append, List.map_append]
  rfl

theorem isBareName_of_identifier {key : String} (h : isIdentifier key = true) :
    isBareName key = true ∧ key ≠ "" := by
  have hword : ∀ c ∈ key.toList, c ≠ '.' := by
    rw [isIdentifier] at h
    split at h
    next => cases h
    next c cs hkey =>
      rw [Bool.and_eq_true, Bool.or_eq_true, decide_eq_true_eq, List.all_eq_true] at h
      rw [hkey]
      rintro d hd rfl
      obtain rfl | hd := List.mem_cons.mp hd
      · exact absurd h.1 (by decide)
      · exact absurd (h.2 _ hd) (by decide)
  constructor
  · simpa [isBareName] using fun hdot => hword _ hdot rfl
  · rintro rfl
    cases h

theorem getNestedValue_append (o : Outcome) (path key : String) (h : isBareName key = true) :
    getNestedValue o (path ++ "." ++ key) = getField (getNestedValue o path) key := by
  rw [getNestedValue, pathParts_append, pathParts_of_isBareName h, List.foldl_append]
  rfl

theorem cutPrefix_eq_some {reference start rest : String} :
    cutPrefix reference start = some rest ↔ reference = start ++ rest := by
  rw [cutPrefix, startsWithText]
  constructor
  · intro h
    split at h
    next hstarts =>
      obtain ⟨tail, htail⟩ := List.isPrefixOf_iff_prefix.mp hstarts
      rw [← htail, List.drop_left] at h
      rw [← Option.some_inj.mp h, ← String.toList_inj, String.toList_append, String.toList_ofList,
        htail]
    next => cases h
  · rintro rfl
    have hstarts : start.toList.isPrefixOf (start ++ rest).toList = true := by
      rw [String.toList_append]
      exact List.isPrefixOf_iff_prefix.mpr (List.prefix_append _ _)
    rw [if_pos hstarts, String.toList_append, List.drop_left, String.ofList_toList]

/-- What follows a bare name and a dot follows the dot of a reference. -/
theorem append_dot_eq {name receiver rest key : String} (hname : isBareName name = true)
    (h : receiver ++ "." ++ key = name ++ "." ++ rest) :
    (receiver = name ∧ key = rest) ∨ ∃ middle, receiver = name ++ "." ++ middle := by
  have hdot : '.' ∉ name.toList := by simpa [isBareName] using hname
  have hpoint : ".".toList = ['.'] := rfl
  rw [← String.toList_inj, String.toList_append, String.toList_append, String.toList_append,
    String.toList_append, hpoint, List.append_assoc, List.append_assoc, List.singleton_append,
    List.singleton_append] at h
  obtain ⟨cs, hcs, hrest⟩ | ⟨cs, hcs, hrest⟩ := List.append_eq_append_iff.mp h
  · cases cs with
    | nil =>
        rw [List.append_nil] at hcs
        exact .inl ⟨(String.toList_inj.mp hcs).symm, String.toList_inj.mp (List.cons.inj hrest).2⟩
    | cons c cs =>
        obtain ⟨rfl, -⟩ := List.cons.inj hrest
        refine absurd ?_ hdot
        rw [hcs]
        exact List.mem_append_right _ List.mem_cons_self
  · cases cs with
    | nil =>
        rw [List.append_nil] at hcs
        exact .inl ⟨String.toList_inj.mp hcs, (String.toList_inj.mp (List.cons.inj hrest).2).symm⟩
    | cons c cs =>
        obtain ⟨rfl, -⟩ := List.cons.inj hrest
        refine .inr ⟨String.ofList cs, ?_⟩
        rw [← String.toList_inj, String.toList_append, String.toList_append, hpoint,
          String.toList_ofList, hcs, List.append_assoc, List.singleton_append]

/-- A variable bound to a value is read through as the value is. -/
theorem Coherent.bind {env : Valuation} (henv : Coherent env) {name : String}
    (hname : isBareName name = true) (v : Value) : Coherent (env.bind name v) := by
  have hpath : ∀ rest, rest ≠ "" →
      env.bind name v (name ++ "." ++ rest) = getNestedValue (.value v) rest := by
    intro rest hrest
    have hne : name ++ "." ++ rest ≠ name := by
      intro heq
      have hlength := congrArg String.length heq
      rw [String.length_append, String.length_append] at hlength
      have hone : ".".length = 1 := rfl
      omega
    rw [Valuation.bind, if_neg hne, cutPrefix_eq_some.mpr rfl]
    exact if_neg hrest
  intro receiver key hreceiver hkey
  obtain ⟨hbare, hnonempty⟩ := isBareName_of_identifier hkey
  by_cases hsame : receiver = name
  · subst hsame
    rw [hpath key hnonempty, getNestedValue, pathParts_of_isBareName hbare, Valuation.bind,
      if_pos rfl]
    rfl
  · cases hcut : cutPrefix receiver (name ++ ".") with
    | some rest =>
        obtain rfl := cutPrefix_eq_some.mp hcut
        have hrest : rest ≠ "" := by
          rintro rfl
          rw [pathParts_append] at hreceiver
          exact hreceiver (List.mem_append_right _ List.mem_cons_self)
        have hlonger : rest ++ "." ++ key ≠ "" := by
          intro heq
          have hlength := congrArg String.length heq
          rw [String.length_append, String.length_append] at hlength
          have hone : ".".length = 1 := rfl
          have hzero : "".length = 0 := rfl
          omega
        have hassoc : name ++ "." ++ rest ++ "." ++ key = name ++ "." ++ (rest ++ "." ++ key) := by
          simp only [String.append_assoc]
        rw [hassoc, hpath _ hlonger, hpath rest hrest, getNestedValue_append _ _ _ hbare]
    | none =>
        have hread : env.bind name v receiver = env receiver := by
          rw [Valuation.bind, if_neg hsame, hcut]
        have hdotted : env.bind name v (receiver ++ "." ++ key) = env (receiver ++ "." ++ key) := by
          have hne : receiver ++ "." ++ key ≠ name := by
            rintro rfl
            have hdot : '.' ∈ (receiver ++ "." ++ key).toList := by
              rw [String.toList_append, String.toList_append]
              exact List.mem_append_left _ (List.mem_append_right _ List.mem_cons_self)
            rw [isBareName, Bool.not_eq_true', List.contains_iff_mem.mpr hdot] at hname
            cases hname
          have hnone : cutPrefix (receiver ++ "." ++ key) (name ++ ".") = none := by
            cases hlong : cutPrefix (receiver ++ "." ++ key) (name ++ ".") with
            | none => rfl
            | some rest =>
                obtain ⟨heq, -⟩ | ⟨middle, heq⟩ := append_dot_eq hname (cutPrefix_eq_some.mp hlong)
                · exact absurd heq hsame
                · rw [cutPrefix_eq_some.mpr heq] at hcut
                  cases hcut
          rw [Valuation.bind, if_neg hne, hnone]
        rw [hread, hdotted]
        exact henv receiver key hreceiver hkey

end References

/-! ## Whole plans -/

section Plans

variable {functions : Functions} {mapped : String → Bool} {dateParse : String → Option Int}
  {now : Int} {env : Valuation}

theorem map_eq_of_forall₂ {β : Type} {f : Node → β} {operands operands' : List Node}
    (h : List.Forall₂ (fun o o' => f o' = f o) operands operands') :
    operands'.map f = operands.map f := by
  induction h with
  | nil => rfl
  | cons hfirst _ ih => rw [List.map_cons, List.map_cons, hfirst, ih]

theorem valuesOf_congr {operands operands' : List Node}
    (h : List.Forall₂ (fun o o' => meaning functions o' env = meaning functions o env)
      operands operands') : valuesOf functions operands' env = valuesOf functions operands env := by
  induction h with
  | nil => rfl
  | cons hfirst _ ih => rw [valuesOf_cons, valuesOf_cons, hfirst, ih]

/-- A function or a connective depends on what its operands mean alone. -/
theorem meaning_congr {operator : PlanOperator} (hoperator : isApplication operator = true)
    {operands operands' : List Node}
    (h : List.Forall₂ (fun o o' => meaning functions o' env = meaning functions o env)
      operands operands') :
    meaning functions (.expression operator operands') env =
      meaning functions (.expression operator operands) env := by
  have htruths : operands'.map (fun o => (meaning functions o env).asBoolean) =
      operands.map fun o => (meaning functions o env).asBoolean :=
    map_eq_of_forall₂ (h.imp fun _ _ hsame => congrArg Outcome.asBoolean hsame)
  have hkleene := Prisma.kleeneReading_meaning functions env
  by_cases hor : operator = .or
  · subst hor
    rw [meaning_or, meaning_or, htruths]
  by_cases hand : operator = .and
  · subst hand
    have hmeaning : ∀ operands : List Node, meaning functions (.expression .and operands) env =
        .ofTruth (Truth.all (operands.map fun o => (meaning functions o env).asBoolean)) := by
      intro operands
      rw [meaning_expression, expressionMeaning, List.map_map]
      rfl
    rw [hmeaning, hmeaning, htruths]
  by_cases hnot : operator = .not
  · subst hnot
    cases h with
    | nil => rfl
    | cons hfirst hrest =>
        cases hrest with
        | nil => rw [meaning_not, meaning_not, hfirst]
        | cons _ _ => rfl
  · have hstrict : isStrict operator = true := by
      unfold isApplication at hoperator
      split at hoperator
      · exact absurd rfl hand
      · exact absurd rfl hor
      · exact absurd rfl hnot
      · exact hoperator
    rw [meaning_strict hstrict, meaning_strict hstrict, valuesOf_congr h]

/-- Exactness is that of the node before its operands are rewritten. -/
theorem exactAt_rewrites {operator : PlanOperator} {operands operands' : List Node}
    (hoperands : List.Forall₂ (Rewrites mapped dateParse (now / 1000000)) operands operands')
    (hinside : ∀ {n n'}, Inside operands n → Rewrites mapped dateParse (now / 1000000) n n' →
      meaning functions n' env = meaning functions n env) :
    ExactAt functions (fun _ => false) dateParse now env (.expression operator operands') ↔
      ExactAt functions mapped dateParse now env (.expression operator operands) := by
  have hlist := listMembership_rewrites operator hoperands
  have hconcat := concatenatedMembership_rewrites operator hoperands
  have hinstant := instantComparison_rewrites operator hoperands
  have hreads : ∀ {c c' : InstantComparison},
      instantComparison dateParse (now / 1000000) (.expression operator operands) = some c →
        c.Rewrites mapped dateParse (now / 1000000) c' →
          meaning functions c'.conversion env = meaning functions c.conversion env ∧
            ∀ n, c'.Exact functions env now n ↔ c.Exact functions env now n := by
    intro c c' hc hrewrites
    obtain ⟨operator', left, right, heq, harithmetic, hliteral⟩ := instantComparison_eq_some hc
    obtain ⟨-, rfl⟩ := Operand.expression.inj heq
    obtain ⟨head, inner, hhead, hoperator⟩ := hrewrites.head
    have hconversion : Inside [left, right] c.conversion := by
      refine .inr ⟨head, inner, hhead ▸ harithmetic, ?_, ?_⟩
      · obtain rfl | rfl | rfl := hoperator <;> rfl
      · have hmem := hrewrites.inside
        rw [hhead] at hmem
        exact hmem
    have harithmeticMeaning := hinside (.inl harithmetic) hrewrites.arithmetic
    have hliteralMeaning := hinside (.inl hliteral) hrewrites.literal
    refine ⟨hinside hconversion hrewrites.conversion, ?_⟩
    intro n
    constructor
    · rintro ⟨hrange, hclock⟩
      rw [hrewrites.operator, hrewrites.bound, hliteralMeaning] at hclock
      rw [hrewrites.bound, harithmeticMeaning, hliteralMeaning] at hrange
      exact ⟨hrange, hclock⟩
    · rintro ⟨hrange, hclock⟩
      refine ⟨?_, ?_⟩
      · rw [hrewrites.bound, harithmeticMeaning, hliteralMeaning]
        exact hrange
      · rw [hrewrites.operator, hrewrites.bound, hliteralMeaning]
        exact hclock
  constructor
  · rintro ⟨hl, hc, hi⟩
    refine ⟨?_, ?_, ?_⟩
    · intro m hm hreference
      rw [hm] at hlist
      cases hafter : listMembership (.expression operator operands') with
      | none => rw [hafter] at hlist; cases hlist
      | some m' =>
          rw [hafter] at hlist
          obtain ⟨hsome⟩ := hlist
          obtain ⟨hrewrites, -, -, hwhere⟩ := hsome
          have hvariable := (referenceOf_isSome hrewrites).mp hreference
          rw [← hinside hwhere hrewrites]
          exact hl hafter ((referenceOf_unmapped _).trans hvariable)
    · intro m hm hreference x v hx hv
      rw [hm] at hconcat
      cases hafter : concatenatedMembership (.expression operator operands') with
      | none => rw [hafter] at hconcat; cases hconcat
      | some m' =>
          rw [hafter] at hconcat
          obtain ⟨hsome⟩ := hconcat
          obtain ⟨helement, hrewrites, hconstants, helementIn, hwhere⟩ := hsome
          have hvariable := (referenceOf_isSome hrewrites).mp hreference
          rw [← hinside helementIn helement] at hx
          rw [← hinside hwhere hrewrites] at hv
          rw [← hconstants]
          exact hc hafter ((referenceOf_unmapped _).trans hvariable) x v hx hv
    · intro c hcomparison n hn
      rw [hcomparison] at hinstant
      cases hafter : instantComparison dateParse (now / 1000000)
          (.expression operator operands') with
      | none => rw [hafter] at hinstant; cases hinstant
      | some c' =>
          rw [hafter] at hinstant
          obtain ⟨hsome⟩ := hinstant
          obtain ⟨hconversion, hexact⟩ := hreads hcomparison hsome
          rw [← hconversion] at hn
          exact (hexact n).mp (hi hafter n hn)
  · rintro ⟨hl, hc, hi⟩
    refine ⟨?_, ?_, ?_⟩
    · intro m' hm hreference
      rw [hm] at hlist
      cases hbefore : listMembership (.expression operator operands) with
      | none => rw [hbefore] at hlist; cases hlist
      | some m =>
          rw [hbefore] at hlist
          obtain ⟨hsome⟩ := hlist
          obtain ⟨hrewrites, -, -, hwhere⟩ := hsome
          have hvariable := (referenceOf_unmapped m'.list).symm.trans hreference
          rw [hinside hwhere hrewrites]
          exact hl hbefore ((referenceOf_isSome hrewrites).mpr hvariable)
    · intro m' hm hreference x v hx hv
      rw [hm] at hconcat
      cases hbefore : concatenatedMembership (.expression operator operands) with
      | none => rw [hbefore] at hconcat; cases hconcat
      | some m =>
          rw [hbefore] at hconcat
          obtain ⟨hsome⟩ := hconcat
          obtain ⟨helement, hrewrites, hconstants, helementIn, hwhere⟩ := hsome
          have hvariable := (referenceOf_unmapped m'.list).symm.trans hreference
          rw [hinside helementIn helement] at hx
          rw [hinside hwhere hrewrites] at hv
          rw [hconstants]
          exact hc hbefore ((referenceOf_isSome hrewrites).mpr hvariable) x v hx hv
    · intro c' hcomparison n hn
      rw [hcomparison] at hinstant
      cases hbefore : instantComparison dateParse (now / 1000000)
          (.expression operator operands) with
      | none => rw [hbefore] at hinstant; cases hinstant
      | some c =>
          rw [hbefore] at hinstant
          obtain ⟨hsome⟩ := hinstant
          obtain ⟨hconversion, hexact⟩ := hreads hbefore hsome
          rw [hconversion] at hn
          exact (hexact n).mpr (hi hbefore n hn)

/-- A function or a connective whose operands keep their meaning keeps it exactly where it is
exact. -/
theorem meaning_application_iff (hfunctions : CelFunctions functions now)
    (hdates : ReadsDates dateParse) (henv : Coherent env) {operator : PlanOperator}
    (hoperator : isApplication operator = true) {operands : List Node} {rewritten : Node}
    (hinside : ∀ {n n'}, Inside operands n → Rewrites mapped dateParse (now / 1000000) n n' →
      meaning functions n' env = meaning functions n env)
    (hreceiver : ∀ o ∈ operands, ∀ name,
      Rewrites mapped dateParse (now / 1000000) o (.var name) → "" ∉ pathParts name)
    (h : Rewrites mapped dateParse (now / 1000000) (.expression operator operands) rewritten) :
    meaning functions rewritten env = meaning functions (.expression operator operands) env ↔
      ExactAt functions mapped dateParse now env (.expression operator operands) := by
  obtain ⟨operands', hoperands, hnode⟩ := rewrites_expression h
  have hsame : meaning functions (.expression operator operands') env =
      meaning functions (.expression operator operands) env := by
    apply meaning_congr hoperator
    rw [List.forall₂_iff_get] at hoperands ⊢
    refine ⟨hoperands.1, ?_⟩
    intro i hi hi'
    exact hinside (.inl (List.get_mem _ _)) (hoperands.2 i hi hi')
  rw [← hsame, ← exactAt_rewrites hoperands hinside]
  refine meaning_rewriteNode_iff hfunctions hdates henv ?_ hnode
  intro receiver key heq
  obtain ⟨-, rfl⟩ := Operand.expression.inj heq
  obtain _ | ⟨hfirst, -⟩ := hoperands
  exact hreceiver _ List.mem_cons_self receiver hfirst

/-- A reference that an exact node becomes has no empty part. -/
theorem Exact.reference {node : Node} (h : Exact functions mapped dateParse now env node)
    {clock : Int} {name : String} (hnode : Rewrites mapped dateParse clock node (.var name)) :
    "" ∉ pathParts name := by
  induction node using Operand.induction generalizing name with
  | value v => cases hnode
  | var reference =>
      obtain rfl := Operand.var.inj (Option.some_inj.mp hnode)
      obtain ⟨⟩ | hpath := h
      exact hpath
  | expression operator operands ih =>
      obtain ⟨operands', hoperands, hrewritten⟩ := rewrites_expression hnode
      obtain ⟨receiver, key, reference, heq, hselected, hvar⟩ :=
        rewriteConstantKeyIndex_eq_some (rewriteNode_var_iff.mp hrewritten)
      obtain ⟨rfl, rfl⟩ := Operand.expression.inj heq
      obtain rfl := Operand.var.inj hvar
      obtain ⟨hkey, rfl⟩ := selectedReference_eq_some hselected
      obtain ⟨hbare, hnonempty⟩ := isBareName_of_identifier hkey
      obtain _ | ⟨hreceiver, -⟩ := hoperands
      cases h with
      | application _ hexact _ =>
          have hpath := ih _ List.mem_cons_self (hexact _ List.mem_cons_self) hreceiver
          rw [pathParts_append, pathParts_of_isBareName hbare, List.mem_append,
            List.mem_singleton]
          rintro (hempty | hempty)
          · exact hpath hempty
          · exact hnonempty hempty.symm
      | overElements hbinding => cases hbinding

theorem isStrict_of_lambdaBinding {operator : PlanOperator} (h : lambdaBinding operator = true) :
    isStrict operator = false := by
  unfold lambdaBinding at h
  split at h
  all_goals first | rfl | cases h

/-- The nodes inside the operands of an exact function are exact. -/
theorem Exact.inside {operands : List Node} {node : Node}
    (h : ∀ o ∈ operands, Exact functions mapped dateParse now env o) (hnode : Inside operands node) :
    Exact functions mapped dateParse now env node := by
  obtain hmem | ⟨operator, inner, hmem, hstrict, hinner⟩ := hnode
  · exact h node hmem
  · cases h _ hmem with
    | application _ hexact _ => exact hexact node hinner
    | ternary => cases hstrict
    | overElements hbinding =>
        rw [isStrict_of_lambdaBinding hbinding] at hstrict
        cases hstrict

theorem mapM_option_congr {α β : Type*} {f g : α → Option β} {items : List α}
    (h : ∀ v ∈ items, f v = g v) : items.mapM f = items.mapM g := by
  induction items with
  | nil => rfl
  | cons v items ih =>
      rw [List.mapM_cons, List.mapM_cons, h v List.mem_cons_self,
        ih fun w hw => h w (List.mem_cons_of_mem v hw)]

theorem macroResult_congr {operator : PlanOperator} {items : List Value} {body body' : Value → Outcome}
    (h : ∀ v ∈ items, body' v = body v) :
    macroResult operator items body' = macroResult operator items body := by
  have htruths : items.map (fun v => (body' v).asBoolean) = items.map fun v => (body v).asBoolean :=
    List.map_congr_left fun v hv => congrArg Outcome.asBoolean (h v hv)
  have hany : (items.any fun v => (body' v).asBoolean = .unknown) =
      items.any fun v => (body v).asBoolean = .unknown := by
    rw [Bool.eq_iff_iff, List.any_eq_true, List.any_eq_true]
    constructor
    · rintro ⟨v, hv, hunknown⟩
      exact ⟨v, hv, h v hv ▸ hunknown⟩
    · rintro ⟨v, hv, hunknown⟩
      exact ⟨v, hv, (h v hv).symm ▸ hunknown⟩
  have hfilter : (items.filter fun v => (body' v).asBoolean = .yes) =
      items.filter fun v => (body v).asBoolean = .yes :=
    List.filter_congr fun v hv => by rw [h v hv]
  have hvalues : items.mapM (fun v => (body' v).toValue) =
      items.mapM fun v => (body v).toValue :=
    mapM_option_congr fun v hv => congrArg Outcome.toValue (h v hv)
  unfold macroResult
  rw [htruths, hany, hfilter, hvalues]

/-- The pass keeps CEL's result of a condition that is exact wherever it is evaluated. -/
theorem meaning_rewritePlan (hfunctions : CelFunctions functions now)
    (hdates : ReadsDates dateParse) {node : Node} (henv : Coherent env)
    (hexact : Exact functions mapped dateParse now env node) {rewritten : Node}
    (h : Rewrites mapped dateParse (now / 1000000) node rewritten) :
    meaning functions rewritten env = meaning functions node env := by
  induction node using Operand.inductionTwo generalizing env rewritten with
  | value v => rw [Option.some_inj.mp h]
  | var name => rw [Option.some_inj.mp h]
  | expression operator operands ih ihInner =>
      cases hexact with
      | application hoperator hoperands hat =>
          refine (meaning_application_iff hfunctions hdates henv hoperator ?_ ?_ h).mpr hat
          · intro n n' hwhere hn
            have hexact := Exact.inside hoperands hwhere
            obtain hmem | ⟨head, inner, hmem, -, hinner⟩ := hwhere
            · exact ih n hmem henv hexact hn
            · exact ihInner _ hmem n hinner henv hexact hn
          · intro o ho name hname
            exact (hoperands o ho).reference hname
      | @ternary _ cond whenTrue whenFalse hcond hwhenTrue hwhenFalse =>
          obtain ⟨operands', hoperands, hnode⟩ := rewrites_expression h
          rw [rewriteNode_untouched rfl] at hnode
          obtain rfl := Option.some_inj.mp hnode
          obtain _ | ⟨hc, hrest⟩ := hoperands
          obtain _ | ⟨ht, hrest⟩ := hrest
          obtain _ | ⟨hf, hrest⟩ := hrest
          obtain _ | _ := hrest
          have hcondMeaning := ih cond List.mem_cons_self henv hcond hc
          rw [meaning_ternary, meaning_ternary, hcondMeaning]
          cases hchosen : (meaning functions cond env).asBoolean with
          | yes =>
              exact ih whenTrue (List.mem_cons_of_mem _ List.mem_cons_self) henv
                (hwhenTrue hchosen) ht
          | no =>
              exact ih whenFalse
                (List.mem_cons_of_mem _ (List.mem_cons_of_mem _ List.mem_cons_self)) henv
                (hwhenFalse hchosen) hf
          | unknown => rfl
      | @overElements _ _ collection body name hbinding hname hcollection hbody =>
          obtain ⟨operands', hoperands, hnode⟩ := rewrites_expression h
          have huntouched : isRewritten operator = false := by
            unfold lambdaBinding at hbinding
            split at hbinding <;> first | rfl | cases hbinding
          rw [rewriteNode_untouched huntouched] at hnode
          obtain rfl := Option.some_inj.mp hnode
          obtain _ | ⟨hc, hrest⟩ := hoperands
          obtain _ | ⟨hlambda, hrest⟩ := hrest
          obtain _ | _ := hrest
          obtain ⟨inner', hinner, hlambdaNode⟩ := rewrites_expression hlambda
          rw [rewriteNode_untouched rfl] at hlambdaNode
          obtain rfl := Option.some_inj.mp hlambdaNode
          obtain _ | ⟨hb, hrest⟩ := hinner
          obtain _ | ⟨hv, hrest⟩ := hrest
          obtain _ | _ := hrest
          obtain rfl := Option.some_inj.mp hv
          rw [meaning_overElements hbinding, meaning_overElements hbinding,
            ih collection List.mem_cons_self henv hcollection hc]
          cases hrange : (meaning functions collection env).range with
          | none => rfl
          | some items =>
              refine macroResult_congr fun v hv => ?_
              exact ihInner _ (List.mem_cons_of_mem _ List.mem_cons_self) body List.mem_cons_self
                (henv.bind hname v) (hbody items hrange v hv) hb

end Plans

end QueryPlanAdapters.Drizzle
