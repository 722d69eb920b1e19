import QueryPlanAdapters.Drizzle.PlanRewrites
import QueryPlanAdapters.Go.Rewrites
import QueryPlanAdapters.Prisma.TemporalComparison

/-!
# Drizzle: what a rewritten node means

A ternary lifted above constants, a projected membership and a constant key keep CEL's
result. A list function and a membership in a concatenation keep it unless the list is a
map, or, for the membership, another value that has a size.
-/

namespace QueryPlanAdapters.Drizzle

open Go

variable {functions : Functions} {env : Valuation}

/-! ## Constants -/

theorem constantEquals_scalar {left : Literal} (h : isScalar left = true) (right : Literal) :
    constantEquals left right = (Value.ofPlan left).valuesEqual (.ofPlan right) := by
  cases left with
  | string s => cases right <;> rfl
  | number d => cases right <;> rfl
  | bool b => cases right <;> rfl
  | null | array | object => cases h

/-- Two lists of scalars, element by element. -/
theorem constantsEqual_eq {lefts rights : List Literal} (hleft : lefts.all isScalar = true) :
    (decide (lefts.length = rights.length) && constantsEqual lefts rights) =
      Value.elementsEqual (lefts.map Value.ofPlan) (rights.map Value.ofPlan) := by
  induction lefts generalizing rights with
  | nil => cases rights <;> rfl
  | cons left lefts ih =>
      cases rights with
      | nil => rfl
      | cons right rights =>
          rw [List.all_cons, Bool.and_eq_true] at hleft
          rw [constantsEqual, List.map_cons, List.map_cons, Value.elementsEqual, ← ih hleft.2,
            constantEquals_scalar hleft.1, Bool.and_left_comm]
          simp only [List.length_cons, Nat.add_right_cancel_iff]

/-- What `evaluateConstant` answers: a scalar or a list of scalars. -/
def isConstant : Literal → Bool
  | .array items => items.all isScalar
  | v => isScalar v

/-- The equality of two constants is CEL's. -/
theorem constantEquals_eq {left : Literal} (h : isConstant left = true) (right : Literal) :
    constantEquals left right = (Value.ofPlan left).valuesEqual (.ofPlan right) := by
  cases left with
  | array lefts =>
      cases right with
      | array rights =>
          rw [constantEquals, constantsEqual_eq h, ofPlan_array, ofPlan_array, Value.valuesEqual]
      | _ => rfl
  | string | number | bool =>
      apply constantEquals_scalar
      exact h
  | null | object => cases h

theorem any_map_ofPlan (x : Value) (items : List Literal) :
    (items.map Value.ofPlan).any x.valuesEqual =
      items.any fun item => x.valuesEqual (.ofPlan item) := by
  rw [List.any_map, Function.comp_def]

/-- An operator that is evaluated gives a constant, and CEL the same. -/
theorem apply_applyConstants {operator : PlanOperator} {left right v : Literal}
    (hleft : isConstant left = true) (hright : isConstant right = true)
    (h : applyConstants operator left right = some v) :
    isStrict operator = true ∧ isConstant v = true ∧
      functions.apply operator [.ofPlan left, .ofPlan right] = .value (.ofPlan v) := by
  unfold applyConstants at h
  split at h
  next as bs =>
    obtain rfl := Option.some_inj.mp h
    refine ⟨rfl, ?_, ?_⟩
    · rw [isConstant, List.all_append, Bool.and_eq_true]
      exact ⟨hleft, hright⟩
    · rw [ofPlan_array, ofPlan_array, ofPlan_array, List.map_append]
      rfl
  next =>
    split at h
    next =>
      obtain rfl := Option.some_inj.mp h
      refine ⟨rfl, rfl, ?_⟩
      rw [constantEquals_eq hleft, Value.ofPlan]
      exact congrArg (fun b => Outcome.value (.bool b)) (Bool.xor_false _)
    next => cases h
  next =>
    split at h
    next =>
      obtain rfl := Option.some_inj.mp h
      refine ⟨rfl, rfl, ?_⟩
      rw [constantEquals_eq hleft, Value.ofPlan]
      exact congrArg (fun b => Outcome.value (.bool b)) (Bool.xor_true _)
    next => cases h
  next items =>
    split at h
    next hscalar =>
      obtain rfl := Option.some_inj.mp h
      rw [Bool.and_eq_true] at hscalar
      refine ⟨rfl, rfl, ?_⟩
      have hany : (items.any fun item => constantEquals left item) =
          (items.map Value.ofPlan).any (Value.ofPlan left).valuesEqual := by
        rw [any_map_ofPlan]
        exact congrArg items.any (funext fun item => constantEquals_eq hleft item)
      rw [hany, ofPlan_array]
      rfl
    next => cases h
  next => cases h

/-- A constant that is evaluated is CEL's value. -/
theorem meaning_evaluateConstant {operand : Node} {v : Literal}
    (h : evaluateConstant operand = some v) :
    isConstant v = true ∧ meaning functions operand env = .value (.ofPlan v) := by
  induction operand using Operand.induction generalizing v with
  | value literal =>
      unfold evaluateConstant at h
      split at h
      next heq =>
        split at h
        next hscalars =>
          obtain rfl := Option.some_inj.mp h
          rw [heq]
          exact ⟨hscalars, rfl⟩
        next => cases h
      next heq =>
        obtain rfl := Operand.value.inj heq
        split at h
        next hscalar =>
          obtain rfl := Option.some_inj.mp h
          refine ⟨?_, rfl⟩
          cases literal with
          | array items => cases hscalar
          | _ => exact hscalar
        next => cases h
      next heq => cases heq
      next => cases h
  | var name => cases h
  | expression operator operands ih =>
      unfold evaluateConstant at h
      split at h
      next heq => cases heq
      next heq => cases heq
      next left right heq =>
        obtain ⟨rfl, rfl⟩ := Operand.expression.inj heq
        obtain ⟨leftValue, hleft, h⟩ := Option.bind_eq_some_iff.mp h
        obtain ⟨rightValue, hright, h⟩ := Option.bind_eq_some_iff.mp h
        obtain ⟨hleftConstant, hleftMeaning⟩ := ih left List.mem_cons_self hleft
        obtain ⟨hrightConstant, hrightMeaning⟩ :=
          ih right (List.mem_cons_of_mem _ List.mem_cons_self) hright
        obtain ⟨hstrict, hconstant, happly⟩ :=
          @apply_applyConstants functions _ _ _ _ hleftConstant hrightConstant h
        refine ⟨hconstant, ?_⟩
        rw [meaning_binary hstrict, hleftMeaning, hrightMeaning]
        exact happly
      next => cases h

/-! ## Lifted ternaries -/

section Ternaries

variable {cond whenTrue whenFalse : Node}

/-- The values of operands that a ternary is found in are those of either arm in its place. -/
theorem valuesOf_findTernary {operands : List Node}
    (hoperands : ∀ o ∈ operands,
      findLiftableTernary o = some (.expression .if [cond, whenTrue, whenFalse]) →
        meaning functions o env = chosenOutcome (meaning functions cond env).asBoolean
          (meaning functions (replaceNode whenTrue o) env)
          (meaning functions (replaceNode whenFalse o) env))
    (h : findTernary operands = some (.expression .if [cond, whenTrue, whenFalse])) :
    (valuesOf functions operands env).elim .error (functions.apply .add) =
      chosenOutcome (meaning functions cond env).asBoolean
        ((valuesOf functions (replaceIn whenTrue operands) env).elim .error (functions.apply .add))
        ((valuesOf functions (replaceIn whenFalse operands) env).elim .error
          (functions.apply .add)) := by
  suffices hvalues : valuesOf functions operands env =
      if (meaning functions cond env).asBoolean = .yes then
        valuesOf functions (replaceIn whenTrue operands) env
      else if (meaning functions cond env).asBoolean = .no then
        valuesOf functions (replaceIn whenFalse operands) env
      else none by
    rw [hvalues]
    cases (meaning functions cond env).asBoolean <;> rfl
  induction operands with
  | nil => cases h
  | cons operand operands ih =>
      obtain ⟨hoperand, hoperands⟩ := List.forall_mem_cons.mp hoperands
      rw [findTernary, Option.or_eq_some_iff] at h
      rw [replaceIn, replaceIn, valuesOf_cons]
      obtain hfound | ⟨hnone, hfound⟩ := h
      · rw [hfound, Option.isSome_some, if_pos rfl, if_pos rfl, hoperand hfound,
          toValue_chosenOutcome]
        cases (meaning functions cond env).asBoolean with
        | yes => exact (valuesOf_cons _ _).symm
        | no => exact (valuesOf_cons _ _).symm
        | unknown => rfl
      · rw [hnone, Option.isSome_none, if_neg Bool.false_ne_true, if_neg Bool.false_ne_true,
          ih hoperands hfound]
        cases (meaning functions cond env).asBoolean with
        | yes => exact (valuesOf_cons _ _).symm
        | no => exact (valuesOf_cons _ _).symm
        | unknown => cases (meaning functions operand env).toValue <;> rfl

variable (functions env) in
/-- An operand that a ternary is found in is either arm in its place, by the condition. -/
theorem meaning_findLiftableTernary {operand : Node}
    (h : findLiftableTernary operand = some (.expression .if [cond, whenTrue, whenFalse])) :
    meaning functions operand env = chosenOutcome (meaning functions cond env).asBoolean
      (meaning functions (replaceNode whenTrue operand) env)
      (meaning functions (replaceNode whenFalse operand) env) := by
  induction operand using Operand.induction with
  | value v => cases h
  | var name => cases h
  | expression operator operands ih =>
      unfold findLiftableTernary at h
      split at h
      next heq =>
        obtain ⟨rfl, rfl⟩ := Operand.expression.inj heq
        obtain ⟨-, rfl⟩ := Operand.expression.inj (Option.some_inj.mp h)
        rw [meaning_ternary, replaceNode, replaceNode]
      next heq =>
        obtain ⟨rfl, rfl⟩ := Operand.expression.inj heq
        rw [meaning_strict rfl, replaceNode, replaceNode, meaning_strict rfl, meaning_strict rfl]
        exact valuesOf_findTernary ih h
      next => cases h

/-- The lifted ternary of one side, of a comparison that is strict in it. -/
theorem meaning_liftSide {side lifted : Node} {comparison : Node → Node}
    (hcongr : ∀ {m n}, meaning functions m env = meaning functions n env →
      meaning functions (comparison m) env = meaning functions (comparison n) env)
    (herror : ∀ {n}, meaning functions n env = .error →
      meaning functions (comparison n) env = .error)
    (h : liftSide side comparison = some lifted) :
    meaning functions lifted env = meaning functions (comparison side) env := by
  unfold liftSide at h
  split at h
  next cond whenTrue whenFalse hfound =>
    split at h
    next thenValue elseValue hthen helse =>
      obtain rfl := Option.some_inj.mp h
      obtain ⟨-, hthen⟩ := @meaning_evaluateConstant functions env _ _ hthen
      obtain ⟨-, helse⟩ := @meaning_evaluateConstant functions env _ _ helse
      have hside := meaning_findLiftableTernary functions env hfound
      rw [meaning_ternary]
      cases hcond : (meaning functions cond env).asBoolean with
      | yes =>
          rw [hcond] at hside
          rw [hcongr hside, hthen]
          rfl
      | no =>
          rw [hcond] at hside
          rw [hcongr hside, helse]
          rfl
      | unknown =>
          rw [hcond] at hside
          rw [herror hside]
          rfl
    next => cases h
  next => cases h

/-- A ternary lifted above a comparison of constants keeps CEL's result. -/
theorem meaning_liftConstantTernary {node lifted : Node}
    (h : liftConstantTernary node = some lifted) :
    meaning functions lifted env = meaning functions node env := by
  unfold liftConstantTernary at h
  split at h
  next operator left right =>
    split at h
    next hliftable =>
      have hstrict : isStrict operator = true := by
        cases operator <;> first | rfl | cases hliftable
      obtain hlifted | ⟨-, hlifted⟩ := Option.or_eq_some_iff.mp h
      · apply meaning_liftSide _ _ hlifted
        · intro m n hsame
          rw [meaning_binary hstrict, meaning_binary hstrict, hsame]
        · intro n hn
          rw [meaning_binary hstrict, hn]
          rfl
      · apply meaning_liftSide _ _ hlifted
        · intro m n hsame
          rw [meaning_binary hstrict, meaning_binary hstrict, hsame]
        · intro n hn
          rw [meaning_binary hstrict, hn]
          cases (meaning functions left env).toValue <;> rfl
    next => cases h
  next => cases h

end Ternaries

/-! ## CEL's functions -/

/-- The values that `size()` measures. -/
def hasSize : Value → Bool
  | .string _ | .array _ | .record _ | .hierarchy _ => true
  | _ => false

def isArray : Value → Bool
  | .array _ => true
  | _ => false

def isRecord : Value → Bool
  | .record _ => true
  | _ => false

/-- CEL's functions that the rewrites move, at an instant of the clock. -/
structure CelFunctions (functions : Functions) (now : Int) : Prop
    extends Prisma.TemporalFunctions functions now where
  converted {values v} : functions.call .timestamp values = .value v → ∃ t, v = .timestamp t
  index (v : Value) (key : String) : functions.call .index [v, .string key] = getField (.value v) key
  key (x : Value) {v : Value} : isRecord v = true →
    ∃ b, functions.call .in [x, v] = .value (.bool b)
  notContainer (x : Value) {v : Value} : isArray v = false → isRecord v = false →
    functions.call .in [x, v] = .error
  notConcatenated {v : Value} (items : List Value) : isArray v = false →
    functions.call .add [v, .array items] = .error
  size {v : Value} : hasSize v = true →
    ∃ n : Nat, functions.call .size [v] = .value (.number (.finite n))
  noSize {v : Value} : hasSize v = false → functions.call .size [v] = .error

/-! ## Selected references -/

/-- A reference reads the field that its last part names. -/
def Coherent (env : Valuation) : Prop :=
  ∀ receiver key, "" ∉ pathParts receiver → isIdentifier key = true →
    env (receiver ++ "." ++ key) = getField (env receiver) key

theorem selectedReference_eq_some {mapped : String → Bool} {receiver key reference : String}
    (h : selectedReference mapped receiver key = some reference) :
    isIdentifier key = true ∧ reference = receiver ++ "." ++ key := by
  rw [selectedReference] at h
  split at h
  next hselected =>
    simp only [Bool.and_eq_true] at hselected
    exact ⟨hselected.1.1, (Option.some_inj.mp h).symm⟩
  next => cases h

/-- A constant key of a receiver is the reference of that name. -/
theorem meaning_selected {now : Int} (hfunctions : CelFunctions functions now)
    (henv : Coherent env) {mapped : String → Bool} {node : Node} {receiver key reference : String}
    (hnode : meaning functions node env = env receiver) (hreceiver : "" ∉ pathParts receiver)
    (h : selectedReference mapped receiver key = some reference) :
    env reference = meaning functions (.expression .index [node, .value (.string key)]) env := by
  obtain ⟨hkey, rfl⟩ := selectedReference_eq_some h
  rw [henv receiver key hreceiver hkey, meaning_binary rfl, hnode]
  cases env receiver with
  | error => rfl
  | value v => exact (hfunctions.index v key).symm

/-! ## List functions -/

/-- The elements of a list, and of nothing else. -/
def listElements : Outcome → Option (List Value)
  | .value (.array items) => some items
  | _ => none

def isMap : Outcome → Bool
  | .value (.record _) => true
  | _ => false

theorem listElements_eq_range {o : Outcome} (h : isMap o = false) : listElements o = o.range := by
  cases o with
  | error => rfl
  | value v =>
      cases v with
      | record fields => cases h
      | _ => rfl

/-- Whether an element is one of the constants. -/
def isAmong (constants : List Literal) (x : Value) : Bool :=
  (constants.map Value.ofPlan).any x.valuesEqual

theorem any_map_ofBool {α : Type} (xs : List α) (p : α → Bool) :
    Truth.any (xs.map fun x => .ofBool (p x)) = .ofBool (xs.any p) := by
  induction xs with
  | nil => rfl
  | cons x xs ih => rw [List.map_cons, Truth.any_cons, ih, Truth.or_ofBool, List.any_cons]

theorem all_map_ofBool {α : Type} (xs : List α) (p : α → Bool) :
    Truth.all (xs.map fun x => .ofBool (p x)) = .ofBool (xs.all p) := by
  induction xs with
  | nil => rfl
  | cons x xs ih => rw [List.map_cons, Truth.all_cons, ih, Truth.and_ofBool, List.all_cons]

theorem ofTruth_ofBool (b : Bool) : Outcome.ofTruth (.ofBool b) = .value (.bool b) := by
  cases b <;> rfl

/-- The disjunction of equalities says whether the element is among the constants. -/
theorem meaning_equalities (m : ListMembership) (x : Value) :
    meaning functions m.equalities (env.bind elementName x) =
      .value (.bool (isAmong m.constants x)) := by
  obtain ⟨list, constants, negate⟩ := m
  cases constants with
  | nil => rfl
  | cons constant constants =>
      have helement : env.bind elementName x elementName = .value x := if_pos rfl
      have hequal : ∀ k : Literal, (meaning functions
          (.expression .eq [.var elementName, .value k]) (env.bind elementName x)).asBoolean =
            .ofBool (x.valuesEqual (.ofPlan k)) := by
        intro k
        rw [meaning_comparison rfl, meaning_var, helement, meaning_value]
        exact congrArg Truth.ofBool (Bool.xor_false _)
      rw [ListMembership.equalities, List.isEmpty_cons, if_neg Bool.false_ne_true, meaning_or,
        List.map_map]
      simp only [Function.comp_def, hequal]
      rw [any_map_ofBool, ofTruth_ofBool, isAmong, any_map_ofPlan]

/-- The `all` over a list; over a map it ranges over the keys. -/
theorem meaning_all (m : ListMembership) :
    meaning functions m.all env =
      (meaning functions m.list env).range.elim .error fun items =>
        .value (.bool (items.all fun x => isAmong m.constants x ^^ m.negate)) := by
  rw [ListMembership.all, meaning_overElements rfl]
  cases (meaning functions m.list env).range with
  | none => rfl
  | some items =>
      have hbody : ∀ x, (meaning functions (if m.negate then .expression .not [m.equalities]
          else m.equalities) (env.bind elementName x)).asBoolean =
            .ofBool (isAmong m.constants x ^^ m.negate) := by
        intro x
        cases m.negate with
        | true =>
            rw [if_pos rfl, meaning_not, meaning_equalities, Outcome.asBoolean_ofTruth,
              Bool.xor_true]
            exact Truth.not_ofBool _
        | false =>
            rw [if_neg Bool.false_ne_true, meaning_equalities, Bool.xor_false]
            rfl
      show Outcome.ofTruth (Truth.all (items.map fun x => Outcome.asBoolean _)) = _
      simp only [hbody]
      rw [all_map_ofBool, ofTruth_ofBool]
      rfl

/-- An `except` or an `intersect` is empty where every element of its list passes. -/
theorem meaning_listFunctionAll {node : Node} {m : ListMembership} (h : listFunctionAll node = some m) :
    comparisonOutcome .eq (meaning functions node env) (.value (.array [])) =
      (listElements (meaning functions m.list env)).elim .error fun items =>
        .value (.bool (items.all fun x => isAmong m.constants x ^^ m.negate)) := by
  unfold listFunctionAll at h
  split at h
  next list constants =>
    split at h
    next =>
      obtain rfl := Option.some_inj.mp h
      rw [meaning_binary rfl, meaning_value, literalValue, ofPlan_array]
      cases meaning functions list env with
      | error => rfl
      | value v =>
          cases v with
          | array items =>
              simp only [Bool.xor_false]
              exact (comparisonOutcome_empty _).trans
                (congrArg (fun b => Outcome.value (.bool b)) (isEmpty_except functions _ _))
          | _ => rfl
    next => cases h
  next list constants =>
    split at h
    next =>
      obtain rfl := Option.some_inj.mp h
      rw [meaning_binary rfl, meaning_value, literalValue, ofPlan_array]
      cases meaning functions list env with
      | error => rfl
      | value v =>
          cases v with
          | array items =>
              simp only [Bool.xor_true]
              refine (comparisonOutcome_empty _).trans
                (congrArg (fun b => Outcome.value (.bool b)) ?_)
              rw [isEmpty_intersect, List.not_any_eq_all_not]
              rfl
          | _ => rfl
    next => cases h
  next => cases h

theorem isEmptyList_eq {node : Node} (h : isEmptyList node = true) : node = .value (.array []) := by
  unfold isEmptyList at h
  split at h
  · rfl
  · cases h

theorem comparisonOutcome_negated (a b : Outcome) :
    comparisonOutcome .ne a b = .ofTruth (comparisonOutcome .eq a b).asBoolean.not := by
  cases a with
  | error => cases b <;> rfl
  | value x =>
      cases b with
      | error => rfl
      | value y =>
          show Outcome.value (.bool (x.valuesEqual y ^^ true)) =
            Outcome.ofTruth (Truth.ofBool (x.valuesEqual y ^^ false)).not
          cases x.valuesEqual y <;> rfl

variable (functions env) in
/-- CEL's result of a node that says that a set function leaves nothing of a list. -/
theorem meaning_listMembership {node : Node} {m : ListMembership} (h : listMembership node = some m) :
    meaning functions node env =
      (listElements (meaning functions m.list env)).elim .error fun items =>
        .value (.bool ((items.all fun x => isAmong m.constants x ^^ m.negate) ^^
          isInequality node)) := by
  have hempty : ∀ left right, (if isEmptyList right then listFunctionAll left
      else if isEmptyList left then listFunctionAll right else none) = some m →
        comparisonOutcome .eq (meaning functions left env) (meaning functions right env) =
          (listElements (meaning functions m.list env)).elim .error fun items =>
            .value (.bool (items.all fun x => isAmong m.constants x ^^ m.negate)) := by
    intro left right h
    split at h
    next hright =>
      obtain rfl := isEmptyList_eq hright
      exact meaning_listFunctionAll h
    next =>
      split at h
      next hleft =>
        obtain rfl := isEmptyList_eq hleft
        rw [← meaning_listFunctionAll h]
        cases meaning functions right env with
        | error => rfl
        | value v =>
            show Outcome.value (.bool ((Value.array []).valuesEqual v ^^ false)) =
              Outcome.value (.bool (v.valuesEqual (.array []) ^^ false))
            rw [Value.valuesEqual_comm]
      next => cases h
  unfold listMembership at h
  split at h
  next list constants =>
    split at h
    next =>
      obtain rfl := Option.some_inj.mp h
      rw [meaning_binary rfl, meaning_value, literalValue, ofPlan_array]
      cases meaning functions list env with
      | error => rfl
      | value v =>
          cases v with
          | array items =>
              simp only [isInequality, Bool.xor_false]
              rfl
          | _ => rfl
    next => cases h
  next left right =>
    have hkind : isInequality (.expression .eq [left, right]) = false := rfl
    rw [meaning_comparison rfl, hempty left right h, hkind]
    simp only [Bool.xor_false]
  next left right =>
    rw [meaning_comparison rfl, comparisonOutcome_negated, hempty left right h, isInequality]
    cases listElements (meaning functions m.list env) with
    | none => rfl
    | some items =>
        simp only [Option.elim_some, Bool.xor_true]
        exact (congrArg Outcome.ofTruth (Truth.not_ofBool _)).trans (ofTruth_ofBool _)
  next => cases h

/-- A list function that is rewritten keeps CEL's result unless its list is a map. -/
theorem meaning_rewriteListFunction_iff {node rewritten : Node} {m : ListMembership}
    (hm : listMembership node = some m) (h : rewriteListFunction node = some rewritten) :
    meaning functions rewritten env = meaning functions node env ↔
      isMap (meaning functions m.list env) = false := by
  have hnode := meaning_listMembership functions env hm
  have hrewritten : meaning functions (if isInequality node then .expression .not [m.all]
      else m.all) env =
        (meaning functions m.list env).range.elim .error fun items => .value (.bool
          ((items.all fun x => isAmong m.constants x ^^ m.negate) ^^ isInequality node)) := by
    cases isInequality node with
    | true =>
        rw [if_pos rfl, meaning_not, meaning_all]
        cases (meaning functions m.list env).range with
        | none => rfl
        | some items =>
            simp only [Option.elim_some, Bool.xor_true]
            exact (congrArg Outcome.ofTruth (Truth.not_ofBool _)).trans (ofTruth_ofBool _)
    | false =>
        rw [if_neg Bool.false_ne_true, meaning_all]
        simp only [Bool.xor_false]
  rw [rewriteListFunction, hm, Option.bind_some] at h
  split at h
  next =>
    obtain rfl := Option.some_inj.mp h
    rw [hrewritten, hnode]
    cases hmap : isMap (meaning functions m.list env) with
    | false =>
        rw [listElements_eq_range hmap]
        exact iff_of_true rfl rfl
    | true =>
        -- CEL has no set function of a map.
        cases hvalue : meaning functions m.list env with
        | error => rw [hvalue] at hmap; cases hmap
        | value v =>
            cases v with
            | record fields =>
                refine iff_of_false ?_ Bool.noConfusion
                intro hsame
                cases hsame
            | _ => rw [hvalue] at hmap; cases hmap
  next => cases h

/-! ## Memberships -/

theorem macroResult_map (items : List Value) (body : Value → Outcome) :
    macroResult .map items body = .error ∨
      ∃ values, macroResult .map items body = .value (.array values) := by
  cases hvalues : items.mapM fun v => (body v).toValue with
  | none =>
      refine .inl ?_
      simp [macroResult, macroFold, hvalues]
  | some values =>
      refine .inr ⟨values, ?_⟩
      simp [macroResult, macroFold, hvalues]

variable (functions env) in
/-- `map()` gives a list, or errs. -/
theorem meaning_map (operands : List Node) :
    meaning functions (.expression .map operands) env = .error ∨
      ∃ items, meaning functions (.expression .map operands) env = .value (.array items) := by
  have hfold : meaning functions (.expression .map operands) env =
      macroMeaning .map operands (operands.map (meaning functions))
        (operands.map fun operand => operand.operands.map (meaning functions)) env := by
    rw [meaning_expression]
    rfl
  rw [hfold]
  unfold macroMeaning
  split
  next =>
    split
    next => exact macroResult_map _ _
    next => exact .inl rfl
  next => exact .inl rfl

/-- A scalar in a projected list, as an intersection with the list of it alone. -/
theorem meaning_projectedMembership {node rewritten : Node}
    (h : projectedMembership node = some rewritten) :
    meaning functions rewritten env = meaning functions node env := by
  unfold projectedMembership at h
  split at h
  next element list operands rest =>
    split at h
    next =>
      obtain rfl := Option.some_inj.mp h
      rw [meaning_binary rfl, meaning_binary rfl, meaning_value, meaning_value, literalValue,
        literalValue, ofPlan_array]
      obtain hmap | ⟨items, hmap⟩ := meaning_map functions env
        (list :: .expression .lambda operands :: rest)
      · rw [hmap]
        rfl
      · rw [hmap]
        refine congrArg (fun b => Outcome.value (.bool b)) ?_
        apply List.any_congr rfl
        intro x
        rw [List.map_singleton, List.any_cons, List.any_nil, Bool.or_false, Value.valuesEqual_comm]
    next => cases h
  next => cases h

/-- What keeps `x in list + constants` apart from its disjunction: the list is a map, or has a
size without being a list, and the element is among the constants. -/
def escapesConcatenation (constants : List Literal) (x list : Value) : Bool :=
  isRecord list || (hasSize list && !isArray list && isAmong constants x)

section Memberships

variable {now : Int}

theorem truth_sized (hfunctions : CelFunctions functions now) (list : Node) :
    (meaning functions (.expression .ge [.expression .size [list], .value (.number 0)])
      env).asBoolean =
        if (meaning functions list env).toValue.any hasSize then .yes else .unknown := by
  rw [meaning_comparison rfl, meaning_unary rfl, meaning_value]
  cases meaning functions list env with
  | error => rfl
  | value v =>
      show (comparisonOutcome .ge (functions.call .size [v]) _).asBoolean =
        if hasSize v then Truth.yes else .unknown
      by_cases hsized : hasSize v = true
      · obtain ⟨n, hn⟩ := hfunctions.size hsized
        have hnonneg : Double.le 0 (.finite n) = true := by
          refine (Double.le_of_isFinite rfl rfl).trans (decide_eq_true ?_)
          exact Nat.cast_nonneg n
        rw [hn, if_pos hsized]
        show (Outcome.value (.bool (Double.le 0 (.finite n)))).asBoolean = .yes
        rw [hnonneg]
        rfl
      · rw [if_neg hsized, hfunctions.noSize (Bool.eq_false_iff.mpr hsized)]
        rfl

/-- The disjunction that a membership in a concatenation becomes. -/
theorem meaning_disjunction (hfunctions : CelFunctions functions now) (m : ConcatenatedMembership) :
    meaning functions m.disjunction env =
      .ofTruth ((meaning functions (.expression .in [m.element, m.list]) env).asBoolean.or
        ((meaning functions (.expression .in [m.element, .value (.array m.constants)])
            env).asBoolean.and
          (if (meaning functions m.list env).toValue.any hasSize then .yes else .unknown))) := by
  have hkleene := Prisma.kleeneReading_meaning functions env
  have hand := hkleene.and [.expression .in [m.element, .value (.array m.constants)],
    .expression .ge [.expression .size [m.list], .value (.number 0)]]
  rw [List.map_cons, List.map_cons, List.map_nil, Truth.all_cons, Truth.all_cons, Truth.all_nil,
    Truth.and_yes, truth_sized hfunctions] at hand
  rw [ConcatenatedMembership.disjunction, meaning_or, List.map_cons, List.map_cons, List.map_nil,
    Truth.any_cons, Truth.any_cons, Truth.any_nil, Truth.or_no, hand]

theorem meaning_in_constants (element : Node) (constants : List Literal) :
    meaning functions (.expression .in [element, .value (.array constants)]) env =
      (meaning functions element env).toValue.elim .error fun x =>
        .value (.bool (isAmong constants x)) := by
  rw [meaning_binary rfl, meaning_value, literalValue, ofPlan_array]
  rfl

theorem meaning_in_concatenation (m : ConcatenatedMembership) :
    meaning functions (.expression .in
      [m.element, .expression .add [m.list, .value (.array m.constants)]]) env =
        (meaning functions m.element env).toValue.elim .error fun x =>
          (meaning functions m.list env).toValue.elim .error fun v =>
            (functions.apply .add [v, .array (m.constants.map Value.ofPlan)]).toValue.elim .error
              fun whole => functions.apply .in [x, whole] := by
  rw [meaning_binary rfl, meaning_binary rfl, meaning_value, literalValue, ofPlan_array]
  cases (meaning functions m.element env).toValue with
  | none => rfl
  | some x => cases (meaning functions m.list env).toValue <;> rfl

/-- A membership in a list that is no list is an error, in a concatenation too. -/
theorem apply_notArray (hfunctions : CelFunctions functions now) {v : Value}
    (h : isArray v = false) (x : Value) (items : List Value) :
    functions.apply .add [v, .array items] = .error ∧
      functions.apply .in [x, v] = functions.call .in [x, v] := by
  have hcall := hfunctions.notConcatenated items h
  cases v with
  | array items => cases h
  | _ => exact ⟨hcall, rfl⟩

/-- The disjunction against the membership, of an element and a list that have values. -/
theorem disjunction_eq_iff (hfunctions : CelFunctions functions now) (constants : List Literal)
    (x v : Value) :
    Outcome.ofTruth ((functions.apply .in [x, v]).asBoolean.or
        ((Truth.ofBool (isAmong constants x)).and (if hasSize v then .yes else .unknown))) =
      ((functions.apply .add [v, .array (constants.map Value.ofPlan)]).toValue.elim .error
        fun whole => functions.apply .in [x, whole]) ↔
      escapesConcatenation constants x v = false := by
  rw [escapesConcatenation]
  cases harray : isArray v with
  | true =>
      cases v with
      | array items =>
          refine iff_of_true ?_ rfl
          show Outcome.ofTruth ((Truth.ofBool (items.any x.valuesEqual)).or
            ((Truth.ofBool (isAmong constants x)).and .yes)) =
              .value (.bool ((items ++ constants.map Value.ofPlan).any x.valuesEqual))
          rw [Truth.and_yes, Truth.or_ofBool, ofTruth_ofBool, List.any_append, isAmong]
      | _ => cases harray
  | false =>
      obtain ⟨hadd, hin⟩ := apply_notArray hfunctions harray x (constants.map Value.ofPlan)
      rw [hadd, hin]
      cases hrecord : isRecord v with
      | true =>
          obtain ⟨b, hb⟩ := hfunctions.key x hrecord
          have hsized : hasSize v = true := by
            cases v with
            | record fields => rfl
            | _ => cases hrecord
          rw [hb, hsized]
          refine iff_of_false ?_ Bool.noConfusion
          cases b <;> cases isAmong constants x <;> exact Outcome.noConfusion
      | false =>
          rw [hfunctions.notContainer x harray hrecord]
          cases hasSize v <;> cases isAmong constants x
          · exact iff_of_true rfl rfl
          · exact iff_of_true rfl rfl
          · exact iff_of_true rfl rfl
          · exact iff_of_false Outcome.noConfusion Bool.noConfusion

variable (env) in
/-- A membership in a concatenation keeps CEL's result unless its list escapes it. -/
theorem meaning_disjunction_iff (hfunctions : CelFunctions functions now)
    (m : ConcatenatedMembership) :
    meaning functions m.disjunction env = meaning functions (.expression .in
        [m.element, .expression .add [m.list, .value (.array m.constants)]]) env ↔
      ∀ x v, meaning functions m.element env = .value x → meaning functions m.list env = .value v →
        escapesConcatenation m.constants x v = false := by
  rw [meaning_disjunction hfunctions, meaning_in_concatenation, meaning_in_constants,
    meaning_binary rfl]
  cases meaning functions m.element env with
  | error =>
      refine iff_of_true ?_ ?_
      · cases (meaning functions m.list env).toValue.any hasSize <;> rfl
      · rintro x v ⟨⟩
  | value x =>
      cases meaning functions m.list env with
      | error =>
          refine iff_of_true ?_ ?_
          · show Outcome.ofTruth (Truth.or .unknown
              ((Truth.ofBool (isAmong m.constants x)).and .unknown)) = .error
            cases isAmong m.constants x <;> rfl
          · rintro x' v - ⟨⟩
      | value v =>
          refine (disjunction_eq_iff hfunctions m.constants x v).trans ?_
          constructor
          · rintro hescapes x' v' ⟨⟩ ⟨⟩
            exact hescapes
          · intro hall
            exact hall x v rfl rfl

end Memberships

end QueryPlanAdapters.Drizzle
