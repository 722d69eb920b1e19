import QueryPlanAdapters.Convex.MixedArithmetic

/-!
# Convex: int arithmetic is exact

An int crosses between JavaScript's numbers and bigints at every node of a tree. CEL's
own ints carry their range here, and the evaluator is shown to compute over them: the
integer result at every node, and an error where an operand errs, a divisor is zero or
a result leaves the range.
-/

namespace QueryPlanAdapters.Convex

/-! ## CEL's ints -/

structure CelInt where
  value : Int
  fits : int64Min ≤ value ∧ value ≤ int64Max

namespace CelInt

def ofInt (n : Int) : Option CelInt :=
  if h : int64Min ≤ n ∧ n ≤ int64Max then some ⟨n, h⟩ else none

/-- The exact result, unless the divisor is zero or the result does not fit. -/
def combine (op : ArithmeticOperator) (a b : CelInt) : Option CelInt :=
  match op with
  | .add => ofInt (a.value + b.value)
  | .sub => ofInt (a.value - b.value)
  | .mult => ofInt (a.value * b.value)
  | .div => if b.value = 0 then none else ofInt (Int.tdiv a.value b.value)
  | .mod => if b.value = 0 then none else ofInt (Int.tmod a.value b.value)

/-- What `int()` makes of an evaluated operand: an int, the integer toward zero of a
double strictly between the bounds, or the int that a text spells. -/
def convert : Outcome → Option CelInt
  | .value (.bigint n) => ofInt n
  | .value (.number d) =>
      if d.isFinite ∧ -(2 ^ 63) < d.toRat ∧ d.toRat < 2 ^ 63 then ofInt d.trunc else none
  | .value (.string s) => (parseCelInt s).bind ofInt
  | _ => none

/-- How an int is carried: a number in JavaScript's safe range, and a bigint past it. -/
def carried (n : CelInt) : Value :=
  if isSafeInteger n.value then .number (.finite n.value) else .bigint n.value

def outcome : Option CelInt → Outcome
  | some n => .value n.carried
  | none => .error

theorem celInt_eq (n : Int) : celInt n = outcome (ofInt n) := by
  rw [celInt, ofInt]
  by_cases h : int64Min ≤ n ∧ n ≤ int64Max
  · have hfits : ¬ (n < int64Min ∨ int64Max < n) := by omega
    rw [if_neg hfits, dif_pos h]
    simp only [outcome, carried]
    split <;> rfl
  · have hleaves : n < int64Min ∨ int64Max < n := by omega
    rw [if_pos hleaves, dif_neg h]
    rfl

theorem ofInt_of_isSafeInteger {n : Int} (h : isSafeInteger n = true) :
    ∃ fits, ofInt n = some ⟨n, fits⟩ := by
  have hfits : int64Min ≤ n ∧ n ≤ int64Max := by
    simp only [isSafeInteger, Bool.and_eq_true, decide_eq_true_eq] at h
    simp only [int64Min, int64Max]
    omega
  exact ⟨hfits, dif_pos hfits⟩

/-- An int is read back exactly from what carries it. -/
theorem toBigInt_outcome (result : Option CelInt) :
    toBigInt (outcome result) = result.map CelInt.value := by
  cases result with
  | none => rfl
  | some n =>
      rw [outcome, carried]
      split
      · simp [toBigInt, Double.isInteger, Double.isFinite, Double.toRat, Double.trunc]
      · rfl

/-- Arithmetic over operands that are read as ints. -/
theorem intArithmetic_eq {op : ArithmeticOperator} {l r : Outcome} {a b : Option CelInt}
    (hleft : toBigInt l = a.map CelInt.value) (hright : toBigInt r = b.map CelInt.value) :
    intArithmetic op l r = outcome (a.bind fun a => b.bind fun b => combine op a b) := by
  rw [intArithmetic, hleft, hright]
  cases a with
  | none => rfl
  | some a =>
      cases b with
      | none => rfl
      | some b =>
          show (match op with
            | .add => celInt (a.value + b.value)
            | .sub => celInt (a.value - b.value)
            | .mult => celInt (a.value * b.value)
            | .div => if b.value = 0 then .error else celInt (Int.tdiv a.value b.value)
            | .mod => if b.value = 0 then .error else celInt (Int.tmod a.value b.value)) =
              outcome (combine op a b)
          cases op with
          | add | sub | mult => exact celInt_eq _
          | div | mod =>
              by_cases hzero : b.value = 0
              · simp only [combine, hzero, if_true]
                rfl
              · simp only [combine, hzero, if_false]
                exact celInt_eq _

theorem convertToInt_eq (o : Outcome) : convertToInt o = outcome (convert o) := by
  cases o with
  | error => rfl
  | value v =>
      cases v with
      | bigint n => exact celInt_eq n
      | string s =>
          simp only [convertToInt, convert]
          cases parseCelInt s with
          | none => rfl
          | some n => exact celInt_eq n
      | number d =>
          simp only [convertToInt, convert]
          by_cases h : d.isFinite ∧ -(2 ^ 63) < d.toRat ∧ d.toRat < 2 ^ 63
          · obtain ⟨hfinite, hmin, hmax⟩ := h
            have hrefused : ¬ (!d.isFinite || decide (d.toRat ≤ -(2 ^ 63)) ||
                decide (2 ^ 63 ≤ d.toRat)) = true := by
              simp [hfinite, hmin, hmax]
            rw [if_neg hrefused, if_pos ⟨hfinite, hmin, hmax⟩]
            exact celInt_eq _
          · have hrefused : (!d.isFinite || decide (d.toRat ≤ -(2 ^ 63)) ||
                decide (2 ^ 63 ≤ d.toRat)) = true := by
              cases hfinite : d.isFinite with
              | false => rfl
              | true =>
                  rw [hfinite] at h
                  simp only [Bool.not_true, Bool.false_or, Bool.or_eq_true, decide_eq_true_eq]
                  by_contra hbounds
                  rw [not_or, not_le, not_le] at hbounds
                  exact h ⟨rfl, hbounds.1, hbounds.2⟩
            rw [if_pos hrefused, if_neg h]
            rfl
      | _ => rfl

end CelInt

/-! ## Trees -/

/-- An int expression: conversions and sizes of any operands, integral constants of the
safe range, and arithmetic over these. -/
inductive IntTree where
  | int (operand : Operand)
  | size (operand : Operand)
  | constant (literal : FiniteDouble) (integral : literal.value.isInteger = true)
      (safe : isSafeInteger literal.value.trunc = true)
  | arithmetic (op : ArithmeticOperator) (left right : IntTree)

def planOperator : ArithmeticOperator → PlanOperator
  | .add => .add
  | .sub => .sub
  | .mult => .mult
  | .div => .div
  | .mod => .mod

/-- The members of a text, a list or a map. -/
def memberCount : Outcome → Option Nat
  | .value (.string s) => some s.length
  | .value (.array items) => some items.length
  | .value (.record fields) => some fields.length
  | _ => none

namespace IntTree

def node : IntTree → Operand
  | int operand => .expression .int [operand]
  | size operand => .expression .size [operand]
  | constant literal _ _ => .value (.number literal)
  | arithmetic op left right => .expression (planOperator op) [left.node, right.node]

section Evaluation

variable [Double.Rounding] (scope : Scope)

/-- The integer a tree denotes, none for CEL's error. An operand of a leaf may throw. -/
def exact : IntTree → Except Thrown (Option CelInt)
  | int operand => do return CelInt.convert (← evaluate operand scope)
  | size operand => do return (memberCount (← evaluate operand scope)).bind fun n => CelInt.ofInt n
  | constant literal _ _ => return CelInt.ofInt literal.value.trunc
  | arithmetic op left right => do
      let a ← left.exact
      let b ← right.exact
      return a.bind fun a => b.bind fun b => CelInt.combine op a b

/-- No text, list or map that is counted is longer than JavaScript's can be. -/
def SizesSafe : IntTree → Prop
  | int _ | constant _ _ _ => True
  | size operand => ∀ o n, evaluate operand scope = .ok o → memberCount o = some n → n < 2 ^ 53
  | arithmetic _ left right => left.SizesSafe ∧ right.SizesSafe

end Evaluation

end IntTree

section Exactness

variable [Double.Rounding] {scope : Scope}

omit [Double.Rounding] in
theorem sizeOf_eq {o : Outcome} (h : ∀ n, memberCount o = some n → n < 2 ^ 53) :
    sizeOf o = CelInt.outcome ((memberCount o).bind fun n => CelInt.ofInt n) := by
  have hcount : ∀ n : Nat, n < 2 ^ 53 →
      Outcome.value (.number (.finite n)) = CelInt.outcome (CelInt.ofInt n) := by
    intro n hn
    have hsafe : isSafeInteger n = true := by
      simp only [isSafeInteger, Bool.and_eq_true, decide_eq_true_eq]
      omega
    obtain ⟨fits, hofInt⟩ := CelInt.ofInt_of_isSafeInteger hsafe
    rw [hofInt, CelInt.outcome, CelInt.carried, if_pos hsafe]
    simp
  cases o with
  | error => rfl
  | value v =>
      cases v with
      | string s => exact hcount _ (h _ rfl)
      | array items => exact hcount _ (h _ rfl)
      | record fields => exact hcount _ (h _ rfl)
      | _ => rfl

omit [Double.Rounding] in
theorem isIntOperand_node {op : ArithmeticOperator} {left right : IntTree}
    (h : isIntExpression (.expression (planOperator op) [left.node, right.node]) = true) :
    isIntOperand left.node = true ∧ isIntOperand right.node = true := by
  rw [isIntExpression_expression] at h
  cases op <;> simp_all [planOperator, arithmeticOperator]

/-- An operand of an int node is read as the int it denotes. -/
theorem toBigInt_intOperand {t : IntTree} (hoperand : isIntOperand t.node = true)
    (hexpression : isIntExpression t.node = true →
      evaluate t.node scope = (t.exact scope).map CelInt.outcome) :
    (evaluate t.node scope).map toBigInt =
      (t.exact scope).map fun result => result.map CelInt.value := by
  have hcarried : isIntExpression t.node = true → (evaluate t.node scope).map toBigInt =
      (t.exact scope).map fun result => result.map CelInt.value := by
    intro hint
    rw [hexpression hint]
    cases t.exact scope with
    | error e => rfl
    | ok result => exact congrArg Except.ok (CelInt.toBigInt_outcome result)
  cases t with
  | int operand => exact hcarried rfl
  | size operand => exact hcarried rfl
  | constant literal integral safe =>
      obtain ⟨fits, hofInt⟩ := CelInt.ofInt_of_isSafeInteger safe
      rw [IntTree.node, evaluate_value, IntTree.exact, hofInt]
      show Except.ok (toBigInt (.value (.number literal.value))) = _
      rw [toBigInt, if_pos integral]
      rfl
  | arithmetic op left right =>
      apply hcarried
      simpa [isIntOperand, IntTree.node, isIntegralConstant] using hoperand

/-- A node over certain ints evaluates both of its operands and combines them as ints. -/
theorem evaluate_intNode {op : ArithmeticOperator} {left right : Operand}
    (h : isIntExpression (.expression (planOperator op) [left, right]) = true) :
    evaluate (.expression (planOperator op) [left, right]) scope = do
      let l ← evaluate left scope
      let r ← evaluate right scope
      return intArithmetic op l r := by
  have hcall : evaluateOperator (callOf (planOperator op) [left, right] scope) =
      arithmetic op (callOf (planOperator op) [left, right] scope) := by
    cases op <;> rfl
  have htemporal : isTemporalNode (planOperator op) [left, right] = false := by
    have hkind := temporalKindOf_isIntExpression h
    have hoperand : ∀ o ∈ [left, right], temporalKindOf o = none := by
      intro o ho
      have hint : isIntOperand o = true := by
        rw [isIntExpression_expression] at h
        have hconversion : ¬ (planOperator op = .int ∨ planOperator op = .size) := by
          cases op <;> simp [planOperator]
        have harithmetic : (arithmeticOperator (planOperator op)).isSome = true := by
          cases op <;> rfl
        rw [if_neg hconversion, if_pos harithmetic, Bool.and_eq_true, List.all_eq_true] at h
        exact h.1 o ho
      cases o with
      | value literal => rfl
      | var name => rfl
      | expression operator operands =>
          apply temporalKindOf_isIntExpression
          simpa [isIntOperand, isIntegralConstant] using hint
    simp [isTemporalNode, hoperand]
  have hfalse : isTemporalNode (callOf (planOperator op) [left, right] scope).operator
      (callOf (planOperator op) [left, right] scope).operands = false := htemporal
  have hmode : arithmeticMode (callOf (planOperator op) [left, right] scope).scope.isBound
      (callOf (planOperator op) [left, right] scope).operator
      (callOf (planOperator op) [left, right] scope).operands = .int := if_pos h
  rw [evaluate_expression, hcall, arithmetic, hfalse, if_neg Bool.false_ne_true, hmode]
  rfl

/-- The evaluator computes the integer that an int expression denotes, and errs exactly
where it denotes none. -/
theorem intExpression_exact (t : IntTree) (hint : isIntExpression t.node = true)
    (hsizes : t.SizesSafe scope) :
    evaluate t.node scope = (t.exact scope).map CelInt.outcome := by
  induction t with
  | int operand =>
      have hcall : evaluate (.expression .int [operand]) scope = do
          return convertToInt (← evaluate operand scope) := by
        rw [evaluate_expression]
        rfl
      rw [IntTree.node, IntTree.exact, hcall]
      cases evaluate operand scope with
      | error e => rfl
      | ok o => exact congrArg Except.ok (CelInt.convertToInt_eq o)
  | size operand =>
      have hcall : evaluate (.expression .size [operand]) scope = do
          return sizeOf (← evaluate operand scope) := by
        rw [evaluate_expression]
        rfl
      rw [IntTree.node, IntTree.exact, hcall]
      cases hoperand : evaluate operand scope with
      | error e => rfl
      | ok o => exact congrArg Except.ok (sizeOf_eq fun n => hsizes o n hoperand)
  | constant literal integral safe => cases hint
  | arithmetic op left right ihl ihr =>
      obtain ⟨hleft, hright⟩ := isIntOperand_node hint
      have hl := toBigInt_intOperand hleft fun h => ihl h hsizes.1
      have hr := toBigInt_intOperand hright fun h => ihr h hsizes.2
      rw [IntTree.node, IntTree.exact, evaluate_intNode hint]
      obtain ⟨e, hl, hexact⟩ | ⟨l, a, hl, hexactL, hreadL⟩ := Except.map_eq_map hl
      · rw [hl, hexact]
        rfl
      · rw [hl, hexactL]
        obtain ⟨e, hr, hexact⟩ | ⟨r, b, hr, hexactR, hreadR⟩ := Except.map_eq_map hr
        · rw [hr, hexact]
          rfl
        · rw [hr, hexactR]
          exact congrArg Except.ok (CelInt.intArithmetic_eq hreadL hreadR)

end Exactness

/-- The only quotient of two ints that overflows. -/
example : CelInt.combine .div ⟨int64Min, by decide⟩ ⟨-1, by decide⟩ = none := by decide

/-- `int("9007199254740993") * (size("abcd") - 1)`, of factors on both sides of the safe range. -/
def pastSafeRange : IntTree :=
  .arithmetic .mult (.int (.value (.string "9007199254740993")))
    (.arithmetic .sub (.size (.value (.string "abcd"))) (.constant 1 rfl rfl))

theorem intExpression_exact_pastSafeRange :
    evaluate pastSafeRange.node emptyScope = .ok (.value (.bigint 27021597764222979)) := by
  rw [intExpression_exact pastSafeRange (by decide)]
  · simp only [pastSafeRange, IntTree.exact, evaluate_value]
    rfl
  · refine ⟨True.intro, ?_, True.intro⟩
    intro o n ho hn
    rw [evaluate_value] at ho
    obtain rfl := Except.ok.inj ho
    obtain rfl := Option.some.inj hn
    decide

end QueryPlanAdapters.Convex
