import QueryPlanAdapters.Go.EqualityAgreement
import QueryPlanAdapters.Numeric.Exact
import Mathlib.Data.Option.NAry

/-!
# Go: arithmetic with divisions

A division by zero is NaN or an infinity in CEL, and nothing that SQL can carry. The
translator keeps the three cases apart until a comparison folds them, and refuses what
the sign of a stored zero decides, which SQL does not see. A sum, difference, product or
quotient that is accepted denotes its IEEE value on every row, for either sign of each
stored zero, and nothing where a column is missing.
-/

namespace QueryPlanAdapters.Go

open Sql

/-! ## Arithmetic in CEL -/

/-- The operators that keep finite operands finite. -/
inductive RingOperator where
  | add | sub | mult
  deriving DecidableEq

namespace RingOperator

def toArith : RingOperator → ArithOp
  | add => .add
  | sub => .sub
  | mult => .mult

def toPlan : RingOperator → PlanOperator
  | add => .add
  | sub => .sub
  | mult => .mult

/-- The operator over rationals. -/
def rational : RingOperator → ℚ → ℚ → ℚ
  | add => (· + ·)
  | sub => (· - ·)
  | mult => (· * ·)

end RingOperator

/-- An expression over numeric constants and columns. -/
inductive Arithmetic where
  | literal (d : FiniteDouble)
  | reference (name : String)
  | ring (op : RingOperator) (left right : Arithmetic)
  | quotient (left right : Arithmetic)

namespace Arithmetic

def node : Arithmetic → Node
  | literal d => .value (.number d.value)
  | reference name => .var name
  | ring op left right => .expression op.toPlan [left.node, right.node]
  | quotient left right => .expression .div [left.node, right.node]

/-- The IEEE value, nothing where an attribute is missing. -/
def ieee [Double.Rounding] (attributes : String → Option Double) : Arithmetic → Option Double
  | literal d => some d.value
  | reference name => attributes name
  | ring op left right =>
      Option.map₂ (applyIEEE op.toArith) (left.ieee attributes) (right.ieee attributes)
  | quotient left right => Option.map₂ Double.div (left.ieee attributes) (right.ieee attributes)

end Arithmetic

section Ring

variable [Double.Rounding] {op : RingOperator} {a b : Double} {p q : ℚ}

theorem hasValue_applyIEEE (hexact : Double.Exact) (ha : a.HasValue p) (hb : b.HasValue q) :
    (applyIEEE op.toArith a b).HasValue (op.rational p q) := by
  cases op with
  | add => exact ha.add hexact hb
  | sub => exact ha.sub hexact hb
  | mult => exact ha.mul hexact hb

theorem isFinite_applyIEEE_left (ha : a.isFinite = false) (hb : b.isFinite = true) :
    (applyIEEE op.toArith a b).isFinite = false := by
  cases op with
  | add => exact Double.isFinite_add_left ha hb
  | sub => exact Double.isFinite_sub_left ha hb
  | mult => exact Double.isFinite_mul (by rw [ha]; rfl)

theorem isFinite_applyIEEE_right (ha : a.isFinite = true) (hb : b.isFinite = false) :
    (applyIEEE op.toArith a b).isFinite = false := by
  cases op with
  | add => exact Double.isFinite_add_right ha hb
  | sub => exact Double.isFinite_sub_right ha hb
  | mult => exact Double.isFinite_mul (by rw [hb, Bool.and_false])

end Ring

/-! ## What the database computes -/

/-- What the database holds for a rational, or for none: a zero has no sign. -/
def Shows (x : SqlValue) : Option ℚ → Prop
  | none => x = .null
  | some q => ∃ d : Double, x = .number d ∧ d.HasValue q

theorem Shows.inj {x : SqlValue} {p q : Option ℚ} (hp : Shows x p) (hq : Shows x q) : p = q := by
  cases p with
  | none =>
      cases q with
      | none => rfl
      | some q =>
          obtain ⟨d, h, -⟩ := hq
          cases hp.symm.trans h
  | some p =>
      obtain ⟨d, rfl, hd⟩ := hp
      cases q with
      | none => cases hq
      | some q =>
          obtain ⟨e, h, he⟩ := hq
          obtain rfl := SqlValue.number.inj h
          exact congrArg some (hd.2.symm.trans he.2)

/-- An engine whose numeric operators are exact, and NULL over a NULL. -/
structure ExactEngine (engine : Engine) : Prop where
  ring {x y : SqlValue} {a b : Option ℚ} (op : RingOperator) (hx : Shows x a) (hy : Shows y b) :
    Shows (engine.arith op.toArith x y) (Option.map₂ op.rational a b)
  quotient {x y : SqlValue} {a b : Option ℚ} (hx : Shows x a) (hy : Shows y b)
    (hb : b ≠ some 0) : Shows (engine.arith .div x y) (Option.map₂ (· / ·) a b)
  castFloat {x : SqlValue} {a : Option ℚ} (hx : Shows x a) : Shows (engine.castFloat x) a

/-- A comparison of numbers, in the database and in IEEE arithmetic. -/
theorem compare_shows {engine : Engine} {op : CmpOp} {x y : SqlValue} {a b : Option Double}
    (ha : ∀ d ∈ a, d.isFinite = true) (hb : ∀ d ∈ b, d.isFinite = true)
    (hx : Shows x (a.map Double.toRat)) (hy : Shows y (b.map Double.toRat)) :
    engine.compare op x y = (Option.map₂ (fun d e => op.test d e) a b).elim .unknown .ofBool := by
  cases a with
  | none =>
      obtain rfl : x = .null := hx
      exact Engine.compare_null_left y
  | some a =>
      cases b with
      | none =>
          obtain rfl : y = .null := hy
          exact Engine.compare_null_right x
      | some b =>
          obtain ⟨d, rfl, hd⟩ := hx
          obtain ⟨e, rfl, he⟩ := hy
          have ha := Double.hasValue_toRat (ha a rfl)
          have hb := Double.hasValue_toRat (hb b rfl)
          rw [Engine.compare_number]
          refine congrArg Truth.ofBool ?_
          cases op with
          | eq => exact (Double.eq_of_hasValue hd he).trans (Double.eq_of_hasValue ha hb).symm
          | ne =>
              exact congrArg not
                ((Double.eq_of_hasValue hd he).trans (Double.eq_of_hasValue ha hb).symm)
          | lt => exact (Double.lt_of_hasValue hd he).trans (Double.lt_of_hasValue ha hb).symm
          | le => exact (Double.le_of_hasValue hd he).trans (Double.le_of_hasValue ha hb).symm
          | gt => exact (Double.lt_of_hasValue he hd).trans (Double.lt_of_hasValue hb ha).symm
          | ge => exact (Double.le_of_hasValue he hd).trans (Double.le_of_hasValue hb ha).symm

section Denotation

variable {engine : Engine} {db : Database} {env : RowEnv}

/-- A sum, difference or product of numbers that may be operands of a division. -/
inductive Plain (env : RowEnv) : Expr → Prop
  | column {c : Column} {q : Option ℚ} (hshows : Shows (env c.qualifier c.name) q) :
      Plain env (.column c)
  | literal {d : Double} (hd : d.isFinite = true) : Plain env (.lit (.number d))
  | arith (op : RingOperator) {l r : Expr} (hl : Plain env l) (hr : Plain env r) :
      Plain env (.arith op.toArith l r)
  | float {x : Expr} (hx : Plain env x) : Plain env (.cast x .float)

theorem eval_arith (op : ArithOp) (l r : Expr) : (Expr.arith op l r).eval engine db env =
    engine.arith op (l.eval engine db env) (r.eval engine db env) := rfl

theorem Plain.shows (hengine : ExactEngine engine) {e : Expr} (h : Plain env e) :
    ∃ q, Shows (e.eval engine db env) q := by
  induction h with
  | column hshows => exact ⟨_, hshows⟩
  | literal hd => exact ⟨some _, _, rfl, Double.hasValue_toRat hd⟩
  | arith op hl hr ihl ihr =>
      obtain ⟨p, hp⟩ := ihl
      obtain ⟨q, hq⟩ := ihr
      exact ⟨_, hengine.ring op hp hq⟩
  | float hx ih =>
      obtain ⟨q, hq⟩ := ih
      exact ⟨q, hengine.castFloat hq⟩

/-- Plain operands that the translator finds equal show one number. -/
theorem Plain.shows_of_beq (hengine : ExactEngine engine) {e e' : Expr} (h : Plain env e)
    (h' : Plain env e') (heq : (e == e') = true) {q : Option ℚ}
    (hq : Shows (e.eval engine db env) q) : Shows (e'.eval engine db env) q := by
  induction h generalizing e' q with
  | @column c p hshows =>
      cases h' with
      | @column c' p' hshows' =>
          obtain rfl : c = c' := of_decide_eq_true heq
          exact hq
      | literal | arith | float => cases heq
  | @literal d hd =>
      cases h' with
      | @literal d' hd' =>
          have hvalue : d.toRat = d'.toRat := by
            have heq : d.eq d' = true := heq
            rw [Double.eq_of_isFinite hd hd'] at heq
            exact of_decide_eq_true heq
          obtain rfl : q = some d.toRat :=
            hq.inj ⟨d, rfl, Double.hasValue_toRat hd⟩
          exact ⟨d', rfl, hd', hvalue.symm⟩
      | column | arith | float => cases heq
  | @arith op l r hl hr ihl ihr =>
      cases h' with
      | @arith op' l' r' hl' hr' =>
          have heq : (decide (op.toArith = op'.toArith) && l == l' && r == r') = true := heq
          rw [Bool.and_eq_true_iff, Bool.and_eq_true_iff] at heq
          obtain ⟨⟨hop, hleft⟩, hright⟩ := heq
          have hop := of_decide_eq_true hop
          obtain ⟨a, ha⟩ := @Plain.shows engine db env hengine l hl
          obtain ⟨b, hb⟩ := @Plain.shows engine db env hengine r hr
          obtain rfl := hq.inj (hengine.ring op ha hb)
          rw [eval_arith, ← hop]
          exact hengine.ring op (ihl hl' hleft ha) (ihr hr' hright hb)
      | column | literal | float => cases heq
  | @float x hx ih =>
      cases h' with
      | @float x' hx' =>
          have heq : (x == x') = true := heq
          obtain ⟨a, ha⟩ := @Plain.shows engine db env hengine x hx
          obtain rfl := hq.inj (hengine.castFloat ha)
          exact hengine.castFloat (ih hx' heq ha)
      | column | literal | arith => cases heq

/-- An expression that shows a finite number, or NULL for an operand that is missing. -/
structure NumericExpr (engine : Engine) (db : Database) (env : RowEnv) (e : Expr)
    (o : Option Double) : Prop where
  finite : ∀ d ∈ o, d.isFinite = true
  shows : Shows (e.eval engine db env) (o.map Double.toRat)
  notCase : isCase e = false
  kind : e.scalarKind = none ∨ e.scalarKind = some .number
  missing : o = none → explicitNullColumn e = none

/-- A double, up to its sign where that is unknown. -/
abbrev Signed (d v : Double) (signUnknown : Bool) : Prop :=
  d = v ∨ signUnknown = true ∧ d = v.neg

/-- What a value stands for: its IEEE double, or nothing where an operand is missing. -/
inductive Denotes (engine : Engine) (db : Database) (env : RowEnv) : Val → Option Double → Prop
  | constant {d : Double} (hd : d.isFinite = true) : Denotes engine db env (.number d) (some d)
  | expr {e : Expr} {o : Option Double} (h : NumericExpr engine db env e o) :
      Denotes engine db env (.expr e) o
  | ieee {v d : Double} {signUnknown : Bool} (hd : d.isFinite = false)
      (h : Signed d v signUnknown) : Denotes engine db env (.ieeeConst v signUnknown) (some d)
  | whenTrue {cond : Expr} {t f : Val} {o : Option Double}
      (hcond : cond.truth engine db env = .yes) (h : Denotes engine db env t o) :
      Denotes engine db env (.condValue cond t f) o
  | whenFalse {cond : Expr} {t f : Val} {o : Option Double}
      (hcond : cond.truth engine db env = .no) (h : Denotes engine db env f o) :
      Denotes engine db env (.condValue cond t f) o
  | whenUnknown {cond : Expr} {t f : Val} (hcond : cond.truth engine db env = .unknown) :
      Denotes engine db env (.condValue cond t f) none

theorem Denotes.isTemporal {v : Val} {o : Option Double} (h : Denotes engine db env v o) :
    isTemporal v = false := by
  cases h <;> rfl

/-- Whether an operand, if it is an expression, may be divided. -/
def IsPlain (env : RowEnv) (v : Val) : Prop :=
  ∀ e, v = .expr e → Plain env e

/-! ## Operators -/

section Operators

variable [Double.Rounding] {op : RingOperator} {l r v : Val} {a b : Option Double}

theorem toRat_map₂ (hexact : Double.Exact) (ha : ∀ d ∈ a, d.isFinite = true)
    (hb : ∀ d ∈ b, d.isFinite = true) :
    (Option.map₂ (applyIEEE op.toArith) a b).map Double.toRat =
      Option.map₂ op.rational (a.map Double.toRat) (b.map Double.toRat) := by
  cases a with
  | none => rfl
  | some a =>
      cases b with
      | none => rfl
      | some b =>
          exact congrArg some (hasValue_applyIEEE hexact (Double.hasValue_toRat (ha a rfl))
            (Double.hasValue_toRat (hb b rfl))).2

theorem isFinite_map₂ (hexact : Double.Exact) (ha : ∀ d ∈ a, d.isFinite = true)
    (hb : ∀ d ∈ b, d.isFinite = true) :
    ∀ d ∈ Option.map₂ (applyIEEE op.toArith) a b, d.isFinite = true := by
  intro d hd
  obtain ⟨x, y, hx, hy, rfl⟩ := Option.mem_map₂_iff.mp hd
  exact (hasValue_applyIEEE hexact (Double.hasValue_toRat (ha x hx))
    (Double.hasValue_toRat (hb y hy))).1

/-- The sum, difference or product of two expressions. -/
theorem numericExpr_arith (hexact : Double.Exact) (hengine : ExactEngine engine) {x y : Expr}
    (ha : ∀ d ∈ a, d.isFinite = true) (hb : ∀ d ∈ b, d.isFinite = true)
    (hx : Shows (x.eval engine db env) (a.map Double.toRat))
    (hy : Shows (y.eval engine db env) (b.map Double.toRat)) :
    NumericExpr engine db env (.arith op.toArith x y) (Option.map₂ (applyIEEE op.toArith) a b) where
  finite := isFinite_map₂ hexact ha hb
  shows := by
    rw [toRat_map₂ hexact ha hb]
    exact hengine.ring op hx hy
  notCase := rfl
  kind := by
    rw [Expr.scalarKind]
    split
    · exact .inr rfl
    · exact .inl rfl
  missing _ := rfl

omit [Double.Rounding] in
/-- A function of a non-finite constant, whose sign may be unknown. -/
theorem denotes_foldIEEE {c d : Double} {signUnknown : Bool} {f : Double → Double}
    (hd : Signed d c signUnknown) (hf : (f d).isFinite = false)
    (hrun : foldIEEE c signUnknown f = .ok v) :
    Denotes engine db env v (some (f d)) ∧ IsPlain env v := by
  rw [foldIEEE] at hrun
  have hplain (w : Double) (u : Bool) : IsPlain env (.ieeeConst w u) := by
    intro e he
    cases he
  split at hrun
  next hknown =>
    obtain rfl := Except.ok.inj hrun
    obtain rfl | ⟨hunknown, -⟩ := hd
    · exact ⟨.ieee hf (.inl rfl), hplain _ _⟩
    · rw [hunknown] at hknown
      cases hknown
  next =>
    split at hrun
    next hsame =>
      obtain rfl := Except.ok.inj hrun
      refine ⟨.ieee hf (.inl ?_), hplain _ _⟩
      obtain rfl | ⟨-, rfl⟩ := hd
      · rfl
      · exact hsame.symm
    next =>
      split at hrun
      next hopposite =>
        obtain rfl := Except.ok.inj hrun
        rw [Bool.and_eq_true_iff, decide_eq_true_eq] at hopposite
        refine ⟨.ieee hf ?_, hplain _ _⟩
        obtain rfl | ⟨-, rfl⟩ := hd
        · exact .inl rfl
        · exact .inr ⟨rfl, hopposite.2⟩
      next => cases hrun

/-- The operands of an operator that are no ternaries held back. -/
theorem denotes_combineLeaf (hexact : Double.Exact) (hengine : ExactEngine engine)
    (hl : Denotes engine db env l a) (hr : Denotes engine db env r b)
    (hlcond : ∀ c t f, l ≠ .condValue c t f) (hrcond : ∀ c t f, r ≠ .condValue c t f)
    (hrun : combineLeaf op.toArith l r = .ok v) :
    Denotes engine db env v (Option.map₂ (applyIEEE op.toArith) a b) := by
  have hliteral {x : Double} (hx : x.isFinite = true) :
      Shows ((Expr.lit (.number x)).eval engine db env) ((some x).map Double.toRat) :=
    ⟨x, rfl, Double.hasValue_toRat hx⟩
  have hfinite {x : Double} (hx : x.isFinite = true) : ∀ d ∈ some x, d.isFinite = true := by
    rintro d ⟨⟩
    exact hx
  have hexpr {x y : Expr} {a b : Option Double} (hrun : Except.ok (.expr (.arith op.toArith x y)) =
      (Except.ok v : Except Failure Val)) (ha : ∀ d ∈ a, d.isFinite = true)
      (hb : ∀ d ∈ b, d.isFinite = true) (hx : Shows (x.eval engine db env) (a.map Double.toRat))
      (hy : Shows (y.eval engine db env) (b.map Double.toRat)) :
      Denotes engine db env v (Option.map₂ (applyIEEE op.toArith) a b) := by
    obtain rfl := Except.ok.inj hrun
    exact .expr (numericExpr_arith hexact hengine ha hb hx hy)
  cases hl with
  | whenTrue | whenFalse | whenUnknown => exact absurd rfl (hlcond _ _ _)
  | @constant x hx =>
      cases hr with
      | whenTrue | whenFalse | whenUnknown => exact absurd rfl (hrcond _ _ _)
      | @constant y hy =>
          have hfolded : combineLeaf op.toArith (.number x) (.number y) =
              .ok (.number (applyIEEE op.toArith x y)) := by
            cases op <;> rfl
          obtain rfl := Except.ok.inj (hfolded.symm.trans hrun)
          exact .constant (hasValue_applyIEEE hexact (Double.hasValue_toRat hx)
            (Double.hasValue_toRat hy)).1
      | @expr y b hy =>
          have hlowered : combineLeaf op.toArith (.number x) (.expr y) =
              .ok (.expr (.arith op.toArith (.lit (.number x)) y)) := by
            cases op <;> rfl
          exact hexpr (hlowered.symm.trans hrun) (hfinite hx) hy.finite (hliteral hx) hy.shows
      | @ieee w d u hd hy =>
          have hfolded : combineLeaf op.toArith (.number x) (.ieeeConst w u) =
              foldIEEE w u fun y => applyIEEE op.toArith x y := by
            cases op <;> rfl
          exact (denotes_foldIEEE (f := fun y => applyIEEE op.toArith x y) hy
            (isFinite_applyIEEE_right hx hd) (hfolded.symm.trans hrun)).1
  | @expr x a hx =>
      cases hr with
      | whenTrue | whenFalse | whenUnknown => exact absurd rfl (hrcond _ _ _)
      | @constant y hy =>
          have hlowered : combineLeaf op.toArith (.expr x) (.number y) =
              .ok (.expr (.arith op.toArith x (.lit (.number y)))) := by
            cases op <;> rfl
          exact hexpr (hlowered.symm.trans hrun) hx.finite (hfinite hy) hx.shows (hliteral hy)
      | @expr y b hy =>
          have hlowered : combineLeaf op.toArith (.expr x) (.expr y) =
              .ok (.expr (.arith op.toArith x y)) := by
            cases op <;> rfl
          exact hexpr (hlowered.symm.trans hrun) hx.finite hy.finite hx.shows hy.shows
      | @ieee w d u hd hy =>
          have hrefused : combineLeaf op.toArith (.expr x) (.ieeeConst w u) =
              errorf nonFiniteWithColumnMessage [] := by
            cases op <;> rfl
          cases hrefused.symm.trans hrun
  | @ieee w d u hd hx =>
      cases hr with
      | whenTrue | whenFalse | whenUnknown => exact absurd rfl (hrcond _ _ _)
      | @constant y hy =>
          have hfolded : combineLeaf op.toArith (.ieeeConst w u) (.number y) =
              foldIEEE w u fun x => applyIEEE op.toArith x y := by
            cases op <;> rfl
          exact (denotes_foldIEEE (f := fun x => applyIEEE op.toArith x y) hx
            (isFinite_applyIEEE_left hd hy) (hfolded.symm.trans hrun)).1
      | @expr y b hy =>
          have hrefused : combineLeaf op.toArith (.ieeeConst w u) (.expr y) =
              errorf nonFiniteWithColumnMessage [] := by
            cases op <;> rfl
          cases hrefused.symm.trans hrun
      | @ieee w' d' u' hd' hy =>
          have hrefused : combineLeaf op.toArith (.ieeeConst w u) (.ieeeConst w' u') =
              errorf nonFiniteWithColumnMessage [] := by
            cases op <;> rfl
          cases hrefused.symm.trans hrun

/-- A ternary held back is combined arm by arm. -/
theorem combineRight_condValue {c : Expr} {t f : Val}
    (hrun : combineRight op.toArith l (.condValue c t f) = .ok v) :
    ∃ t' f', combineRight op.toArith l t = .ok t' ∧ combineRight op.toArith l f = .ok f' ∧
      v = .condValue c t' f' := by
  rw [combineRight, if_neg (by cases op <;> decide)] at hrun
  obtain ⟨t', ht, hrun⟩ := Except.bind_eq_ok_iff.mp hrun
  obtain ⟨f', hf, hrun⟩ := Except.bind_eq_ok_iff.mp hrun
  exact ⟨t', f', ht, hf, (Except.ok.inj hrun).symm⟩

theorem combineLeft_condValue {c : Expr} {t f : Val}
    (hrun : combineLeft op.toArith r (.condValue c t f) = .ok v) :
    ∃ t' f', combineLeft op.toArith r t = .ok t' ∧ combineLeft op.toArith r f = .ok f' ∧
      v = .condValue c t' f' := by
  rw [combineLeft, if_neg (by cases op <;> decide)] at hrun
  obtain ⟨t', ht, hrun⟩ := Except.bind_eq_ok_iff.mp hrun
  obtain ⟨f', hf, hrun⟩ := Except.bind_eq_ok_iff.mp hrun
  exact ⟨t', f', ht, hf, (Except.ok.inj hrun).symm⟩

/-- A ternary held back denotes what its arms do. -/
theorem Denotes.arms {run : Val → Except Failure Val} {f : Option Double → Option Double}
    (hnone : f none = none) (hr : Denotes engine db env r b)
    (hleaf : ∀ {r b v}, Denotes engine db env r b → (∀ c t f, r ≠ .condValue c t f) →
      run r = .ok v → Denotes engine db env v (f b))
    (harms : ∀ {c t f v}, run (.condValue c t f) = .ok v →
      ∃ t' f', run t = .ok t' ∧ run f = .ok f' ∧ v = .condValue c t' f')
    (hrun : run r = .ok v) : Denotes engine db env v (f b) := by
  induction hr generalizing v with
  | constant hd => exact hleaf (.constant hd) (by rintro _ _ _ ⟨⟩) hrun
  | expr h => exact hleaf (.expr h) (by rintro _ _ _ ⟨⟩) hrun
  | ieee hd h => exact hleaf (.ieee hd h) (by rintro _ _ _ ⟨⟩) hrun
  | whenTrue htrue h ih =>
      obtain ⟨t', f', ht, -, rfl⟩ := harms hrun
      exact .whenTrue htrue (ih ht)
  | whenFalse hfalse h ih =>
      obtain ⟨t', f', -, hf, rfl⟩ := harms hrun
      exact .whenFalse hfalse (ih hf)
  | whenUnknown hunknown =>
      obtain ⟨t', f', -, -, rfl⟩ := harms hrun
      rw [hnone]
      exact .whenUnknown hunknown

/-- Both operands may be ternaries held back. -/
theorem denotes_combineLeft (hexact : Double.Exact) (hengine : ExactEngine engine)
    (hl : Denotes engine db env l a) (hr : Denotes engine db env r b)
    (hrun : combineLeft op.toArith r l = .ok v) :
    Denotes engine db env v (Option.map₂ (applyIEEE op.toArith) a b) := by
  refine hl.arms (f := fun a => Option.map₂ (applyIEEE op.toArith) a b) (Option.map₂_none_left ..)
    (fun {l a v} hl hlcond hrun => ?_) combineLeft_condValue hrun
  have hleft : combineLeft op.toArith r l = combineRight op.toArith l r := by
    cases l <;> first | rfl | exact absurd rfl (hlcond _ _ _)
  refine hr.arms (f := Option.map₂ (applyIEEE op.toArith) a) (Option.map₂_none_right ..)
    (fun {r b v} hr hrcond hrun => ?_) combineRight_condValue (hleft ▸ hrun)
  have hright : combineRight op.toArith l r = combineLeaf op.toArith l r := by
    cases r <;> first | rfl | exact absurd rfl (hrcond _ _ _)
  exact denotes_combineLeaf hexact hengine hl hr hlcond hrcond (hright ▸ hrun)

omit [Double.Rounding] in
theorem isPlain_condValue (c : Expr) (t f : Val) : IsPlain env (.condValue c t f) := by
  rintro e ⟨⟩

omit [Double.Rounding] in
theorem isPlain_number (d : Double) : IsPlain env (.number d) := by
  rintro e ⟨⟩

/-- The numeric reading combines its operands, and divides none that it has not. -/
theorem numericArith_combines (hl : Denotes engine db env l a) (hr : Denotes engine db env r b)
    (hlplain : IsPlain env l) (hrplain : IsPlain env r)
    (hrun : numericArith op.toArith l r = .ok v) :
    combineLeft op.toArith r l = .ok v ∧ IsPlain env v := by
  have harith {x y : Expr} (hx : Plain env x) (hy : Plain env y) :
      IsPlain env (.expr (.arith op.toArith x y)) := by
    rintro e ⟨⟩
    exact .arith op hx hy
  have hleft (c : Expr) (t f r : Val) : numericArith op.toArith (.condValue c t f) r =
      combineLeft op.toArith r (.condValue c t f) := by
    have hcombine : combineLeft op.toArith r (.condValue c t f) = do
        let t ← combineLeft op.toArith r t
        let f ← combineLeft op.toArith r f
        return .condValue c t f := by
      rw [combineLeft, if_neg (by cases op <;> decide)]
    rw [hcombine, numericArith, arithOverConditional]
    cases combineLeft op.toArith r t <;> cases combineLeft op.toArith r f <;> rfl
  have hright {l : Val} (hl : ∀ c t f, l ≠ .condValue c t f) (c : Expr) (t f : Val) :
      numericArith op.toArith l (.condValue c t f) =
        combineLeft op.toArith (.condValue c t f) l := by
    have hcombine : combineLeft op.toArith (.condValue c t f) l = do
        let t ← combineRight op.toArith l t
        let f ← combineRight op.toArith l f
        return .condValue c t f := by
      rw [combineLeft, combineRight, if_neg (by cases op <;> decide)]
      exact fun c t f h => hl c t f h
    rw [hcombine, numericArith, arithOverConditional]
    · cases combineRight op.toArith l t <;> cases combineRight op.toArith l f <;> rfl
    · exact fun c t f h => hl c t f h
  have hheld {c : Expr} {t f : Val} (hl : l = .condValue c t f) :
      combineLeft op.toArith r l = .ok v ∧ IsPlain env v := by
    subst hl
    rw [hleft] at hrun
    obtain ⟨t', f', -, -, rfl⟩ := combineLeft_condValue hrun
    exact ⟨hrun, isPlain_condValue c t' f'⟩
  have hheld' (hlcond : ∀ c t f, l ≠ .condValue c t f) {c : Expr} {t f : Val}
      (hr : r = .condValue c t f) : combineLeft op.toArith r l = .ok v ∧ IsPlain env v := by
    subst hr
    rw [hright hlcond] at hrun
    refine ⟨hrun, ?_⟩
    rw [combineLeft] at hrun
    · obtain ⟨t', f', -, -, rfl⟩ := combineRight_condValue hrun
      exact isPlain_condValue c t' f'
    · exact fun c t f h => hlcond c t f h
  cases hl with
  | whenTrue | whenFalse | whenUnknown => exact hheld rfl
  | @constant x hx =>
      cases hr with
      | whenTrue | whenFalse | whenUnknown => exact hheld' (by rintro _ _ _ ⟨⟩) rfl
      | @constant y hy =>
          have hfolded : numericArith op.toArith (.number x) (.number y) =
              .ok (.number (applyIEEE op.toArith x y)) := by
            cases op <;> rfl
          obtain rfl := Except.ok.inj (hfolded.symm.trans hrun)
          exact ⟨by cases op <;> rfl, isPlain_number _⟩
      | @expr y b hy =>
          have hlowered : numericArith op.toArith (.number x) (.expr y) =
              .ok (.expr (.arith op.toArith (.lit (.number x)) y)) := by
            cases op <;> rfl
          obtain rfl := Except.ok.inj (hlowered.symm.trans hrun)
          exact ⟨by cases op <;> rfl, harith (.literal hx) (hrplain y rfl)⟩
      | @ieee w d u hd hy =>
          have hrefused : numericArith op.toArith (.number x) (.ieeeConst w u) =
              errorf "non-finite numeric value has no SQL representation" [] := by
            cases op <;> rfl
          cases hrefused.symm.trans hrun
  | @expr x a hx =>
      cases hr with
      | whenTrue | whenFalse | whenUnknown => exact hheld' (by rintro _ _ _ ⟨⟩) rfl
      | @constant y hy =>
          have hlowered : numericArith op.toArith (.expr x) (.number y) =
              .ok (.expr (.arith op.toArith x (.lit (.number y)))) := by
            cases op <;> rfl
          obtain rfl := Except.ok.inj (hlowered.symm.trans hrun)
          exact ⟨by cases op <;> rfl, harith (hlplain x rfl) (.literal hy)⟩
      | @expr y b hy =>
          have hlowered : numericArith op.toArith (.expr x) (.expr y) =
              .ok (.expr (.arith op.toArith x y)) := by
            cases op <;> rfl
          obtain rfl := Except.ok.inj (hlowered.symm.trans hrun)
          exact ⟨by cases op <;> rfl, harith (hlplain x rfl) (hrplain y rfl)⟩
      | @ieee w d u hd hy =>
          have hrefused : numericArith op.toArith (.expr x) (.ieeeConst w u) =
              errorf "non-finite numeric value has no SQL representation" [] := by
            cases op <;> rfl
          cases hrefused.symm.trans hrun
  | @ieee w d u hd hx =>
      cases hr with
      | whenTrue | whenFalse | whenUnknown => exact hheld' (by rintro _ _ _ ⟨⟩) rfl
      | constant | expr | ieee =>
          have hrefused (r : Val) (hr : ∀ c t f, r ≠ .condValue c t f) :
              numericArith op.toArith (.ieeeConst w u) r =
                errorf "non-finite numeric value has no SQL representation" [] := by
            cases r <;> first | exact absurd rfl (hr _ _ _) | cases op <;> rfl
          cases (hrefused _ (by rintro _ _ _ ⟨⟩)).symm.trans hrun

/-- A sum, difference or product denotes its IEEE value. -/
theorem denotes_numericArith (hexact : Double.Exact) (hengine : ExactEngine engine)
    (hl : Denotes engine db env l a) (hr : Denotes engine db env r b)
    (hlplain : IsPlain env l) (hrplain : IsPlain env r)
    (hrun : numericArith op.toArith l r = .ok v) :
    Denotes engine db env v (Option.map₂ (applyIEEE op.toArith) a b) ∧ IsPlain env v := by
  obtain ⟨hcombine, hplain⟩ := numericArith_combines hl hr hlplain hrplain hrun
  exact ⟨denotes_combineLeft hexact hengine hl hr hcombine, hplain⟩

end Operators

/-! ## Division -/

section Quotients

variable [Double.Rounding] {l r v : Val} {a b : Option Double}

/-- Zero, as a bound parameter. -/
abbrev zeroLit : Expr :=
  .lit (.number 0)

omit [Double.Rounding] in
theorem hasValue_zero : (0 : Double).HasValue 0 :=
  ⟨rfl, Nat.cast_zero⟩

omit [Double.Rounding] in
/-- A comparison of a number with zero. -/
theorem truth_cmp_zero {x : Expr} {q : Option ℚ} (hx : Shows (x.eval engine db env) q) (op : CmpOp) :
    (Expr.cmp op x zeroLit).truth engine db env =
      q.elim .unknown fun q => .ofBool (op.test (.finite q) (.finite 0)) := by
  have ha : ∀ d ∈ q.map Double.finite, d.isFinite = true := by
    intro d hd
    obtain ⟨q, -, rfl⟩ := Option.mem_map.mp hd
    rfl
  have hb : ∀ d ∈ some (Double.finite 0), d.isFinite = true := by
    rintro d ⟨⟩
    rfl
  have hshows : Shows (x.eval engine db env) ((q.map Double.finite).map Double.toRat) := by
    rw [Option.map_map]
    exact (Option.map_id' (x := q)).symm ▸ hx
  rw [Expr.truth_cmp]
  refine (compare_shows ha hb hshows ⟨0, rfl, hasValue_zero⟩).trans ?_
  cases q <;> rfl

omit [Double.Rounding] in
/-- An operand of a division, as a float. -/
theorem asFloatExpr_shows (hengine : ExactEngine engine) (hl : Denotes engine db env l a)
    (hplain : IsPlain env l) {x : Expr} (hrun : asFloatExpr l = .ok x) :
    Plain env x ∧ Shows (x.eval engine db env) (a.map Double.toRat) ∧
      ∀ d ∈ a, d.isFinite = true := by
  cases hl with
  | constant hd =>
      obtain rfl := Except.ok.inj hrun
      refine ⟨.literal hd, ⟨_, rfl, Double.hasValue_toRat hd⟩, ?_⟩
      rintro d ⟨⟩
      exact hd
  | expr h =>
      obtain rfl := Except.ok.inj hrun
      exact ⟨.float (hplain _ rfl), hengine.castFloat h.shows, h.finite⟩
  | ieee | whenTrue | whenFalse | whenUnknown => cases hrun

/-- The quotient of two constants. -/
theorem denotes_divideConstants (hexact : Double.Exact) {x y : Double} (hx : x.isFinite = true)
    (hy : y.isFinite = true) :
    Denotes engine db env (divideConstants x y) (some (x.div y)) ∧
      IsPlain env (divideConstants x y) := by
  have hieee (w : Double) : IsPlain env (.ieeeConst w false) := by
    rintro e ⟨⟩
  rw [divideConstants]
  split
  next hzero =>
    rw [Double.div_zero hx ⟨hy, (Double.isZero_iff hy).mp hzero⟩,
      Double.isNaN_eq_false_of_isFinite hx, Bool.or_false]
    split
    · exact ⟨.ieee rfl (.inl rfl), hieee _⟩
    · refine ⟨.ieee (Double.isFinite_of_isInfinite (Double.isInfinite_signed x y)) (.inl ?_), hieee _⟩
      rw [Double.signed, infinity]
      cases x.signBit <;> cases y.signBit <;> rfl
  next hzero =>
    have hvalue : y.toRat ≠ 0 := fun h => hzero ((Double.isZero_iff hy).mpr h)
    exact ⟨.constant ((Double.hasValue_toRat hx).div hexact (Double.hasValue_toRat hy) hvalue).1,
      isPlain_number _⟩

/-- The finite arm of a division. -/
theorem numericExpr_quotient (hexact : Double.Exact) (hengine : ExactEngine engine) {x y : Expr}
    (ha : ∀ d ∈ a, d.isFinite = true) (hb : ∀ d ∈ b, d.isFinite = true)
    (hx : Shows (x.eval engine db env) (a.map Double.toRat))
    (hy : Shows (y.eval engine db env) (b.map Double.toRat))
    (hzero : b.map Double.toRat ≠ some 0) :
    NumericExpr engine db env (.arith .div x (.call .nullIf [y, zeroLit]))
      (Option.map₂ Double.div a b) where
  finite := by
    intro d hd
    obtain ⟨x, y, hx, hy, rfl⟩ := Option.mem_map₂_iff.mp hd
    have hvalue : y.toRat ≠ 0 := fun h => hzero (by rw [hy, Option.map_some, h])
    exact ((Double.hasValue_toRat (ha x hx)).div hexact (Double.hasValue_toRat (hb y hy)) hvalue).1
  shows := by
    have hnullIf : (Expr.call .nullIf [y, zeroLit]).eval engine db env =
        if engine.compare .eq (y.eval engine db env) (zeroLit.eval engine db env) = .yes then .null
        else y.eval engine db env := rfl
    have hkept : engine.compare .eq (y.eval engine db env) (zeroLit.eval engine db env) ≠ .yes := by
      rw [← Expr.truth_cmp, truth_cmp_zero hy]
      cases b with
      | none => rintro ⟨⟩
      | some b =>
          have hvalue : b.toRat ≠ 0 := fun h => hzero (congrArg some h)
          show Truth.ofBool (decide (b.toRat = 0)) ≠ .yes
          rw [decide_eq_false hvalue]
          rintro ⟨⟩
    have hvalue : (Option.map₂ Double.div a b).map Double.toRat =
        Option.map₂ (· / ·) (a.map Double.toRat) (b.map Double.toRat) := by
      cases a with
      | none => rfl
      | some a =>
          cases b with
          | none => rfl
          | some b =>
              have hb' : b.toRat ≠ 0 := fun h => hzero (congrArg some h)
              exact congrArg some ((Double.hasValue_toRat (ha a rfl)).div hexact
                (Double.hasValue_toRat (hb b rfl)) hb').2
    rw [eval_arith, hnullIf, if_neg hkept, hvalue]
    exact hengine.quotient hx hy hzero
  notCase := rfl
  kind := by
    rw [Expr.scalarKind]
    split
    · exact .inr rfl
    · exact .inl rfl
  missing _ := rfl

/-- What a division by zero is held back as: NaN, or an infinity of the signs of the two. -/
def zeroArms (numerator : Expr) (negative signUnknown : Bool) : Val :=
  .condValue (.cmp .eq numerator zeroLit) (.ieeeConst .nan false)
    (.condValue (.cmp .gt numerator zeroLit) (.ieeeConst (infinity negative) signUnknown)
      (.ieeeConst (infinity !negative) signUnknown))

theorem denotes_zeroArms {n : Expr} {y : Double} {negative signUnknown : Bool}
    (ha : ∀ d ∈ a, d.isFinite = true) (hn : Shows (n.eval engine db env) (a.map Double.toRat))
    (hy : y.HasValue 0) (hsign : signUnknown = true ∨ y.signBit = negative) :
    Denotes engine db env (zeroArms n negative signUnknown) (a.map fun x => x.div y) := by
  have hcmp (op : CmpOp) := @truth_cmp_zero engine db env n _ hn op
  cases a with
  | none => exact .whenUnknown (hcmp .eq)
  | some x =>
      have hx := ha x rfl
      have hzero : (Expr.cmp .eq n zeroLit).truth engine db env = .ofBool (decide (x.toRat = 0)) :=
        hcmp .eq
      have hpositive : (Expr.cmp .gt n zeroLit).truth engine db env =
          .ofBool (decide (0 < x.toRat)) := hcmp .gt
      rw [Option.map_some, Double.div_zero hx hy]
      by_cases hvalue : x.toRat = 0
      · rw [decide_eq_true hvalue] at hzero
        rw [if_pos ((Double.isZero_iff hx).mpr hvalue)]
        exact .whenTrue hzero (.ieee rfl (.inl rfl))
      · rw [decide_eq_false hvalue] at hzero
        rw [if_neg (fun h => hvalue ((Double.isZero_iff hx).mp h))]
        refine .whenFalse hzero ?_
        have hinfinite := Double.isFinite_of_isInfinite (Double.isInfinite_signed x y)
        have hinfinity : Double.signed .posInf x y = infinity (x.signBit ^^ y.signBit) := by
          rw [Double.signed, infinity]
          cases x.signBit <;> cases y.signBit <;> rfl
        have hsignBit : x.signBit = decide (x.toRat < 0) := by
          cases x with
          | finite q => rfl
          | negZero => exact absurd rfl hvalue
          | _ => cases hx
        -- An infinity is known where the denominator's sign is, and else up to its own.
        have heither (negative : Bool) : infinity (x.signBit ^^ y.signBit) = infinity negative ∨
            infinity (x.signBit ^^ y.signBit) = (infinity negative).neg := by
          cases x.signBit <;> cases y.signBit <;> cases negative <;>
            first | exact .inl rfl | exact .inr rfl
        by_cases hlt : 0 < x.toRat
        · rw [decide_eq_true hlt] at hpositive
          refine .whenTrue hpositive (.ieee hinfinite ?_)
          rw [hinfinity]
          obtain hunknown | hsign := hsign
          · exact (heither negative).imp_right fun h => ⟨hunknown, h⟩
          · rw [hsignBit, decide_eq_false hlt.not_gt, hsign, Bool.false_xor]
            exact .inl rfl
        · rw [decide_eq_false hlt] at hpositive
          refine .whenFalse hpositive (.ieee hinfinite ?_)
          rw [hinfinity]
          obtain hunknown | hsign := hsign
          · exact (heither !negative).imp_right fun h => ⟨hunknown, h⟩
          · have hneg : x.toRat < 0 := lt_of_le_of_ne (not_lt.mp hlt) hvalue
            rw [hsignBit, decide_eq_true hneg, hsign, Bool.true_xor]
            exact .inl rfl

/-- A division that is not folded: of two equal operands, or of others. -/
theorem floatDiv_lowered (hconst : asFloat l = none ∨ asFloat r = none)
    (hrun : floatDiv l r = .ok v) :
    ∃ x y, asFloatExpr l = .ok x ∧ asFloatExpr r = .ok y ∧
      v = .condValue (.cmp .eq y zeroLit)
        (if x == y then .ieeeConst .nan false
          else zeroArms x ((asFloat r).any Double.signBit) (asFloat r).isNone)
        (.expr (.arith .div x (.call .nullIf [y, zeroLit]))) := by
  rw [floatDiv] at hrun
  split at hrun
  next hl hr => obtain h | h := hconst <;> simp [h] at hl hr
  next =>
    obtain ⟨x, hx, hrun⟩ := Except.bind_eq_ok_iff.mp hrun
    obtain ⟨y, hy, hrun⟩ := Except.bind_eq_ok_iff.mp hrun
    refine ⟨x, y, hx, hy, ?_⟩
    split at hrun
    next hsame =>
      rw [if_pos hsame]
      exact (Except.ok.inj hrun).symm
    next hdistinct =>
      rw [if_neg hdistinct]
      exact (Except.ok.inj hrun).symm

/-- A quotient denotes its IEEE value. -/
theorem denotes_floatDiv (hexact : Double.Exact) (hengine : ExactEngine engine)
    (hl : Denotes engine db env l a) (hr : Denotes engine db env r b)
    (hlplain : IsPlain env l) (hrplain : IsPlain env r) (hrun : floatDiv l r = .ok v) :
    Denotes engine db env v (Option.map₂ Double.div a b) ∧ IsPlain env v := by
  by_cases hconst : asFloat l = none ∨ asFloat r = none
  · obtain ⟨x, y, hx, hy, rfl⟩ := floatDiv_lowered hconst hrun
    obtain ⟨hxplain, hxshows, ha⟩ := asFloatExpr_shows hengine hl hlplain hx
    obtain ⟨hyplain, hyshows, hb⟩ := asFloatExpr_shows hengine hr hrplain hy
    refine ⟨?_, isPlain_condValue _ _ _⟩
    have hcond := @truth_cmp_zero engine db env y _ hyshows .eq
    cases b with
    | none =>
        rw [Option.map₂_none_right]
        exact .whenUnknown hcond
    | some y' =>
        have hcond : (Expr.cmp .eq y zeroLit).truth engine db env =
            .ofBool (decide (y'.toRat = 0)) := hcond
        by_cases hzero : y'.toRat = 0
        · rw [decide_eq_true hzero] at hcond
          refine .whenTrue hcond ?_
          have hvalue : y'.HasValue 0 := ⟨hb y' rfl, hzero⟩
          rw [Option.map₂_coe_right]
          split
          next hsame =>
            -- A numerator equal to the denominator is a zero, of whichever sign.
            have hboth := (hxplain.shows_of_beq hengine hyplain hsame hxshows).inj hyshows
            cases a with
            | none => cases hboth
            | some x' =>
                have hx' : x'.toRat = 0 := (Option.some.inj hboth).trans hzero
                rw [Option.map_some, Double.div_zero (ha x' rfl) hvalue,
                  if_pos ((Double.isZero_iff (ha x' rfl)).mpr hx')]
                exact .ieee rfl (.inl rfl)
          next =>
            refine denotes_zeroArms ha hxshows hvalue ?_
            cases hr with
            | constant => exact .inr rfl
            | expr => exact .inl rfl
            | ieee | whenTrue | whenFalse => cases hy
        · rw [decide_eq_false hzero] at hcond
          exact .whenFalse hcond (.expr (numericExpr_quotient hexact hengine ha hb hxshows hyshows
            fun h => hzero (Option.some.inj h)))
  · obtain ⟨hl', hr'⟩ := not_or.mp hconst
    cases hl with
    | constant hx =>
        cases hr with
        | constant hy =>
            obtain rfl := Except.ok.inj hrun
            exact denotes_divideConstants hexact hx hy
        | _ => exact absurd rfl hr'
    | _ => exact absurd rfl hl'

end Quotients

/-! ## Comparisons -/

section Comparing

variable {op : CmpOp} {l r : Val} {a b : Option Double}

/-- The answer of a comparison, UNKNOWN where an operand is missing. -/
def comparedTruth (op : CmpOp) (a b : Option Double) : Truth :=
  (Option.map₂ (fun x y => op.test x y) a b).elim .unknown .ofBool

theorem comparedTruth_none_left (b : Option Double) : comparedTruth op none b = .unknown := by
  rw [comparedTruth, Option.map₂_none_left]
  rfl

theorem comparedTruth_none_right (a : Option Double) : comparedTruth op a none = .unknown := by
  rw [comparedTruth, Option.map₂_none_right]
  rfl

/-- A definite equality answers as the comparison does where no explicit null is read. -/
theorem truth_definiteEquality_present {le re : Expr}
    (hl : explicitNullColumn le ≠ none → (le.eval engine db env).isNull = false)
    (hr : explicitNullColumn re ≠ none → (re.eval engine db env).isNull = false)
    (hne : engine.compare .ne (le.eval engine db env) (re.eval engine db env) =
      (engine.compare .eq (le.eval engine db env) (re.eval engine db env)).not) :
    ((definiteEquality op le re).getD (.cmp op le re)).truth engine db env =
      engine.compare op (le.eval engine db env) (re.eval engine db env) := by
  have hpresent {e : Expr} {c : Column} (hc : explicitNullColumn e = some c)
      (he : explicitNullColumn e ≠ none → (e.eval engine db env).isNull = false) (negate : Bool) :
      (Expr.isNull (.column c) negate).truth engine db env = .ofBool negate := by
    rw [truth_isNull_column hc rfl, he (by rw [hc]; rintro ⟨⟩), Bool.false_xor]
  have hnegated {equality : Expr} (hop : op.isOrdering = false)
      (h : equality.truth engine db env =
        engine.compare .eq (le.eval engine db env) (re.eval engine db env)) :
      (if op = .ne then Expr.not equality else equality).truth engine db env =
        engine.compare op (le.eval engine db env) (re.eval engine db env) := by
    cases op with
    | ne => rw [if_pos rfl, Expr.truth_not, h, hne]
    | eq => exact h
    | _ => cases hop
  rw [definiteEquality]
  cases hop : op.isOrdering with
  | true => exact Expr.truth_cmp op le re
  | false =>
      rw [if_neg Bool.false_ne_true]
      dsimp only
      split
      · exact Expr.truth_cmp op le re
      · split
        · exact Expr.truth_cmp op le re
        · rw [Option.getD_some]
          refine hnegated hop ?_
          cases hlc : explicitNullColumn le with
          | none =>
              cases hrc : explicitNullColumn re with
              | none => simp_all
              | some rc =>
                  simp [Expr.truth_combine, hpresent hrc hr]
          | some lc =>
              cases hrc : explicitNullColumn re with
              | none => simp [Expr.truth_combine, hpresent hlc hl]
              | some rc => simp [Expr.truth_combine, hpresent hlc hl, hpresent hrc hr]

/-- An operand that the database compares: a constant, or an expression of a number. -/
structure Compared (engine : Engine) (db : Database) (env : RowEnv) (v : Val) (e : Expr)
    (o : Option Double) : Prop where
  form : v = .expr e ∨ ∃ d, v = .number d ∧ e = .lit (.number d)
  finite : ∀ d ∈ o, d.isFinite = true
  shows : Shows (e.eval engine db env) (o.map Double.toRat)
  notCase : isCase e = false
  kind : v.scalarKind = none ∨ v.scalarKind = some .number
  missing : o = none → explicitNullColumn e = none

theorem Compared.constant {d : Double} (hd : d.isFinite = true) :
    Compared engine db env (.number d) (.lit (.number d)) (some d) where
  form := .inr ⟨d, rfl, rfl⟩
  finite := by
    rintro d ⟨⟩
    exact hd
  shows := ⟨d, rfl, Double.hasValue_toRat hd⟩
  notCase := rfl
  kind := .inr rfl
  missing := by rintro ⟨⟩

theorem Compared.expr {e : Expr} (h : NumericExpr engine db env e a) :
    Compared engine db env (.expr e) e a where
  form := .inl rfl
  finite := h.finite
  shows := h.shows
  notCase := h.notCase
  kind := h.kind
  missing := h.missing

section Shown

variable {le re : Expr}

/-- An explicit null is read of no operand that is compared. -/
theorem Compared.present (h : Compared engine db env l le a) (hexplicit : explicitNullColumn le ≠ none) :
    (le.eval engine db env).isNull = false := by
  cases a with
  | none => exact absurd (h.missing rfl) hexplicit
  | some d =>
      obtain ⟨x, hx, -⟩ := h.shows
      rw [hx]
      rfl

theorem compareMixedTypes_compared (hl : Compared engine db env l le a)
    (hr : Compared engine db env r re b) : compareMixedTypes op l r = none := by
  rw [compareMixedTypes]
  obtain hl | hl := hl.kind <;> obtain hr | hr := hr.kind <;> rw [hl, hr]
  rfl

/-- A comparison that is not folded. -/
theorem comparePlain_compared (hl : Compared engine db env l le a)
    (hr : Compared engine db env r re b) (hconst : asFloat l = none ∨ asFloat r = none) :
    comparePlain op l r = do
      assertNoMixedNullConventions op le re
      return (definiteEquality op le re).getD (.cmp op le re) := by
  have hmixed := @compareMixedTypes_compared engine db env op l r a b le re hl hr
  obtain rfl | ⟨x, rfl, rfl⟩ := hl.form
  · obtain rfl | ⟨y, rfl, rfl⟩ := hr.form <;> unfold comparePlain <;> rw [hmixed] <;>
      cases op <;> rfl
  · obtain rfl | ⟨y, rfl, rfl⟩ := hr.form
    · unfold comparePlain
      rw [hmixed]
      cases op <;> rfl
    · obtain h | h := hconst <;> cases h

theorem distributeMixedCase_of_not_case {leaf : Expr → Except Failure Expr} {e : Expr}
    (h : isCase e = false) : distributeMixedCase leaf e = leaf e := by
  cases e <;> first | rfl | cases h

theorem truth_comparePlain_compared (hl : Compared engine db env l le a)
    (hr : Compared engine db env r re b) (hconst : asFloat l = none ∨ asFloat r = none) {e : Expr}
    (hrun : comparePlain op l r = .ok e) : e.truth engine db env = comparedTruth op a b := by
  have hcompare (op : CmpOp) : engine.compare op (le.eval engine db env) (re.eval engine db env) =
      comparedTruth op a b := compare_shows hl.finite hr.finite hl.shows hr.shows
  rw [comparePlain_compared hl hr hconst, Except.bind_unit_eq_ok_iff] at hrun
  obtain rfl := Except.ok.inj hrun.2
  rw [truth_definiteEquality_present hl.present hr.present, hcompare]
  rw [hcompare, hcompare]
  cases a with
  | none => rw [comparedTruth_none_left, comparedTruth_none_left]; rfl
  | some x =>
      cases b with
      | none => rw [comparedTruth_none_right, comparedTruth_none_right]; rfl
      | some y => exact (Truth.not_ofBool _).symm

variable [Double.Rounding]

theorem applyComparison_compared (hl : Compared engine db env l le a)
    (hr : Compared engine db env r re b) : applyComparison op l r = comparePlain op l r := by
  have hright : compareRight op l r = comparePlain op l r := by
    obtain rfl | ⟨y, rfl, rfl⟩ := hr.form
    · exact distributeMixedCase_of_not_case hr.notCase
    · rfl
  have hnumber : compareNumberText op l r = none := by
    obtain rfl | ⟨x, rfl, rfl⟩ := hl.form <;> obtain rfl | ⟨y, rfl, rfl⟩ := hr.form <;> rfl
  obtain rfl | ⟨x, rfl, rfl⟩ := hl.form
  · unfold applyComparison
    rw [hnumber]
    dsimp only
    rw [distributeMixedCase_of_not_case hl.notCase, hl.notCase, if_neg Bool.false_ne_true]
    exact hright
  · unfold applyComparison
    rw [hnumber]
    exact hright

end Shown

/-! An infinity, or a NaN, is compared as a constant. -/

theorem test_nan_left (op : CmpOp) (d : Double) : op.test .nan d = decide (op = .ne) := by
  cases op <;> cases d <;> rfl

theorem test_nan_right (op : CmpOp) (d : Double) : op.test d .nan = decide (op = .ne) := by
  cases op <;> cases d <;> rfl

/-- A comparison with a NaN, of an operand that may be missing. -/
theorem truth_compareNaN (hr : Denotes engine db env r b) (hrcond : ∀ c t f, r ≠ .condValue c t f)
    {e : Expr} (hrun : compareNaN op r = .ok e) :
    e.truth engine db env = (b.map fun _ => decide (op = .ne)).elim .unknown .ofBool := by
  cases hr with
  | whenTrue | whenFalse | whenUnknown => exact absurd rfl (hrcond _ _ _)
  | ieee => cases hrun
  | constant hd =>
      obtain rfl := Except.ok.inj hrun
      rfl
  | @expr x b hx =>
      obtain rfl := Except.ok.inj hrun
      rw [Expr.truth_case_pair_none, Expr.truth_isNull, Expr.truth_isNull]
      cases b with
      | none =>
          have hnull : x.eval engine db env = .null := hx.shows
          rw [hnull]
          rfl
      | some d =>
          obtain ⟨y, hy, -⟩ := hx.shows
          rw [hy]
          rfl

/-- A comparison that no unknown sign decides. -/
theorem compareInfinite_signed {x y v w : Double} {u u' : Bool} (hl : ieeeOperand l = some (v, u))
    (hr : ieeeOperand r = some (w, u')) (hx : Signed x v u) (hy : Signed y w u') {e : Expr}
    (hrun : compareInfinite op l r = .ok e) : e = .boolConst (op.test x y) := by
  rw [compareInfinite, hl, hr] at hrun
  dsimp only at hrun
  split at hrun
  next => cases hrun
  next hsame =>
    obtain rfl := Except.ok.inj hrun
    simp only [Bool.or_eq_true, Bool.and_eq_true, not_or, not_and, decide_eq_true_eq, ne_eq,
      not_not] at hsame
    obtain ⟨⟨hleft, hright⟩, hboth⟩ := hsame
    refine congrArg Expr.boolConst ?_
    obtain rfl | ⟨hu, rfl⟩ := hx
    · obtain rfl | ⟨hu', rfl⟩ := hy
      · rfl
      · exact (hright hu').symm
    · obtain rfl | ⟨hu', rfl⟩ := hy
      · exact (hleft hu).symm
      · exact (hboth ⟨hu, hu'⟩).symm

/-- The value of a constant, a non-finite one included. -/
theorem Denotes.operand (h : Denotes engine db env l a) {v : Double} {u : Bool}
    (hv : ieeeOperand l = some (v, u)) : ∃ x, a = some x ∧ Signed x v u := by
  cases h with
  | @constant d hd =>
      obtain ⟨rfl, rfl⟩ := Prod.mk.inj (Option.some.inj hv)
      exact ⟨d, rfl, .inl rfl⟩
  | ieee hd h =>
      obtain ⟨rfl, rfl⟩ := Prod.mk.inj (Option.some.inj hv)
      exact ⟨_, rfl, h⟩
  | expr | whenTrue | whenFalse | whenUnknown => cases hv

theorem Denotes.nan (h : Denotes engine db env l a) (hnan : isNaNConst l = true) :
    a = some .nan := by
  cases h with
  | @ieee v d u hd h =>
      have hv : v = .nan := by
        cases v <;> first | rfl | cases hnan
      subst hv
      obtain rfl | ⟨-, rfl⟩ := h <;> rfl
  | constant | expr | whenTrue | whenFalse | whenUnknown => cases hnan

variable [Double.Rounding]

/-- A comparison of two operands that are no ternaries held back. -/
theorem truth_compareLeaf (hl : Denotes engine db env l a) (hr : Denotes engine db env r b)
    (hlcond : ∀ c t f, l ≠ .condValue c t f) (hrcond : ∀ c t f, r ≠ .condValue c t f) {e : Expr}
    (hrun : compareLeaf op l r = .ok e) : e.truth engine db env = comparedTruth op a b := by
  rw [compareLeaf] at hrun
  split at hrun
  next hplain =>
    have hcompared {v : Val} {o : Option Double} (hv : Denotes engine db env v o)
        (hcond : ∀ c t f, v ≠ .condValue c t f) (hieee : isIeee v = false) :
        ∃ e, Compared engine db env v e o := by
      cases hv with
      | whenTrue | whenFalse | whenUnknown => exact absurd rfl (hcond _ _ _)
      | ieee => cases hieee
      | constant hd => exact ⟨_, .constant hd⟩
      | expr h => exact ⟨_, .expr h⟩
    rw [Bool.and_eq_true_iff, Bool.not_eq_true', Bool.not_eq_true'] at hplain
    obtain ⟨le, hle⟩ := hcompared hl hlcond hplain.1
    obtain ⟨re, hre⟩ := hcompared hr hrcond hplain.2
    by_cases hconst : asFloat l = none ∨ asFloat r = none
    · rw [applyComparison_compared hle hre] at hrun
      exact truth_comparePlain_compared hle hre hconst hrun
    · obtain ⟨hl', hr'⟩ := not_or.mp hconst
      cases hl with
      | @constant x hx =>
          cases hr with
          | @constant y hy =>
              have hfolded : applyComparison op (.number x) (.number y) =
                  .ok (.boolConst (op.test x y)) := by
                cases op <;> rfl
              obtain rfl := Except.ok.inj (hfolded.symm.trans hrun)
              rfl
          | _ => exact absurd rfl hr'
      | _ => exact absurd rfl hl'
  next =>
    split at hrun
    next hnan =>
      cases hlnan : isNaNConst l with
      | true =>
          obtain rfl := hl.nan hlnan
          rw [comparedTruth, Option.map₂_coe_left]
          cases hrnan : isNaNConst r with
          | true =>
              obtain rfl := hr.nan hrnan
              rw [hlnan, hrnan] at hrun
              obtain rfl := Except.ok.inj hrun
              exact congrArg Truth.ofBool (test_nan_left op .nan).symm
          | false =>
              rw [hlnan, hrnan] at hrun
              rw [truth_compareNaN hr hrcond hrun]
              cases b with
              | none => rfl
              | some y => exact congrArg Truth.ofBool (test_nan_left op y).symm
      | false =>
          have hrnan : isNaNConst r = true := by
            rw [hlnan, Bool.false_or] at hnan
            exact hnan
          obtain rfl := hr.nan hrnan
          rw [hlnan, hrnan] at hrun
          rw [comparedTruth, Option.map₂_coe_right, truth_compareNaN hl hlcond hrun]
          cases a with
          | none => rfl
          | some x => exact congrArg Truth.ofBool (test_nan_right op x).symm
    next =>
      cases hlv : ieeeOperand l with
      | none =>
          rw [compareInfinite, hlv] at hrun
          cases hrun
      | some v =>
          cases hrv : ieeeOperand r with
          | none =>
              rw [compareInfinite, hlv, hrv] at hrun
              cases hrun
          | some w =>
              obtain ⟨x, rfl, hx⟩ := hl.operand hlv
              obtain ⟨y, rfl, hy⟩ := hr.operand hrv
              rw [compareInfinite_signed hlv hrv hx hy hrun]
              rfl

omit [Double.Rounding] in
theorem distribute_condValue {leaf : Val → Except Failure Expr} {c e : Expr} {t f : Val}
    (hrun : distribute leaf (.condValue c t f) = .ok e) :
    ∃ x y, distribute leaf t = .ok x ∧ distribute leaf f = .ok y ∧ e = guardedCase c x y := by
  rw [distribute] at hrun
  obtain ⟨x, hx, hrun⟩ := Except.bind_eq_ok_iff.mp hrun
  obtain ⟨y, hy, hrun⟩ := Except.bind_eq_ok_iff.mp hrun
  exact ⟨x, y, hx, hy, (Except.ok.inj hrun).symm⟩

omit [Double.Rounding] in
/-- A ternary held back is compared arm by arm, and the arm that is taken answers. -/
theorem truth_distribute {leaf : Val → Except Failure Expr} {t : Truth}
    (hl : Denotes engine db env l a) (hmissing : a = none → t = .unknown)
    (hleaf : ∀ v, Denotes engine db env v a → (∀ c t f, v ≠ .condValue c t f) →
      ∀ e, leaf v = .ok e → e.truth engine db env = t) {e : Expr}
    (hrun : distribute leaf l = .ok e) : e.truth engine db env = t := by
  induction hl generalizing e with
  | constant hd => exact hleaf _ (.constant hd) (by rintro _ _ _ ⟨⟩) e hrun
  | expr h => exact hleaf _ (.expr h) (by rintro _ _ _ ⟨⟩) e hrun
  | ieee hd h => exact hleaf _ (.ieee hd h) (by rintro _ _ _ ⟨⟩) e hrun
  | whenTrue hcond h ih =>
      obtain ⟨x', y', hx, -, rfl⟩ := distribute_condValue hrun
      rw [truth_guardedCase, hcond]
      exact ih hmissing hleaf hx
  | whenFalse hcond h ih =>
      obtain ⟨x', y', -, hy, rfl⟩ := distribute_condValue hrun
      rw [truth_guardedCase, hcond]
      exact ih hmissing hleaf hy
  | whenUnknown hcond =>
      obtain ⟨x', y', -, -, rfl⟩ := distribute_condValue hrun
      rw [truth_guardedCase, hcond]
      exact (hmissing rfl).symm

/-- An accepted comparison answers as IEEE arithmetic does. -/
theorem truth_compare_denoted {now : Int} (hl : Denotes engine db env l a)
    (hr : Denotes engine db env r b) {e : Expr} (hrun : compare now op l r = .ok e) :
    e.truth engine db env = comparedTruth op a b := by
  rw [compare, hl.isTemporal, hr.isTemporal, Bool.or_self, if_neg Bool.false_ne_true] at hrun
  refine truth_distribute hl ?_ (fun v hv hvcond e hrun => ?_) hrun
  · rintro rfl
    exact comparedTruth_none_left b
  · rw [hv.isTemporal, if_neg Bool.false_ne_true] at hrun
    refine truth_distribute hr ?_ (fun w hw hwcond e hrun => ?_) hrun
    · rintro rfl
      exact comparedTruth_none_right a
    · rw [compareArms, hv.isTemporal, hw.isTemporal, Bool.or_self, if_neg Bool.false_ne_true] at hrun
      exact truth_compareLeaf hv hw hvcond hwcond hrun

end Comparing

end Denotation

end QueryPlanAdapters.Go
