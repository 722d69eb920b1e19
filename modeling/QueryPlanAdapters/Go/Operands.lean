import QueryPlanAdapters.Go.Membership

/-!
# Go: scalar operands

Literals, attributes stored in a column or behind a to-one relation, concatenations and
ternaries over these. Each has a value in CEL, which may be an error, and one in the
database, where a NULL is all that is left of an error. The expression an operand is
lowered to has the latter on every row.
-/

namespace QueryPlanAdapters.Go

open Sql

inductive ScalarOperand where
  | literal (v : Literal)
  | reference (reference : String)
  | concat (left right : ScalarOperand)
  | ternary (cond : Node) (whenTrue whenFalse : ScalarOperand)

/-- An engine whose concatenation is the standard one. -/
structure StandardConcat (engine : Engine) : Prop where
  null_left (x : SqlValue) : engine.concat .null x = .null
  null_right (x : SqlValue) : engine.concat x .null = .null
  text (a b : String) : engine.concat (.text a) (.text b) = .text (a ++ b)

def concatEngine : Engine :=
  { Engine.bare with
    concat := fun x y =>
      match x, y with
      | .text a, .text b => .text (a ++ b)
      | _, _ => .null }

theorem concatEngine_standard : StandardConcat concatEngine :=
  ⟨fun _ => rfl, fun x => by cases x <;> rfl, fun _ _ => rfl⟩

/-- A text, or the NULL in its place. -/
def IsText (x : SqlValue) : Prop :=
  x = .null ∨ ∃ s, x = .text s

namespace ScalarOperand

def node : ScalarOperand → Node
  | literal v => .value v
  | reference name => .var name
  | concat left right => .expression .add [left.node, right.node]
  | ternary cond whenTrue whenFalse => .expression .if [cond, whenTrue.node, whenFalse.node]

/-- The conditions of the ternaries. -/
def conditions : ScalarOperand → List Node
  | literal _ | reference _ => []
  | concat left right => left.conditions ++ right.conditions
  | ternary cond whenTrue whenFalse => cond :: (whenTrue.conditions ++ whenFalse.conditions)

section Mapping

variable (m : Mapper)

/-- Whether an operand of `+` makes it a concatenation. -/
def isKnownString : ScalarOperand → Bool
  | literal (.string _) => true
  | reference name => (m.resolve name).any fun entry => entry.isColumn && entry.valueType = .string
  | _ => false

/-- Whether the literals are scalars, and each `+` is read as a concatenation. -/
def WellFormed : ScalarOperand → Prop
  | literal v => isScalarLiteral v = true
  | reference _ => True
  | concat left right =>
      (left.isKnownString m || right.isKnownString m) = true ∧
        left.WellFormed ∧ right.WellFormed
  | ternary _ whenTrue whenFalse => whenTrue.WellFormed ∧ whenFalse.WellFormed

/-- The scalar kind that an operand is known to have. -/
def kind : ScalarOperand → Option ScalarKind
  | literal v => (Val.constant v).scalarKind
  | reference name => (m.resolve name).bind fun entry => (elementColumn "" entry).scalarKind
  | concat _ _ => some .string
  | ternary _ whenTrue whenFalse =>
      match distinctKinds [whenTrue.kind, whenFalse.kind] with
      | [kind] => some kind
      | _ => none

end Mapping

section Values

variable (engine : Engine) (db : Database) (m : Mapper) (truthOf : Node → Truth) (env : RowEnv)

/-- What a reference reads in the database, where it is an attribute. -/
def readingOf (name : String) : Option Reading :=
  (m.resolve name).map fun entry => { entry := entry, row := env entry.qualifier }

/-- The value in the database. -/
def stored : ScalarOperand → SqlValue
  | literal v => (Val.constant v).bound
  | reference name => ((readingOf m env name).bind (Sending.stored engine db)).getD .null
  | concat left right => engine.concat left.stored right.stored
  | ternary cond whenTrue whenFalse =>
      match truthOf cond with
      | .yes => whenTrue.stored
      | .no => whenFalse.stored
      | .unknown => .null

/-- CEL's value. -/
def outcome (sending : Sending) : ScalarOperand → Outcome
  | literal v => literalValue v
  | reference name => (readingOf m env name).elim .error (sending.read engine db)
  | concat left right => concatOutcome (left.outcome sending) (right.outcome sending)
  | ternary cond whenTrue whenFalse =>
      chosenOutcome (truthOf cond) (whenTrue.outcome sending) (whenFalse.outcome sending)

/-- Whether every column that is read holds values of its declared type, and every value
that is concatenated is a text or NULL. -/
def Keeps : ScalarOperand → Prop
  | literal _ => True
  | reference name => ∀ reading, readingOf m env name = some reading →
      ∀ x, Sending.stored engine db reading = some x → reading.entry.valueType.holds x = true
  | concat left right =>
      IsText (left.stored engine db m truthOf env) ∧
        IsText (right.stored engine db m truthOf env) ∧ left.Keeps ∧ right.Keeps
  | ternary cond whenTrue whenFalse =>
      (truthOf cond = .yes → whenTrue.Keeps) ∧ (truthOf cond = .no → whenFalse.Keeps)

end Values

section Carrying

variable {engine : Engine} {db : Database} {m : Mapper} {truthOf : Node → Truth} {env : RowEnv}
  {sending : Sending}

theorem value_bound {v : Literal} (h : isScalarLiteral v = true) :
    sending.value (Val.constant v).bound = .ofPlan v := by
  cases v <;> first | rfl | cases h

theorem carries_concat (hconcat : StandardConcat engine) {x y : SqlValue} {o p : Outcome}
    (hx : IsText x) (hy : IsText y) (ho : Carries sending x o) (hp : Carries sending y p) :
    Carries sending (engine.concat x y) (concatOutcome o p) := by
  obtain rfl | ⟨a, rfl⟩ := hx
  · rw [hconcat.null_left]
    have herror : concatOutcome o p = .error := by
      obtain rfl | rfl := ho.absent <;> rfl
    rw [herror]
    exact carries_null
  · obtain rfl := ho.present rfl
    obtain rfl | ⟨b, rfl⟩ := hy
    · rw [hconcat.null_right]
      have herror : concatOutcome (.value (sending.value (.text a))) p = .error := by
        obtain rfl | rfl := hp.absent <;> rfl
      rw [herror]
      exact carries_null
    · obtain rfl := hp.present rfl
      rw [hconcat.text]
      exact carries_value (.text (a ++ b))

/-- The value in the database is CEL's, or the NULL that an error leaves. -/
theorem carries_outcome (hconcat : StandardConcat engine) {op : ScalarOperand}
    (hform : op.WellFormed m) (hkeeps : op.Keeps engine db m truthOf env) :
    Carries sending (op.stored engine db m truthOf env)
      (op.outcome engine db m truthOf env sending) := by
  induction op with
  | literal v =>
      rw [stored, outcome, literalValue, ← value_bound hform]
      exact carries_value _
  | reference name =>
      rw [stored, outcome]
      cases readingOf m env name with
      | none => exact carries_null
      | some reading =>
          rw [Option.elim_some, Option.bind_some, Sending.read]
          cases Sending.stored engine db reading with
          | none => exact carries_null
          | some x => exact Go.carries_outcome reading.entry.nullConvention x
  | concat left right ihl ihr =>
      obtain ⟨-, hleft, hright⟩ := hform
      obtain ⟨hx, hy, hkeepsl, hkeepsr⟩ := hkeeps
      exact carries_concat hconcat hx hy (ihl hleft hkeepsl) (ihr hright hkeepsr)
  | ternary cond whenTrue whenFalse iht ihf =>
      obtain ⟨hleft, hright⟩ := hform
      obtain ⟨htrue, hfalse⟩ := hkeeps
      rw [stored, outcome]
      cases hcond : truthOf cond with
      | yes => exact iht hleft (htrue hcond)
      | no => exact ihf hright (hfalse hcond)
      | unknown => exact carries_null

end Carrying

end ScalarOperand

/-! ## Lowered operands -/

/-- Environments that bind the same rows, save to the aliases after the first `n`. -/
def SameRows (n : Nat) (env env' : RowEnv) : Prop :=
  ∀ qualifier, (∀ k, n < k → qualifier ≠ aliasOf k) → env' qualifier = env qualifier

theorem SameRows.refl (n : Nat) (env : RowEnv) : SameRows n env env :=
  fun _ _ => rfl

section Lowering

variable (engine : Engine) (db : Database) (m : Mapper) (truthOf : Node → Truth) (n : Nat)
  (env : RowEnv)

/-- What an operand is lowered to. -/
inductive LoweredTo : ScalarOperand → Expr → Prop
  | literal (v : Literal) : LoweredTo (.literal v) (.lit (.constant v))
  | column {name : String} {entry : Entry} (hentry : m.resolve name = some entry)
      (hcolumn : entry.isColumn = true) :
      LoweredTo (.reference name) (.column (elementColumn entry.qualifier entry))
  | hop {name aliasName : String} {entry : Entry} {source : List FromItem} {correlate : Expr}
      (hentry : m.resolve name = some entry) (hhop : entry.isColumn = false)
      (heval : ∀ env', SameRows n env env' →
        (Expr.subquery .scalar source correlate none
          (some (.column (elementColumn aliasName entry)))).eval engine db env' =
            (Sending.stored engine db { entry := entry, row := env entry.qualifier }).getD .null) :
      LoweredTo (.reference name)
        (.subquery .scalar source correlate none (some (.column (elementColumn aliasName entry))))
  | concat {left right : ScalarOperand} {l r : Expr} (hleft : LoweredTo left l)
      (hright : LoweredTo right r) : LoweredTo (.concat left right) (.concat l r)
  | ternary {cond : Node} {whenTrue whenFalse : ScalarOperand} {c t f : Expr}
      (hcond : ∀ env', SameRows n env env' → c.truth engine db env' = truthOf cond)
      (htrue : LoweredTo whenTrue t) (hfalse : LoweredTo whenFalse f) :
      LoweredTo (.ternary cond whenTrue whenFalse) (guardedCase c t f)

/-- A condition is lowered to what CEL makes of it. -/
def LowersCondition [Double.Rounding] (opts : Options) (now : Int) (cond : Node) : Prop :=
  ∀ fuel s, n ≤ s → Yields ((builder opts now fuel).predicate cond m false) s fun e s' =>
    s ≤ s' ∧ ∀ env', SameRows n env env' → e.truth engine db env' = truthOf cond

end Lowering

/-- An operand in value position: a constant is still one. -/
def ScalarOperand.val (op : ScalarOperand) (e : Expr) : Val :=
  match op with
  | .literal v => .constant v
  | _ => .expr e

section Lowered

variable {engine : Engine} {db : Database} {m : Mapper} {truthOf : Node → Truth} {n : Nat}
  {env env' : RowEnv} {op : ScalarOperand} {e : Expr}

theorem truth_guardedCase (c t f : Expr) :
    (guardedCase c t f).truth engine db env =
      match c.truth engine db env with
      | .yes => t.truth engine db env
      | .no => f.truth engine db env
      | .unknown => .unknown := by
  rw [guardedCase, Expr.truth_case_pair_none, Expr.truth_not]
  cases c.truth engine db env <;> rfl

theorem eval_guardedCase (c t f : Expr) :
    (guardedCase c t f).eval engine db env =
      match c.truth engine db env with
      | .yes => t.eval engine db env
      | .no => f.eval engine db env
      | .unknown => .null := by
  have hnot : ((Expr.not c).eval engine db env).asTruth = (c.truth engine db env).not :=
    Expr.truth_not c
  rw [guardedCase, Expr.eval_case, takenArm_cons, takenArm_cons, takenArm_nil, hnot]
  have hcond : (c.eval engine db env).asTruth = c.truth engine db env := rfl
  rw [hcond]
  cases c.truth engine db env <;> rfl

/-- On the rows it is lowered for, the expression has the operand's value. -/
theorem LoweredTo.eval_eq (h : LoweredTo engine db m truthOf n env op e)
    (halias : m.avoidsAliases n) (hrows : SameRows n env env') :
    e.eval engine db env' = op.stored engine db m truthOf env := by
  induction h with
  | literal v => rfl
  | @column name entry hentry hcolumn =>
      have hscalar : entry.scalarRelation = none := (Entry.isColumn_iff.mp hcolumn).2
      rw [ScalarOperand.stored, ScalarOperand.readingOf, hentry, Option.map_some,
        Option.bind_some, Sending.stored, hscalar, Expr.eval_column]
      show env' entry.qualifier entry.column = env entry.qualifier entry.column
      rw [hrows _ (halias name entry hentry)]
  | hop hentry hhop heval =>
      rw [heval env' hrows, ScalarOperand.stored, ScalarOperand.readingOf, hentry]
      rfl
  | @concat left right l r hleft hright ihl ihr =>
      show engine.concat (l.eval engine db env') (r.eval engine db env') = _
      rw [ihl, ihr]
      rfl
  | ternary hcond htrue hfalse iht ihf =>
      rw [eval_guardedCase, hcond env' hrows, iht, ihf, ScalarOperand.stored]

theorem scalarKind_guardedCase (c t f : Expr) :
    (guardedCase c t f).scalarKind =
      match distinctKinds [t.scalarKind, f.scalarKind] with
      | [kind] => some kind
      | _ => none := by
  rw [guardedCase, Expr.scalarKind, thenKinds, thenKinds, thenKinds, elseKinds,
    List.append_nil] <;> rfl

theorem LoweredTo.scalarKind (h : LoweredTo engine db m truthOf n env op e) :
    e.scalarKind = op.kind m := by
  induction h with
  | literal v => rw [Expr.scalarKind, ScalarOperand.kind]
  | column hentry hcolumn =>
      rw [Expr.scalarKind, ScalarOperand.kind, hentry]
      rfl
  | hop hentry hhop heval =>
      rw [Expr.scalarKind, Expr.scalarKind, ScalarOperand.kind, hentry]
      rfl
  | concat => rfl
  | ternary hcond htrue hfalse iht ihf =>
      rw [scalarKind_guardedCase, iht, ihf, ScalarOperand.kind]

theorem val_scalarKind (h : LoweredTo engine db m truthOf n env op e) :
    (op.val e).scalarKind = op.kind m := by
  have hkind := h.scalarKind
  cases op with
  | literal v => rfl
  | _ => exact hkind

theorem asExpr_val (h : LoweredTo engine db m truthOf n env op e) (hform : op.WellFormed m) :
    asExpr (op.val e) = .ok e := by
  cases h with
  | literal v => cases v <;> first | rfl | cases hform
  | _ => rfl

/-- No operand is held back, a list or a temporal value. -/
theorem val_shape (hform : op.WellFormed m) (e : Expr) :
    isSymbolic (op.val e) = false ∧ isTemporal (op.val e) = false ∧
      isListLiteral (op.val e) = false ∧ isIeee (op.val e) = false := by
  cases op with
  | literal v => cases v <;> first | exact ⟨rfl, rfl, rfl, rfl⟩ | cases hform
  | _ => exact ⟨rfl, rfl, rfl, rfl⟩

theorem isStringOperand_val (h : LoweredTo engine db m truthOf n env op e) :
    isStringOperand (op.val e) = op.isKnownString m := by
  cases h with
  | literal v => cases v <;> rfl
  | column hentry hcolumn =>
      rw [ScalarOperand.isKnownString, hentry, Option.any_some, hcolumn, Bool.true_and]
      rfl
  | hop hentry hhop heval =>
      rw [ScalarOperand.isKnownString, hentry, Option.any_some, hhop, Bool.false_and]
      rfl
  | _ => rfl

end Lowered

/-! ## Runs -/

section Scalars

variable {engine : Engine} {db : Database} {env : RowEnv}

theorem stored_hop {entry : Entry} {rel : Relation} (hscalar : entry.scalarRelation = some rel)
    (row : Row) :
    (Sending.stored engine db { entry := entry, row := row }).getD .null =
      (((reached engine db rel row).head?).map fun row => row entry.column).getD .null := by
  rw [Sending.stored, hscalar]

/-- One column of the first row that a scope reaches. -/
theorem eval_scalarColumn (s : Scope) (c : Column) :
    (Expr.subquery .scalar s.source s.correlate none (some (.column c))).eval engine db env =
      ((((s.rows engine db env).map (· c.qualifier)).head?).map (· c.name)).getD .null := by
  have heval : (Expr.subquery .scalar s.source s.correlate none (some (.column c))).eval engine db
      env = ((((db.bindings s.source env).filter fun row =>
        (s.correlate.eval engine db row).asTruth = .yes && passes engine db none row).head?).map
          (selected engine db (some (.column c)))).getD .null := rfl
  rw [heval, Scope.rows, List.head?_map, Option.map_map]
  simp only [passes_none, Bool.and_true]
  rfl

end Scalars

section Runs

variable [Double.Rounding] {engine : Engine} {db : Database} {m : Mapper} {truthOf : Node → Truth}
  {n : Nat} {env : RowEnv} {opts : Options} {now : Int}

/-- An attribute is lowered to its column, or to the column of the row it is joined to. -/
theorem yields_reference (halias : m.avoidsAliases n) (name : String) (fuel : Nat) {s : Nat}
    (hs : n ≤ s) :
    Yields ((builder opts now fuel).value (.var name) m) s fun v s' =>
      s ≤ s' ∧ ∃ e, LoweredTo engine db m truthOf n env (.reference name) e ∧ v = .expr e := by
  cases fuel with
  | zero => exact Yields.throw _
  | succ fuel =>
      show Yields (resolveVariable name m) s _
      rw [resolveVariable]
      cases hentry : m.resolve name with
      | none => exact yields_errorf _ _
      | some entry =>
          cases hrelation : entry.relation with
          | some rel => simp only [hrelation]; exact yields_errorf _ _
          | none =>
              cases hscalar : entry.scalarRelation with
              | none =>
                  simp only [hrelation, hscalar]
                  have hcolumn : entry.isColumn = true := by
                    simp [Entry.isColumn, hrelation, hscalar]
                  exact Yields.pure ⟨le_rfl, _, .column hentry hcolumn, rfl⟩
              | some rel =>
                  simp only [hrelation, hscalar]
                  split
                  · exact yields_errorf _ _
                  · have hhop : entry.isColumn = false := by
                      simp [Entry.isColumn, hscalar]
                    rw [scalarThroughHop]
                    refine (yields_newAlias s).bind fun aliasName s₁ hnew => ?_
                    obtain ⟨rfl, rfl⟩ := hnew
                    have hparent : ∀ k, s + 1 ≤ k → entry.qualifier ≠ aliasOf k := fun k hk =>
                      halias name entry hentry k (by omega)
                    refine (yields_relationScope_reached hparent le_rfl).bind
                      fun scope s₂ hscope => ?_
                    obtain ⟨hle, hrows⟩ := hscope
                    refine Yields.pure ⟨by omega, _, .hop hentry hhop ?_, rfl⟩
                    intro env' hsame
                    obtain ⟨hreached, -⟩ := hrows engine db env'
                    rw [stored_hop hscalar, ← hsame _ (halias name entry hentry), ← hreached]
                    exact eval_scalarColumn scope (elementColumn (aliasOf (s + 1)) entry)

/-- A concatenation of two operands. -/
theorem addValue_val {left right : ScalarOperand} {l r : Expr}
    (hleft : LoweredTo engine db m truthOf n env left l)
    (hright : LoweredTo engine db m truthOf n env right r)
    (hform : (ScalarOperand.concat left right).WellFormed m) :
    addValue (left.val l) (right.val r) = .ok (.expr (.concat l r)) := by
  obtain ⟨hstring, hl, hr⟩ := hform
  have hlist : ∀ values, left.val l ≠ .constant (.array values) := by
    intro values hval
    cases left with
    | literal v =>
        obtain rfl := Val.constant.inj hval
        cases hl
    | _ => cases hval
  rw [addValue_of_not_array _ hlist, isStringOperand_val hleft, isStringOperand_val hright,
    if_pos hstring, asExpr_val hleft hl, asExpr_val hright hr]
  rfl

/-- The value an operand is lowered to has its value in the database. -/
theorem yields_value {op : ScalarOperand} (hform : op.WellFormed m) (halias : m.avoidsAliases n)
    (hconds : ∀ cond ∈ op.conditions, LowersCondition engine db m truthOf n env opts now cond)
    (fuel : Nat) {s : Nat} (hs : n ≤ s) :
    Yields ((builder opts now fuel).value op.node m) s fun v s' =>
      s ≤ s' ∧ ∃ e, LoweredTo engine db m truthOf n env op e ∧ v = op.val e := by
  induction op generalizing fuel s with
  | literal v =>
      refine (yields_value_literal v).imp fun lowered s' h => ?_
      obtain ⟨rfl, rfl⟩ := h
      exact ⟨le_rfl, _, .literal v, rfl⟩
  | reference name => exact yields_reference halias name fuel hs
  | concat left right ihl ihr =>
      obtain ⟨hstring, hl, hr⟩ := hform
      have hcondsl : ∀ cond ∈ left.conditions, LowersCondition engine db m truthOf n env opts now cond :=
        fun cond h => hconds cond (List.mem_append_left _ h)
      have hcondsr : ∀ cond ∈ right.conditions,
          LowersCondition engine db m truthOf n env opts now cond :=
        fun cond h => hconds cond (List.mem_append_right _ h)
      cases fuel with
      | zero => exact Yields.throw _
      | succ fuel =>
          show Yields ((builder opts now fuel).arithmetic .add .add [left.node, right.node] m) s _
          rw [Builder.arithmetic]
          refine (ihl hl hcondsl fuel hs).bind fun lv s₁ h => ?_
          obtain ⟨hle, l, hleft, rfl⟩ := h
          refine (ihr hr hcondsr fuel (hs.trans hle)).bind fun rv s₂ h => ?_
          obtain ⟨hle', r, hright, rfl⟩ := h
          have hplain : (!isTemporal (left.val l) && !isTemporal (right.val r)) = true := by
            rw [(val_shape hl l).2.1, (val_shape hr r).2.1]
            rfl
          have htemporal : temporalArith .add (left.val l) (right.val r) = none := if_pos hplain
          rw [htemporal]
          show Yields (liftM (addValue (left.val l) (right.val r))) s₂ _
          rw [addValue_val hleft hright ⟨hstring, hl, hr⟩]
          exact Yields.pure ⟨by omega, _, .concat hleft hright, rfl⟩
  | ternary cond whenTrue whenFalse iht ihf =>
      obtain ⟨ht, hf⟩ := hform
      have hcondst : ∀ cond ∈ whenTrue.conditions,
          LowersCondition engine db m truthOf n env opts now cond :=
        fun cond h => hconds cond (List.mem_cons_of_mem _ (List.mem_append_left _ h))
      have hcondsf : ∀ cond ∈ whenFalse.conditions,
          LowersCondition engine db m truthOf n env opts now cond :=
        fun cond h => hconds cond (List.mem_cons_of_mem _ (List.mem_append_right _ h))
      cases fuel with
      | zero => exact Yields.throw _
      | succ fuel =>
          show Yields ((builder opts now fuel).ternaryValue
            [cond, whenTrue.node, whenFalse.node] m) s _
          rw [Builder.ternaryValue]
          refine (hconds cond List.mem_cons_self fuel s hs).bind fun c s₁ h => ?_
          obtain ⟨hle, hcond⟩ := h
          refine (iht ht hcondst fuel (hs.trans hle)).bind fun tv s₂ h => ?_
          obtain ⟨hle', t, htrue, rfl⟩ := h
          refine (ihf hf hcondsf fuel (hs.trans (hle.trans hle'))).bind fun fv s₃ h => ?_
          obtain ⟨hle'', f, hfalse, rfl⟩ := h
          rw [(val_shape ht t).1, (val_shape hf f).1, asExpr_val htrue ht, asExpr_val hfalse hf]
          exact Yields.pure ⟨by omega, _, .ternary hcond htrue hfalse, rfl⟩

end Runs

end QueryPlanAdapters.Go
