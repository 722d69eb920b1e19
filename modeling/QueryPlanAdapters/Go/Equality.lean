import QueryPlanAdapters.Go.AbsentHop
import QueryPlanAdapters.Go.Operands
import Mathlib.Data.List.Dedup

/-!
# Go: equality of scalar operands

A NULL in the database stands for a null or for an error. An equality is lowered so that
it is definite over a column that declares its NULL to be a null, tested against a null
literal with IS NULL, and distributed over the arms of a ternary that have different
types.
-/

namespace QueryPlanAdapters.Go

open Sql

namespace ScalarOperand

def isNull : ScalarOperand → Bool
  | literal .null => true
  | _ => false

def isTernary : ScalarOperand → Bool
  | ternary _ _ _ => true
  | _ => false

section Mapping

variable (m : Mapper)

/-- Whether an operand is a column whose NULL is declared to be a null. -/
def isExplicit : ScalarOperand → Bool
  | reference name =>
      (m.resolve name).any fun entry => entry.isColumn && entry.nullConvention = .explicit
  | _ => false

/-- Whether two arms have known, different types, so that a comparison is distributed. -/
def mixes (whenTrue whenFalse : ScalarOperand) : Bool :=
  1 < (distinctKinds [whenTrue.kind m, whenFalse.kind m]).length

/-- The arm that a distributed comparison compares, none where no arm is chosen. -/
def chosen (truthOf : Node → Truth) : ScalarOperand → Option ScalarOperand
  | ternary cond whenTrue whenFalse =>
      if mixes m whenTrue whenFalse then
        match truthOf cond with
        | .yes => whenTrue.chosen truthOf
        | .no => whenFalse.chosen truthOf
        | .unknown => none
      else some (ternary cond whenTrue whenFalse)
  | op => some op

end Mapping

section Keeping

variable {engine : Engine} {db : Database} {m : Mapper} {truthOf : Node → Truth} {env : RowEnv}
  {sending : Sending} {op op' : ScalarOperand}

theorem isSome_of_mem_distinctKinds {kinds : List (Option ScalarKind)}
    (h : distinctKinds kinds ≠ []) : ∀ kind ∈ kinds, kind.isSome = true := by
  rw [distinctKinds] at h
  split at h
  next hall => exact List.all_eq_true.mp hall
  next => exact absurd rfl h

theorem kinds_of_mixes {whenTrue whenFalse : ScalarOperand} (h : mixes m whenTrue whenFalse = true) :
    (whenTrue.kind m).isSome = true ∧ (whenFalse.kind m).isSome = true := by
  have hne : distinctKinds [whenTrue.kind m, whenFalse.kind m] ≠ [] := by
    intro hnil
    rw [mixes, hnil] at h
    cases h
  have hall := isSome_of_mem_distinctKinds hne
  exact ⟨hall _ (by simp), hall _ (by simp)⟩

/-- A known kind of a ternary is the kind of both arms. -/
theorem kind_ternary {cond : Node} {whenTrue whenFalse : ScalarOperand} {kind : ScalarKind}
    (h : (ternary cond whenTrue whenFalse).kind m = some kind) :
    whenTrue.kind m = some kind ∧ whenFalse.kind m = some kind := by
  rw [ScalarOperand.kind] at h
  split at h
  next kind' hkinds =>
    obtain rfl := Option.some.inj h
    have hall := isSome_of_mem_distinctKinds (by rw [hkinds]; simp)
    obtain ⟨a, ha⟩ := Option.isSome_iff_exists.mp (hall _ (List.mem_cons_self))
    obtain ⟨b, hb⟩ := Option.isSome_iff_exists.mp
      (hall (whenFalse.kind m) (List.mem_cons_of_mem _ List.mem_cons_self))
    have hdedup : [a, b].dedup = [kind'] := by
      rw [← hkinds, ha, hb]
      rfl
    have hmem : ∀ x, x = a ∨ x = b ↔ x = kind' := by
      intro x
      have hsame : x ∈ [a, b].dedup ↔ x ∈ [kind'] := by rw [hdedup]
      rw [List.mem_dedup] at hsame
      simpa using hsame
    rw [ha, hb, (hmem a).mp (.inl rfl), (hmem b).mp (.inr rfl)]
    exact ⟨rfl, rfl⟩
  next => cases h

end Keeping

end ScalarOperand

/-- Whether a value is of a kind, or the NULL in its place. -/
def ScalarKind.holds : ScalarKind → SqlValue → Bool
  | _, .null => true
  | .string, .text _ | .number, .number _ | .bool, .bool _ => true
  | _, _ => false

namespace ScalarOperand

section Kinds

variable {engine : Engine} {db : Database} {m : Mapper} {truthOf : Node → Truth} {env : RowEnv}
  {sending : Sending} {op : ScalarOperand}

/-- The value of an operand has the kind it is known to have. -/
theorem kind_holds (hconcat : StandardConcat engine) (hform : op.WellFormed m)
    (hkeeps : op.Keeps engine db m truthOf env) {kind : ScalarKind} (hkind : op.kind m = some kind) :
    kind.holds (op.stored engine db m truthOf env) = true := by
  induction op with
  | literal v =>
      cases v with
      | null => rfl
      | array items => cases hform
      | object fields => cases hform
      | _ =>
          obtain rfl := Option.some.inj hkind
          rfl
  | reference name =>
      obtain ⟨entry, hentry, hkind⟩ := Option.bind_eq_some_iff.mp hkind
      have hreading : readingOf m env name = some { entry := entry, row := env entry.qualifier } := by
        rw [readingOf, hentry]
        rfl
      rw [stored, hreading, Option.bind_some]
      cases hx : Sending.stored engine db { entry := entry, row := env entry.qualifier } with
      | none => cases kind <;> rfl
      | some x =>
          have hholds := hkeeps _ hreading x hx
          rw [Option.getD_some]
          rw [Column.scalarKind] at hkind
          cases htype : entry.valueType <;> simp [elementColumn, htype] at hkind <;>
            obtain rfl := hkind <;> rw [htype] at hholds <;> cases x <;>
              simp [ValueType.holds] at hholds <;> rfl
  | concat left right =>
      obtain rfl := Option.some.inj hkind
      obtain ⟨hx, hy, -, -⟩ := hkeeps
      rw [stored]
      obtain hx | ⟨a, hx⟩ := hx
      · rw [hx, hconcat.null_left]
        rfl
      · obtain hy | ⟨b, hy⟩ := hy
        · rw [hy, hconcat.null_right]
          rfl
        · rw [hx, hy, hconcat.text]
          rfl
  | ternary cond whenTrue whenFalse iht ihf =>
      obtain ⟨hktrue, hkfalse⟩ := kind_ternary hkind
      rw [stored]
      cases hcond : truthOf cond with
      | yes => exact iht hform.1 (hkeeps.1 hcond) hktrue
      | no => exact ihf hform.2 (hkeeps.2 hcond) hkfalse
      | unknown => cases kind <;> rfl

theorem holds_present {x : SqlValue} {kind : ScalarKind} (h : kind.holds x = true)
    (hx : x.isNull = false) :
    (kind = .string ∧ ∃ s, x = .text s) ∨ (kind = .number ∧ ∃ d, x = .number d) ∨
      (kind = .bool ∧ ∃ b, x = .bool b) := by
  cases kind <;> cases x <;> simp [ScalarKind.holds, SqlValue.isNull] at h hx ⊢

/-- Values of different kinds are unequal. -/
theorem valuesEqual_of_kinds {x y : SqlValue} {kind kind' : ScalarKind} (hne : kind ≠ kind')
    (hx : kind.holds x = true) (hy : kind'.holds y = true) (hxnull : x.isNull = false)
    (hynull : y.isNull = false) :
    (sending.value x).valuesEqual (sending.value y) = false := by
  obtain ⟨rfl, s, rfl⟩ | ⟨rfl, d, rfl⟩ | ⟨rfl, b, rfl⟩ := holds_present hx hxnull <;>
    obtain ⟨rfl, s', rfl⟩ | ⟨rfl, d', rfl⟩ | ⟨rfl, b', rfl⟩ := holds_present hy hynull <;>
      first | rfl | exact absurd rfl hne

end Kinds

end ScalarOperand

/-! ## Operands that are compared as they stand -/

/-- An engine whose `<>` is the negation of its `=`. -/
def StandardInequality (engine : Engine) : Prop :=
  ∀ x y, engine.compareMixed .ne x y = (engine.compareMixed .eq x y).not

theorem StandardInequality.compare {engine : Engine} (h : StandardInequality engine)
    {op : CmpOp} (hop : op.isOrdering = false) (x y : SqlValue) :
    engine.compare op x y = (engine.compare .eq x y).polarised (op = .ne) := by
  cases op with
  | eq => rfl
  | ne =>
      have hpolarised : decide (ComparisonOperator.ne = .ne) = true := rfl
      rw [hpolarised, Truth.polarised_true, Engine.compare, Engine.compare]
      split
      · rfl
      · split
        · rw [Truth.not_ofBool]
          rfl
        · exact h x y
  | _ => cases hop

/-- Whether two kinds are known and differ. -/
def kindsDiffer : Option ScalarKind → Option ScalarKind → Bool
  | some k, some k' => k ≠ k'
  | _, _ => false

/-- What a comparison asks of an operand as it stands. -/
structure Standing where
  isNull : Bool
  kind : Option ScalarKind
  isExplicit : Bool

@[simps]
def ScalarOperand.standing (op : ScalarOperand) (m : Mapper) : Standing where
  isNull := op.isNull
  kind := op.kind m
  isExplicit := op.isExplicit m

/-- What an equality is lowered to, of two operands none of which is distributed over. -/
def equalityTruth (engine : Engine) (l r : Standing) (x y : SqlValue) : Truth :=
  if l.isNull && r.isNull then .yes
  else if l.isNull then .ofBool y.isNull
  else if r.isNull then .ofBool x.isNull
  else if kindsDiffer (l.kind) (r.kind) then
    if (x.isNull && !l.isExplicit) || (y.isNull && !r.isExplicit) then .unknown
    else .ofBool (x.isNull && y.isNull)
  else if l.isExplicit && r.isExplicit && x.isNull && y.isNull then .yes
  else if (l.isExplicit && x.isNull) || (r.isExplicit && y.isNull) then .no
  else engine.compare .eq x y

/-- A value that stands for an operand where it is compared: a constant only where the
operand is a literal of the plan. -/
structure Stands (op : Standing) (v : Val) (e : Expr) : Prop where
  expr : asExpr v = .ok e
  shape : v = .expr e ∨ ∃ c, v = .constant c ∧ isScalarLiteral c = true
  isNil_eq : isNil v = op.isNull
  kind : v.scalarKind = op.kind
  explicit : (explicitNullColumn e).isSome = op.isExplicit

section Plain

variable {engine : Engine} {db : Database} {env : RowEnv} {l r : Standing}
  {lv rv v : Val} {le re e : Expr} {x y : SqlValue} {op : CmpOp}

theorem Stands.explicitNullColumn_eq {op : Standing} (h : Stands op v e) :
    v.explicitNullColumn = explicitNullColumn e := by
  obtain rfl | ⟨c, rfl, hc⟩ := h.shape
  · rfl
  · have hexpr := h.expr
    cases c <;> first | (obtain rfl := Except.ok.inj hexpr; rfl) | cases hc

theorem Stands.isListLiteral_eq {op : Standing} (h : Stands op v e) :
    isListLiteral v = false := by
  obtain rfl | ⟨c, rfl, hc⟩ := h.shape
  · rfl
  · cases c <;> first | rfl | cases hc

theorem Stands.isNull_eq {op : Standing} (h : Stands op v e) (hkind : op.kind.isSome = true) :
    op.isNull = false := by
  rw [← h.kind] at hkind
  rw [← h.isNil_eq]
  obtain rfl | ⟨c, rfl, -⟩ := h.shape
  · rfl
  · cases c <;> first | rfl | cases hkind

/-- A result is kept where an operand is present or an explicit null. -/
theorem truth_whenPresent {op : Standing} (h : Stands op v e)
    (hx : e.eval engine db env = x) (hkind : (op.kind).isSome = true) (result : Expr) :
    (whenPresent result v).truth engine db env =
      if x.isNull && !op.isExplicit then .unknown else result.truth engine db env := by
  obtain rfl | ⟨c, rfl, hc⟩ := h.shape
  · rw [whenPresent]
    split
    next hexplicit =>
      rw [h.explicit] at hexplicit
      simp [hexplicit]
    next hexplicit =>
      rw [h.explicit] at hexplicit
      rw [Expr.truth_case_singleton, Expr.truth_isNull, hx]
      cases hnull : x.isNull <;> simp [hexplicit]
  · have hpresent : x.isNull = false := by
      rw [← h.kind] at hkind
      have hexpr := h.expr
      cases c with
      | null => cases hkind
      | array items => cases hc
      | object fields => cases hc
      | _ =>
          obtain rfl := Except.ok.inj hexpr
          rw [← hx]
          rfl
    rw [whenPresent, hpresent]
    · rfl
    · nofun

theorem truth_isNull_column {c : Column} (h : explicitNullColumn e = some c)
    (hx : e.eval engine db env = x) (negate : Bool) :
    (Expr.isNull (.column c) negate).truth engine db env = .ofBool (x.isNull ^^ negate) := by
  rw [← eq_column_of_explicit h, Expr.truth_isNull, hx]

theorem truth_mixedTypeEquality (hl : Stands l lv le) (hr : Stands r rv re)
    (hx : le.eval engine db env = x) (hy : re.eval engine db env = y)
    (hop : op.isOrdering = false) :
    (mixedTypeEquality op lv rv).truth engine db env =
      (Truth.ofBool (l.isExplicit && r.isExplicit && x.isNull && y.isNull)).polarised
        (op = .ne) := by
  rw [mixedTypeEquality, hl.explicitNullColumn_eq, hr.explicitNullColumn_eq, ← hl.explicit,
    ← hr.explicit]
  have hconst : (Expr.boolConst (op = .ne)).truth engine db env =
      (Truth.ofBool false).polarised (op = .ne) := by
    cases op <;> rfl
  cases hlc : explicitNullColumn le with
  | none => exact hconst
  | some lc =>
      cases hrc : explicitNullColumn re with
      | none => exact hconst
      | some rc =>
          have hboth : (Expr.and [.isNull (.column lc) false, .isNull (.column rc) false]).truth
              engine db env = .ofBool (x.isNull && y.isNull) := by
            rw [Expr.truth_combine, if_pos rfl, List.map_cons, List.map_cons, List.map_nil,
              truth_isNull_column hlc hx, truth_isNull_column hrc hy]
            simp
          cases op with
          | eq => simpa using hboth
          | ne => simp [hboth]
          | _ => cases hop

/-- A comparison of two known, different types. -/
theorem truth_compareMixedTypes (hl : Stands l lv le) (hr : Stands r rv re)
    (hx : le.eval engine db env = x) (hy : re.eval engine db env = y)
    (hop : op.isOrdering = false) (hdiffer : kindsDiffer (l.kind) (r.kind) = true) :
    ∃ mixed, compareMixedTypes op lv rv = some mixed ∧
      mixed.truth engine db env =
        (if (x.isNull && !l.isExplicit) || (y.isNull && !r.isExplicit) then Truth.unknown
          else .ofBool (x.isNull && y.isNull)).polarised (op = .ne) := by
  obtain ⟨lk, hlk⟩ : ∃ lk, l.kind = some lk := by
    cases hk : l.kind with
    | none => rw [hk] at hdiffer; cases hdiffer
    | some lk => exact ⟨lk, rfl⟩
  obtain ⟨rk, hrk⟩ : ∃ rk, r.kind = some rk := by
    cases hk : r.kind with
    | none => rw [hlk, hk] at hdiffer; cases hdiffer
    | some rk => exact ⟨rk, rfl⟩
  have hne : lk ≠ rk := by
    rw [hlk, hrk] at hdiffer
    simpa [kindsDiffer] using hdiffer
  refine ⟨whenPresent (whenPresent (mixedTypeEquality op lv rv) lv) rv, ?_, ?_⟩
  · rw [compareMixedTypes, hl.kind, hr.kind, hlk, hrk]
    simp only [if_neg hne, hop, Bool.false_eq_true, if_false]
  · rw [truth_whenPresent hr hy (by rw [hrk]; rfl), truth_whenPresent hl hx (by rw [hlk]; rfl),
      truth_mixedTypeEquality hl hr hx hy hop]
    cases x.isNull <;> cases y.isNull <;> cases l.isExplicit <;> cases r.isExplicit <;> simp

/-- Two columns are never compared of which only one declares its NULL to be a null. -/
theorem explicit_of_columns {lc rc : Column} (hop : op.isOrdering = false)
    (h : assertNoMixedNullConventions op (.column lc) (.column rc) = .ok ()) :
    lc.explicitNull = rc.explicitNull := by
  rw [assertNoMixedNullConventions, hop, Bool.false_or] at h
  split at h
  next heq => simpa using heq
  next => cases h

/-- The equality that a definite one consists of, and what its nulls make of it. -/
theorem definiteEquality_eq (hop : op.isOrdering = false)
    (hconventions : assertNoMixedNullConventions op le re = .ok ()) :
    definiteEquality op le re =
      let equality := Expr.and
        (((explicitNullColumn le).toList ++ (explicitNullColumn re).toList).map
          (fun c => Expr.isNull (.column c) true) ++ [.cmp .eq le re])
      match explicitNullColumn le, explicitNullColumn re with
      | none, none => none
      | some lc, some rc =>
          let equality :=
            Expr.or [.and [.isNull (.column lc) false, .isNull (.column rc) false], equality]
          some (if op = .ne then .not equality else equality)
      | _, _ => some (if op = .ne then .not equality else equality) := by
  have hcolumns : ∀ {e : Expr}, isColumn e = true → ∃ c, e = .column c := by
    intro e h
    cases e <;> first | exact ⟨_, rfl⟩ | cases h
  have hmixed : isColumn le = true → isColumn re = true →
      (explicitNullColumn le).isNone = (explicitNullColumn re).isNone := by
    intro hl hr
    obtain ⟨lc, rfl⟩ := hcolumns hl
    obtain ⟨rc, rfl⟩ := hcolumns hr
    have hsame := explicit_of_columns hop hconventions
    cases hc : rc.explicitNull <;> simp [explicitNullColumn, hsame, hc]
  have hnot : (explicitNullColumn le).isNone ≠ (explicitNullColumn re).isNone →
      (isColumn le && isColumn re) = false := by
    intro hne
    rw [← Bool.not_eq_true, Bool.and_eq_true]
    rintro ⟨hl, hr⟩
    exact hne (hmixed hl hr)
  rw [definiteEquality, hop]
  cases hlc : explicitNullColumn le with
  | none =>
      cases hrc : explicitNullColumn re with
      | none => rfl
      | some rc =>
          simp [hnot (by rw [hlc, hrc]; rintro ⟨⟩)]
  | some lc =>
      cases hrc : explicitNullColumn re with
      | none =>
          simp [hnot (by rw [hlc, hrc]; rintro ⟨⟩)]
      | some rc => simp

/-- An equality is definite over the columns that declare their NULLs to be nulls. -/
theorem truth_definiteEquality (hle : (explicitNullColumn le).isSome = l.isExplicit)
    (hre : (explicitNullColumn re).isSome = r.isExplicit)
    (hx : le.eval engine db env = x) (hy : re.eval engine db env = y)
    (hop : op.isOrdering = false) (hnegated : StandardInequality engine)
    (hconventions : assertNoMixedNullConventions op le re = .ok ()) :
    ((definiteEquality op le re).getD (.cmp op le re)).truth engine db env =
      (if l.isExplicit && r.isExplicit && x.isNull && y.isNull then Truth.yes
        else if (l.isExplicit && x.isNull) || (r.isExplicit && y.isNull) then .no
        else engine.compare .eq x y).polarised (op = .ne) := by
  have hnegate : ∀ equality : Expr,
      (if op = .ne then Expr.not equality else equality).truth engine db env =
        (equality.truth engine db env).polarised (op = .ne) := by
    intro equality
    cases op with
    | ne => exact Expr.truth_not equality
    | eq => rfl
    | _ => cases hop
  have hcmp : (Expr.cmp .eq le re).truth engine db env = engine.compare .eq x y := by
    rw [Expr.truth_cmp, hx, hy]
  rw [definiteEquality_eq hop hconventions, ← hle, ← hre]
  cases hlc : explicitNullColumn le with
  | none =>
      cases hrc : explicitNullColumn re with
      | none =>
          show (Expr.cmp op le re).truth engine db env = _
          rw [Expr.truth_cmp, hx, hy, hnegated.compare hop]
          rfl
      | some rc =>
          show (if op = .ne then Expr.not _ else _).truth engine db env = _
          rw [hnegate]
          congr 1
          rw [Expr.truth_combine, if_pos rfl]
          simp only [Option.toList_none, Option.toList_some, List.nil_append, List.map_cons,
            List.map_nil, List.cons_append, Truth.all_cons, Truth.all_nil, Truth.and_yes, hcmp,
            truth_isNull_column hrc hy]
          cases y.isNull <;> simp
  | some lc =>
      cases hrc : explicitNullColumn re with
      | none =>
          show (if op = .ne then Expr.not _ else _).truth engine db env = _
          rw [hnegate]
          congr 1
          rw [Expr.truth_combine, if_pos rfl]
          simp only [Option.toList_none, Option.toList_some, List.append_nil, List.map_cons,
            List.map_nil, List.cons_append, List.nil_append, Truth.all_cons, Truth.all_nil,
            Truth.and_yes, hcmp, truth_isNull_column hlc hx]
          cases x.isNull <;> simp
      | some rc =>
          show (if op = .ne then Expr.not _ else _).truth engine db env = _
          rw [hnegate]
          congr 1
          rw [Expr.truth_combine, if_neg Bool.false_ne_true]
          simp only [Option.toList_some, List.map_cons, List.map_nil, List.cons_append,
            List.nil_append, Truth.any_cons, Truth.any_nil, Truth.or_no, Expr.truth_combine,
            if_true, Truth.all_cons, Truth.all_nil, Truth.and_yes, hcmp,
            truth_isNull_column hlc hx, truth_isNull_column hrc hy]
          cases x.isNull <;> cases y.isNull <;> simp

theorem compareMixedTypes_none {op : CmpOp} (hl : Stands l lv le) (hr : Stands r rv re)
    (hsame : kindsDiffer (l.kind) (r.kind) = false) : compareMixedTypes op lv rv = none := by
  rw [compareMixedTypes, hl.kind, hr.kind]
  cases hlk : l.kind with
  | none => rfl
  | some lk =>
      cases hrk : r.kind with
      | none => rfl
      | some rk =>
          rw [hlk, hrk] at hsame
          have heq : lk = rk := by simpa [kindsDiffer] using hsame
          simp [heq]

/-- A comparison of two scalars within one type, or of unknown types. -/
theorem comparePlain_scalars (hl : Stands l lv le) (hr : Stands r rv re)
    (hmixed : compareMixedTypes op lv rv = none) :
    comparePlain op lv rv = do
      match ← nullComparison op lv rv with
      | some nullTest => return nullTest
      | none =>
          match foldComparison op lv rv with
          | some b => return .boolConst b
          | none =>
              let lExpr ← asExpr lv
              let rExpr ← asExpr rv
              assertNoMixedNullConventions op lExpr rExpr
              return (definiteEquality op lExpr rExpr).getD (.cmp op lExpr rExpr) := by
  have hlist : (isListLiteral lv || isListLiteral rv) = false := by
    rw [hl.isListLiteral_eq, hr.isListLiteral_eq]
    rfl
  rw [comparePlain, hmixed]
  obtain rfl | ⟨c, rfl, hc⟩ := hl.shape
  · simp only [hlist, Bool.false_eq_true, if_false] <;> rfl
  · cases c with
    | array items => cases hc
    | _ => simp only [hlist, Bool.false_eq_true, if_false] <;> rfl
  · intro as bs hlv
    rw [hlv] at hl
    cases hl.isListLiteral_eq

/-- The fold of two constants is what the database would answer. -/
theorem truth_foldComparison {b : Bool} (hop : op.isOrdering = false)
    (hnegated : StandardInequality engine)
    (h : foldComparison op lv rv = some b) (hl : asExpr lv = .ok le) (hr : asExpr rv = .ok re)
    (hx : le.eval engine db env = x) (hy : re.eval engine db env = y) :
    .ofBool b = (engine.compare .eq x y).polarised (op = .ne) := by
  have heval : ∀ {c : Literal} {e : Expr} {x : SqlValue}, isScalarLiteral c = true →
      asExpr (.constant c) = .ok e → e.eval engine db env = x → x = (Val.constant c).bound := by
    intro c e x hc he hx
    cases c with
    | array items => cases hc
    | object fields => cases hc
    | _ =>
        obtain rfl := Except.ok.inj he
        exact hx.symm
  unfold foldComparison at h
  split at h
  next a c =>
    obtain rfl := Option.some.inj h
    rw [heval rfl hl hx, heval rfl hr hy, ← hnegated.compare hop]
    rfl
  next a c =>
    obtain rfl := Option.some.inj h
    rw [heval rfl hl hx, heval rfl hr hy, ← hnegated.compare hop]
    rfl
  next a c =>
    rw [heval rfl hl hx, heval rfl hr hy]
    split at h
    next =>
      obtain rfl := Option.some.inj h
      cases a <;> cases c <;> rfl
    next =>
      obtain rfl := Option.some.inj h
      cases a <;> cases c <;> rfl
    next => cases h
  next => cases h

theorem nullComparison_eq (hop : op.isOrdering = false) (lv rv : Val) :
    nullComparison op lv rv =
      if isNil lv || isNil rv then
        let other := if isNil rv then lv else rv
        if isNil other then .ok (some (.boolConst (op = .eq)))
        else do return some (.isNull (← asExpr other) (op = .ne))
      else .ok none := by
  rw [nullComparison, hop]
  cases isNil lv <;> cases isNil rv <;> rfl

/-- A null literal is compared by testing the other operand. -/
theorem truth_nullComparison {t : Expr} (hl : Stands l lv le) (hr : Stands r rv re)
    (hx : le.eval engine db env = x) (hy : re.eval engine db env = y)
    (hop : op.isOrdering = false) (h : nullComparison op lv rv = .ok (some t)) :
    (l.isNull || r.isNull) = true ∧ t.truth engine db env =
      (if l.isNull && r.isNull then Truth.yes
        else if l.isNull then .ofBool y.isNull
        else .ofBool x.isNull).polarised (op = .ne) := by
  have htest : ∀ {e : Expr} {x : SqlValue}, e.eval engine db env = x →
      (Expr.isNull e (op = .ne)).truth engine db env =
        (Truth.ofBool x.isNull).polarised (op = .ne) := by
    intro e x hx
    rw [Expr.truth_isNull, hx]
    cases decide (op = .ne) <;> cases x.isNull <;> rfl
  rw [nullComparison_eq hop, hl.isNil_eq, hr.isNil_eq] at h
  cases hlnull : l.isNull with
  | true =>
      cases hrnull : r.isNull with
      | true =>
          rw [hlnull, hrnull] at h
          simp only [Bool.or_true, if_true, hl.isNil_eq, hlnull] at h
          obtain rfl := Option.some.inj (Except.ok.inj h)
          refine ⟨rfl, ?_⟩
          cases op <;> first | rfl | cases hop
      | false =>
          rw [hlnull, hrnull] at h
          simp only [Bool.true_or, if_true, Bool.false_eq_true, if_false, hr.isNil_eq, hrnull,
            hr.expr] at h
          obtain rfl := Option.some.inj (Except.ok.inj h)
          exact ⟨rfl, htest hy⟩
  | false =>
      cases hrnull : r.isNull with
      | true =>
          rw [hlnull, hrnull] at h
          simp only [Bool.or_true, if_true, Bool.false_eq_true, if_false, hl.isNil_eq, hlnull,
            hl.expr] at h
          obtain rfl := Option.some.inj (Except.ok.inj h)
          exact ⟨rfl, htest hx⟩
      | false =>
          rw [hlnull, hrnull] at h
          cases h

theorem nullComparison_none (hl : Stands l lv le) (hr : Stands r rv re)
    (hop : op.isOrdering = false) (h : nullComparison op lv rv = .ok none) :
    l.isNull = false ∧ r.isNull = false := by
  rw [nullComparison_eq hop, hl.isNil_eq, hr.isNil_eq] at h
  split at h
  next hnil =>
    have hsome : ∀ other : Val,
        (if isNil other then .ok (some (.boolConst (op = .eq)))
          else do return some (.isNull (← asExpr other) (op = .ne)) :
          Except Failure (Option Expr)) ≠ .ok none := by
      intro other hnone
      split at hnone
      · cases hnone
      · obtain ⟨_, -, hnone⟩ := Except.bind_eq_ok_iff.mp hnone
        cases hnone
    exact absurd h (hsome _)
  next hnil => simpa using hnil

theorem constants_of_fold {b : Bool} (h : foldComparison op lv rv = some b) :
    (∃ a, lv = .constant a) ∧ ∃ c, rv = .constant c := by
  unfold foldComparison at h
  split at h
  next a c => exact ⟨⟨_, rfl⟩, _, rfl⟩
  next a c => exact ⟨⟨_, rfl⟩, _, rfl⟩
  next a c => exact ⟨⟨_, rfl⟩, _, rfl⟩
  next => cases h

theorem isExplicit_of_constant {op : Standing} {c : Literal}
    (h : Stands op (.constant c) e) : op.isExplicit = false := by
  rw [← h.explicit, ← h.explicitNullColumn_eq]
  rfl

/-- An equality of two operands as they stand. -/
theorem truth_comparePlain (hl : Stands l lv le) (hr : Stands r rv re)
    (hx : le.eval engine db env = x) (hy : re.eval engine db env = y)
    (hop : op.isOrdering = false) (hnegated : StandardInequality engine)
    (h : comparePlain op lv rv = .ok e) :
    e.truth engine db env = (equalityTruth engine l r x y).polarised (op = .ne) := by
  cases hdiffer : kindsDiffer (l.kind) (r.kind) with
  | true =>
      obtain ⟨mixed, hmixed, htruth⟩ := truth_compareMixedTypes hl hr hx hy hop hdiffer
      have hkinds : (l.kind).isSome = true ∧ (r.kind).isSome = true := by
        cases hlk : l.kind <;> cases hrk : r.kind <;> rw [hlk, hrk] at hdiffer <;>
          first | exact ⟨rfl, rfl⟩ | cases hdiffer
      have hplain : comparePlain op lv rv = .ok mixed := by
        rw [comparePlain.eq_def, hmixed]
      obtain rfl := Except.ok.inj (hplain.symm.trans h)
      rw [htruth, equalityTruth, hl.isNull_eq hkinds.1, hr.isNull_eq hkinds.2, hdiffer]
      rfl
  | false =>
      rw [comparePlain_scalars hl hr (compareMixedTypes_none hl hr hdiffer)] at h
      obtain ⟨nullTest, hnull, h⟩ := Except.bind_eq_ok_iff.mp h
      cases nullTest with
      | some t =>
          obtain rfl := Except.ok.inj h
          obtain ⟨hnil, htruth⟩ := truth_nullComparison hl hr hx hy hop hnull
          rw [htruth, equalityTruth]
          cases hlnull : l.isNull with
          | true => cases r.isNull <;> rfl
          | false =>
              rw [hlnull, Bool.false_or] at hnil
              rw [hnil]
              rfl
      | none =>
          obtain ⟨hlnull, hrnull⟩ := nullComparison_none hl hr hop hnull
          rw [equalityTruth, hlnull, hrnull, hdiffer]
          cases hfold : foldComparison op lv rv with
          | some b =>
              rw [hfold] at h
              obtain rfl := Except.ok.inj h
              rw [Expr.truth_boolConst,
                truth_foldComparison hop hnegated hfold hl.expr hr.expr hx hy]
              obtain ⟨⟨a, rfl⟩, c, rfl⟩ := constants_of_fold hfold
              rw [isExplicit_of_constant hl, isExplicit_of_constant hr]
              rfl
          | none =>
              rw [hfold] at h
              obtain ⟨_, hle, h⟩ := Except.bind_eq_ok_iff.mp h
              obtain rfl := Except.ok.inj (hl.expr.symm.trans hle)
              obtain ⟨_, hre, h⟩ := Except.bind_eq_ok_iff.mp h
              obtain rfl := Except.ok.inj (hr.expr.symm.trans hre)
              obtain ⟨hconventions, h⟩ := Except.bind_unit_eq_ok_iff.mp h
              obtain rfl := Except.ok.inj h
              exact truth_definiteEquality hl.explicit hr.explicit hx hy hop hnegated hconventions

end Plain

/-! ## Comparisons that are distributed -/

section Distribution

variable {engine : Engine} {db : Database} {m : Mapper} {truthOf : Node → Truth} {n : Nat}
  {env env' : RowEnv} {op : ScalarOperand} {e d : Expr} {leaf : Expr → Except Failure Expr}

theorem LoweredTo.explicit (h : LoweredTo engine db m truthOf n env op e) :
    (explicitNullColumn e).isSome = op.isExplicit m := by
  cases h with
  | @column name entry hentry hcolumn =>
      rw [ScalarOperand.isExplicit, hentry, Option.any_some, hcolumn, Bool.true_and]
      cases hconvention : entry.nullConvention <;>
        simp [explicitNullColumn, elementColumn, hconvention]
  | hop hentry hhop heval =>
      rw [ScalarOperand.isExplicit, hentry, Option.any_some, hhop, Bool.false_and]
      rfl
  | _ => rfl

theorem stands_val (h : LoweredTo engine db m truthOf n env op e) (hform : op.WellFormed m) :
    Stands (op.standing m) (op.val e) e where
  expr := asExpr_val h hform
  shape := by
    cases op with
    | literal v => exact .inr ⟨v, rfl, hform⟩
    | _ => exact .inl rfl
  isNil_eq := by
    cases op with
    | literal v => cases v <;> rfl
    | _ => rfl
  kind := val_scalarKind h
  explicit := h.explicit

theorem stands_expr (h : LoweredTo engine db m truthOf n env op e) (hnull : op.isNull = false) :
    Stands (op.standing m) (.expr e) e where
  expr := rfl
  shape := .inl rfl
  isNil_eq := hnull.symm
  kind := h.scalarKind
  explicit := h.explicit

theorem caseArmKinds_guarded (c t f : Expr) :
    caseArmKinds [(c, t), (.not c, f)] none = distinctKinds [t.scalarKind, f.scalarKind] := rfl

theorem truth_distributed (c t f : Expr) :
    (if caseIsAllNull [(c, t), (.not c, f)] none then Expr.null
      else .case [(c, t), (.not c, f)] none).truth engine db env =
        (guardedCase c t f).truth engine db env := by
  split
  next hnull =>
    have hlit : ∀ {e : Expr}, isNullLit e = true → e.truth engine db env = .unknown := by
      intro e he
      unfold isNullLit at he
      split at he
      · rfl
      · cases he
    obtain ⟨ht, hf⟩ : isNullLit t = true ∧ isNullLit f = true := by
      simpa [caseIsAllNull] using hnull
    rw [truth_guardedCase, hlit ht, hlit hf]
    cases c.truth engine db env <;> rfl
  next => rfl

/-- A distributed comparison is the one of the arm that is chosen, and UNKNOWN where none is. -/
theorem truth_distributeMixedCase (h : LoweredTo engine db m truthOf n env op e)
    (hrows : SameRows n env env') (hd : distributeMixedCase leaf e = .ok d) :
    (op.chosen m truthOf = none → d.truth engine db env' = .unknown) ∧
      ∀ op', op.chosen m truthOf = some op' → ∃ e' d',
        LoweredTo engine db m truthOf n env op' e' ∧ leaf e' = .ok d' ∧
          d.truth engine db env' = d'.truth engine db env' := by
  induction h generalizing d with
  | @ternary cond whenTrue whenFalse c t f hcond htrue hfalse iht ihf =>
      have hkinds : caseArmKinds [(c, t), (.not c, f)] none =
          distinctKinds [whenTrue.kind m, whenFalse.kind m] := by
        rw [caseArmKinds_guarded, htrue.scalarKind, hfalse.scalarKind]
      rw [guardedCase, distributeMixedCase, hkinds] at hd
      rw [ScalarOperand.chosen, ScalarOperand.mixes]
      split at hd
      next hfew =>
        rw [if_neg (by simpa using hfew)]
        refine ⟨by rintro ⟨⟩, fun op' hop' => ?_⟩
        obtain rfl := Option.some.inj hop'
        exact ⟨_, d, .ternary hcond htrue hfalse, hd, rfl⟩
      next hmany =>
        rw [if_pos (by simpa using hmany)]
        obtain ⟨whens, hwhens, hd⟩ := Except.bind_eq_ok_iff.mp hd
        obtain ⟨els, hels, hd⟩ := Except.bind_eq_ok_iff.mp hd
        obtain rfl := Except.ok.inj hels
        obtain ⟨t', ht', hwhens⟩ := Except.bind_eq_ok_iff.mp hwhens
        obtain ⟨rest, hrest, hwhens⟩ := Except.bind_eq_ok_iff.mp hwhens
        obtain ⟨f', hf', hrest⟩ := Except.bind_eq_ok_iff.mp hrest
        obtain ⟨last, hlast, hrest⟩ := Except.bind_eq_ok_iff.mp hrest
        obtain rfl := Except.ok.inj hlast
        obtain rfl := Except.ok.inj hrest
        obtain rfl := Except.ok.inj hwhens
        obtain rfl := Except.ok.inj hd
        rw [truth_distributed, truth_guardedCase, hcond env' hrows]
        cases truthOf cond with
        | yes => exact iht ht'
        | no => exact ihf hf'
        | unknown => exact ⟨fun _ => rfl, by rintro _ ⟨⟩⟩
  | _ =>
      refine ⟨by rintro ⟨⟩, fun op' hop' => ?_⟩
      obtain rfl := Option.some.inj hop'
      refine ⟨_, d, ?_, hd, rfl⟩
      first
        | exact .literal _
        | exact .column ‹_› ‹_›
        | exact .hop ‹_› ‹_› ‹_›
        | exact .concat ‹_› ‹_›

theorem chosen_isNull {op' : ScalarOperand} (h : op.chosen m truthOf = some op')
    (hnull : op'.isNull = true) : op.isNull = true := by
  -- An arm that is distributed over has a known kind, which a null has not.
  have hkind : ∀ {op : ScalarOperand}, op.isNull = true → (op.kind m).isSome = false := by
    intro op hnull
    cases op with
    | literal v => cases v <;> first | rfl | cases hnull
    | _ => cases hnull
  induction op with
  | ternary cond whenTrue whenFalse iht ihf =>
      rw [ScalarOperand.chosen] at h
      split at h
      next hmixes =>
        obtain ⟨hktrue, hkfalse⟩ := ScalarOperand.kinds_of_mixes hmixes
        split at h
        · rw [hkind (iht h)] at hktrue
          cases hktrue
        · rw [hkind (ihf h)] at hkfalse
          cases hkfalse
        · cases h
      next =>
        obtain rfl := Option.some.inj h
        exact hnull
  | _ =>
      obtain rfl := Option.some.inj h
      exact hnull

/-- The operands of the equality that decides, none where no arm is chosen. A ternary on the
left that is not distributed over is compared whole. -/
def compared (m : Mapper) (truthOf : Node → Truth) (l r : ScalarOperand) :
    Option (ScalarOperand × ScalarOperand) :=
  (l.chosen m truthOf).bind fun l' =>
    if l'.isTernary then some (l', r) else (r.chosen m truthOf).map fun r' => (l', r')

/-- What an equality is lowered to. -/
def loweredTruth (engine : Engine) (db : Database) (m : Mapper) (truthOf : Node → Truth)
    (env : RowEnv) (l r : ScalarOperand) : Truth :=
  (compared m truthOf l r).elim .unknown fun (l, r) =>
    equalityTruth engine (l.standing m) (r.standing m) (l.stored engine db m truthOf env)
      (r.stored engine db m truthOf env)

end Distribution

/-! ## What an equality is lowered to -/

section Compared

variable {engine : Engine} {db : Database} {m : Mapper} {truthOf : Node → Truth} {n : Nat}
  {env env' : RowEnv} {l r : ScalarOperand} {lv : Val} {le re e : Expr} {op : CmpOp}

/-- The right operand alone is distributed over. -/
theorem truth_compareRight {l : Standing} {x : SqlValue} (hl : Stands l lv le)
    (hx : le.eval engine db env' = x) (hr : LoweredTo engine db m truthOf n env r re) (hform : r.WellFormed m)
    (halias : m.avoidsAliases n) (hrows : SameRows n env env') (hop : op.isOrdering = false)
    (hnegated : StandardInequality engine) (h : compareRight op lv (r.val re) = .ok e) :
    e.truth engine db env' =
      ((r.chosen m truthOf).elim Truth.unknown fun r' =>
        equalityTruth engine l (r'.standing m) x
          (r'.stored engine db m truthOf env)).polarised (op = .ne) := by
  cases hliteral : r.isNull || (r.val re).literal.isSome with
  | true =>
      -- A literal is compared as the constant it is.
      obtain ⟨v, rfl⟩ : ∃ v, r = .literal v := by
        cases r with
        | literal v => exact ⟨v, rfl⟩
        | _ => cases hliteral
      exact truth_comparePlain hl (stands_val hr hform) hx (hr.eval_eq halias hrows) hop hnegated h
  | false =>
      have hnull : r.isNull = false := (Bool.or_eq_false_iff.mp hliteral).1
      have hval : r.val re = .expr re := by
        cases r with
        | literal v =>
            rw [Bool.or_eq_false_iff] at hliteral
            cases hliteral.2
        | _ => rfl
      rw [hval] at h
      obtain ⟨hnone, hsome⟩ := truth_distributeMixedCase hr hrows h
      cases hchosen : r.chosen m truthOf with
      | none =>
          rw [hnone hchosen]
          exact (Truth.polarised_unknown _).symm
      | some r' =>
          obtain ⟨e', d', hlowered, hleaf, htruth⟩ := hsome r' hchosen
          have hnull' : r'.isNull = false := by
            rw [← Bool.not_eq_true]
            intro hnull'
            rw [chosen_isNull hchosen hnull'] at hnull
            cases hnull
          rw [htruth]
          exact truth_comparePlain hl (stands_expr hlowered hnull') hx
            (hlowered.eval_eq halias hrows) hop hnegated hleaf

theorem isCase_eq (h : LoweredTo engine db m truthOf n env r re) : isCase re = r.isTernary := by
  cases h <;> rfl

variable [Double.Rounding] {now : Int}

theorem compare_scalars (hlform : l.WellFormed m) (hrform : r.WellFormed m) (le re : Expr) :
    compare now op (l.val le) (r.val re) = applyComparison op (l.val le) (r.val re) := by
  obtain ⟨-, hltemporal, -, hlieee⟩ := val_shape hlform le
  obtain ⟨-, hrtemporal, -, hrieee⟩ := val_shape hrform re
  have hdistribute : ∀ {o : ScalarOperand} {e : Expr} (leaf : Val → Except Failure Expr),
      distribute leaf (o.val e) = leaf (o.val e) := by
    intro o e leaf
    cases o <;> rfl
  rw [compare, hltemporal, hrtemporal, hdistribute, hltemporal]
  simp only [Bool.or_self, Bool.false_eq_true, if_false]
  rw [hdistribute, compareArms, hltemporal, hrtemporal]
  simp only [Bool.or_self, Bool.false_eq_true, if_false]
  rw [compareLeaf, hlieee, hrieee]
  rfl

/-- An equality of two operands is the one of the arms that are compared. -/
theorem truth_compare (hl : LoweredTo engine db m truthOf n env l le)
    (hr : LoweredTo engine db m truthOf n env r re) (hlform : l.WellFormed m)
    (hrform : r.WellFormed m) (halias : m.avoidsAliases n) (hrows : SameRows n env env')
    (hop : op.isOrdering = false) (hnegated : StandardInequality engine)
    (h : compare now op (l.val le) (r.val re) = .ok e) :
    e.truth engine db env' =
      (loweredTruth engine db m truthOf env l r).polarised (op = .ne) := by
  rw [compare_scalars hlform hrform] at h
  have htext : ∀ {o o' : ScalarOperand} {e e' : Expr},
      compareNumberText op (o.val e) (o'.val e') = none := by
    intro o o' e e'
    cases o <;> cases o' <;> rfl
  have hexpr : ∀ {e : Expr} {rv : Val}, compareNumberText op (.expr e) rv = none →
      applyComparison op (.expr e) rv = distributeMixedCase (fun arm =>
        if isCase arm then comparePlain op (.expr arm) rv else compareRight op (.expr arm) rv) e := by
    intro e rv h
    rw [applyComparison.eq_def, h]
  have hconstant : ∀ {c : Literal} {rv : Val}, compareNumberText op (.constant c) rv = none →
      applyComparison op (.constant c) rv = compareRight op (.constant c) rv := by
    intro c rv h
    rw [applyComparison.eq_def, h]
  cases hliteral : (l.val le).literal with
  | some v =>
      obtain ⟨v, rfl⟩ : ∃ v, l = .literal v := by
        cases l with
        | literal v => exact ⟨v, rfl⟩
        | _ => cases hliteral
      have hval : (ScalarOperand.literal v).val le = .constant v := rfl
      rw [hval, hconstant (hval ▸ htext)] at h
      have hright := truth_compareRight (stands_val hl hlform) (hl.eval_eq halias hrows) hr hrform
        halias hrows hop hnegated h
      have hchosen : (ScalarOperand.literal v).chosen m truthOf = some (.literal v) := rfl
      rw [hright, loweredTruth, compared, hchosen]
      cases r.chosen m truthOf <;> rfl
  | none =>
      have hval : l.val le = .expr le := by
        cases l with
        | literal v => cases hliteral
        | _ => rfl
      have hnull : l.isNull = false := by
        cases l with
        | literal v => cases hliteral
        | _ => rfl
      rw [hval, hexpr (hval ▸ htext)] at h
      obtain ⟨hnone, hsome⟩ := truth_distributeMixedCase hl hrows h
      rw [loweredTruth, compared]
      cases hchosen : l.chosen m truthOf with
      | none =>
          rw [hnone hchosen]
          exact (Truth.polarised_unknown _).symm
      | some l' =>
          obtain ⟨e', d', hlowered, hleaf, htruth⟩ := hsome l' hchosen
          have hnull' : l'.isNull = false := by
            rw [← Bool.not_eq_true]
            intro hnull'
            rw [chosen_isNull hchosen hnull'] at hnull
            cases hnull
          rw [isCase_eq hlowered] at hleaf
          rw [htruth, Option.bind_some]
          cases htern : l'.isTernary with
          | true =>
              rw [htern] at hleaf
              exact truth_comparePlain (stands_expr hlowered hnull') (stands_val hr hrform)
                (hlowered.eval_eq halias hrows) (hr.eval_eq halias hrows) hop hnegated hleaf
          | false =>
              rw [htern] at hleaf
              have hright := truth_compareRight (stands_expr hlowered hnull')
                (hlowered.eval_eq halias hrows) hr hrform halias hrows hop hnegated hleaf
              rw [hright]
              cases r.chosen m truthOf <;> rfl

end Compared

/-! ## Nodes that are not rewritten -/

section Nodes

variable {m : Mapper} {op l r : ScalarOperand}

theorem yieldsList_node (hform : op.WellFormed m) : yieldsList op.node = false := by
  induction op with
  | literal v => cases v <;> first | rfl | cases hform
  | reference name => rfl
  | concat left right ihl ihr =>
      show [yieldsList left.node, yieldsList right.node].any id = false
      rw [ihl hform.2.1, ihr hform.2.2]
      rfl
  | ternary cond whenTrue whenFalse iht ihf =>
      show (yieldsList whenTrue.node || yieldsList whenFalse.node) = false
      rw [iht hform.1, ihf hform.2]
      rfl

/-- No operand yields a list, so that no ternary is lifted out of one. -/
theorem unlifted_node (hform : op.WellFormed m) : Unlifted op.node := by
  induction op with
  | literal v => cases v <;> first | exact ⟨rfl, rfl, rfl⟩ | cases hform
  | reference name => exact ⟨rfl, rfl, rfl⟩
  | concat left right ihl ihr => exact (ihl hform.2.1).add (ihr hform.2.2)
  | ternary cond whenTrue whenFalse =>
      refine ⟨?_, rfl, rfl⟩
      show (if yieldsList whenTrue.node || yieldsList whenFalse.node then some _ else none) = none
      rw [yieldsList_node hform.1, yieldsList_node hform.2]
      rfl

end Nodes

end QueryPlanAdapters.Go
