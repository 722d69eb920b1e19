import QueryPlanAdapters.Go.StoredMembership

/-!
# Go: membership in a scalar

CEL has no `in` over a scalar. The lowering takes such a container for a list of one
member, puts it before a literal needle, and reads a needle that is mapped to a relation
as the list. What is left of CEL's error is the NULL of whichever operand is tested.
-/

namespace QueryPlanAdapters.Go

open Sql

/-! ## Memberships that are UNKNOWN -/

/-- The members of a literal container, which is one itself where it is no list. -/
def memberItems : Literal → List Literal
  | .array items => items
  | v => [v]

/-- When a membership in literals is UNKNOWN, by the value that is tested. -/
def MembersUnknown (engine : Engine) (kind : Option ScalarKind) (isExplicit : Bool)
    (x : SqlValue) (items : List Literal) : Prop :=
  if x.isNull then isExplicit = false ∧ items ≠ [] ∧ items.any isNullLiteral = false
  else
    (∀ v ∈ items, isComparableMember kind v = true →
      engine.compare .eq x (Val.constant v).bound ≠ .yes) ∧
        ∃ v ∈ items, isComparableMember kind v = true ∧
          engine.compare .eq x (Val.constant v).bound = .unknown

/-- When a membership in an attribute is UNKNOWN: the attribute cannot be bound as a member. -/
def AttributeUnknown (kind attributeKind : Option ScalarKind) (isExplicit : Bool)
    (x : SqlValue) : Prop :=
  if kindsDiffer kind attributeKind then x.isNull = true ∧ isExplicit = false
  else x.isNull = true → isExplicit = false

section Unknown

variable {engine : Engine} {db : Database} {env : RowEnv} {e r : Expr} {v : Val} {x : SqlValue}

theorem any_eq_unknown_iff (ts : List Truth) :
    Truth.any ts = .unknown ↔ (∀ t ∈ ts, t ≠ .yes) ∧ .unknown ∈ ts := by
  rw [Truth.any_eq_ite]
  by_cases hyes : Truth.yes ∈ ts
  · rw [if_pos hyes]
    exact iff_of_false nofun fun h => h.1 _ hyes rfl
  · have hnone : ∀ t ∈ ts, t ≠ .yes := by
      rintro t ht rfl
      exact hyes ht
    rw [if_neg hyes]
    by_cases hunknown : Truth.unknown ∈ ts
    · rw [if_pos hunknown]
      exact iff_of_true rfl ⟨hnone, hunknown⟩
    · rw [if_neg hunknown]
      exact iff_of_false nofun fun h => hunknown h.2

theorem of_asExpr (h : asExpr v = .ok e) :
    isListLiteral v = false ∧ v.scalarKind = e.scalarKind := by
  cases v with
  | expr e' =>
      obtain rfl := Except.ok.inj h
      exact ⟨rfl, rfl⟩
  | constant c =>
      cases c with
      | array items => cases h
      | object fields => cases h
      | _ =>
          obtain rfl := Except.ok.inj h
          exact ⟨rfl, by rw [Expr.scalarKind]⟩
  | time nanos =>
      obtain rfl := Except.ok.inj h
      exact ⟨rfl, by rw [Expr.scalarKind]⟩
  | _ => cases h

theorem membership_items (h : asExpr v = .ok e) (c : Literal) :
    membership v (.constant c) = .ok (loweredMembership e (memberItems c)) := by
  obtain ⟨hlist, hkind⟩ := of_asExpr h
  have hitems : membership v (.constant c) = membership v (.constant (.array (memberItems c))) := by
    cases c <;> rfl
  rw [hitems]
  exact membership_scalar h hlist hkind _

theorem truth_membership_unknown_iff (heval : e.eval engine db env = x) (items : List Literal) :
    (loweredMembership e items).truth engine db env = .unknown ↔
      MembersUnknown engine e.scalarKind (explicitNullColumn e).isSome x items := by
  rw [MembersUnknown]
  cases hx : x.isNull with
  | true =>
      obtain rfl : x = .null := by
        cases x <;> first | rfl | cases hx
      rw [if_pos rfl, truth_membership_null items heval]
      cases items.any isNullLiteral <;> cases (explicitNullColumn e).isSome <;>
        cases items <;> simp
  | false =>
      have hpresent : (e.eval engine db env).isNull = false := by
        rw [heval]
        exact hx
      rw [if_neg Bool.false_ne_true, truth_membership_present items hpresent, any_eq_unknown_iff,
        heval]
      simp only [List.mem_map, List.mem_filter, and_assoc]
      refine and_congr_left fun _ => ⟨fun h v hv hcomparable hyes => ?_, ?_⟩
      · exact h _ ⟨v, hv, hcomparable, rfl⟩ hyes
      · rintro h t ⟨v, hv, hcomparable, rfl⟩
        exact h v hv hcomparable

/-- A membership in an attribute binds the attribute as the one member, unless it is of
another known type. -/
theorem membership_attribute_unknown_iff {out : Expr} (hv : asExpr v = .ok e)
    (heval : e.eval engine db env = x) (h : membership v (.expr r) = .ok out) :
    out.truth engine db env = .unknown ↔
      AttributeUnknown e.scalarKind r.scalarKind (explicitNullColumn e).isSome x := by
  obtain ⟨hlist, hkind⟩ := of_asExpr hv
  have hforeign : isForeignMember e.scalarKind (.expr r) =
      kindsDiffer e.scalarKind r.scalarKind := by
    show (e.scalarKind.isSome && r.scalarKind.isSome && decide (r.scalarKind ≠ e.scalarKind)) = _
    cases e.scalarKind with
    | none => rfl
    | some k =>
        cases r.scalarKind with
        | none => rfl
        | some k' => simp [kindsDiffer, eq_comm]
  have hnil : isNil (.expr r) = false := rfl
  simp only [membership, hlist, hv, hkind, hnil, hforeign, Bool.false_eq_true, if_false, bind,
    Except.bind, pure, Except.pure, List.filter_cons, List.filter_nil, List.any_cons, List.any_nil,
    Bool.or_false, Bool.not_false, if_true] at h
  rw [AttributeUnknown]
  cases hdiffer : kindsDiffer e.scalarKind r.scalarKind with
  | true =>
      rw [hdiffer] at h
      rw [if_pos rfl]
      cases hexplicit : explicitNullColumn e with
      | none =>
          simp [membershipArms, hexplicit] at h
          obtain rfl := h
          rw [Expr.truth_case_singleton, Expr.truth_isNull, heval]
          cases x.isNull <;> simp
      | some col =>
          simp [membershipArms, hexplicit] at h
          obtain rfl := h
          simp
  | false =>
      rw [hdiffer] at h
      rw [if_neg Bool.false_ne_true]
      have hin : (Expr.inList e [.lit (.expr r)]).truth engine db env = .unknown := by
        rw [Expr.truth_inList]
        exact congrArg Truth.any (congrArg (fun t => [t]) (Engine.compare_null_right _))
      cases hexplicit : explicitNullColumn e with
      | none =>
          simp [membershipArms, hexplicit] at h
          obtain rfl := h
          rw [Expr.truth_combine]
          simp [hin]
      | some col =>
          simp [membershipArms, hexplicit] at h
          obtain rfl := h
          have hcol : (Expr.column col).eval engine db env = x := by
            rw [← eq_column_of_explicit hexplicit]
            exact heval
          rw [Expr.truth_combine]
          simp only [Bool.false_eq_true, if_false, List.map_cons, List.map_nil, Truth.any_cons,
            Truth.any_nil, Truth.or_no, Expr.truth_combine, if_true, Truth.all_cons, Truth.all_nil,
            Truth.and_yes, hin, Expr.truth_isNull, hcol]
          cases x.isNull <;> simp

end Unknown

/-! ## Needles -/

/-- A needle: a literal, a reference that is mapped to a relation, any other operand with
what its value is lowered to, or one that a ternary of lists is lifted out of. -/
inductive Needle where
  | literal (v : Literal)
  | collection (reference : String)
  | operand (node : Node) (kind : Option ScalarKind) (isExplicit : Bool) (x : SqlValue)
  | ternary (node cond : Node) (whenTrue whenFalse : Needle)

def ScalarOperand.isLeaf : ScalarOperand → Bool
  | .literal _ | .reference _ => true
  | _ => false

namespace Needle

def node : Needle → Node
  | literal v => .value v
  | collection reference => .var reference
  | operand node _ _ _ | ternary node _ _ _ => node

section Lowering

variable [Double.Rounding] (engine : Engine) (db : Database) (m : Mapper)
  (truthOf : Node → Truth) (n : Nat) (env : RowEnv) (opts : Options) (now : Int)

/-- An operand is lowered to an expression of a kind, which has a value on the row. -/
def Lowers (node : Node) (kind : Option ScalarKind) (isExplicit : Bool) (x : SqlValue) : Prop :=
  ∀ fuel s, n ≤ s → Yields ((builder opts now fuel).value node m) s fun v s' =>
    s ≤ s' ∧ ∀ e, asExpr v = .ok e →
      e.eval engine db env = x ∧ e.scalarKind = kind ∧ (explicitNullColumn e).isSome = isExplicit

def WellFormed : Needle → Prop
  | literal _ => True
  | collection reference => (relationFor m (.var reference)).isSome = true
  | operand node kind isExplicit x =>
      node.isValue = false ∧ relationFor m node = none ∧ listTernary (liftedOperand node) = none ∧
        Lowers engine db m n env opts now node kind isExplicit x
  | ternary node cond whenTrue whenFalse =>
      listTernary (liftedOperand node) = some (cond, whenTrue.node, whenFalse.node) ∧
        LowersCondition engine db m truthOf n env opts now cond ∧
          whenTrue.WellFormed ∧ whenFalse.WellFormed

end Lowering

/-- When the membership of an operand in a literal or in an attribute is UNKNOWN. -/
def OperandUnknown (engine : Engine) (m : Mapper) (container : ScalarOperand)
    (kind : Option ScalarKind) (isExplicit : Bool) (x : SqlValue) : Prop :=
  match container with
  | .literal w => MembersUnknown engine kind isExplicit x [w]
  | container => AttributeUnknown kind (container.kind m) isExplicit x

/-- When a membership in a scalar is NULL, as CEL's error is. A relation is read as the
list: the guard tests the container, a hop is missing, or an element's comparison with the
container is UNKNOWN and none is TRUE. -/
def ErrorKept (engine : Engine) (db : Database) (opts : Options) (m : Mapper)
    (truthOf : Node → Truth) (env : RowEnv) (container : ScalarOperand) : Needle → Prop
  | literal v =>
      match container with
      | .literal w =>
          OperandUnknown engine m (.literal w) (Val.constant v).scalarKind false
            (Val.constant v).bound
      | container =>
          MembersUnknown engine (container.kind m) (container.isExplicit m)
            (container.stored engine db m truthOf env) (memberItems v)
  | collection reference => ∀ rel parent field, relationFor m (.var reference) = some (rel, parent) →
      rel.field = some field →
        (needleGuarded opts m container = true ∧
            (container.stored engine db m truthOf env).isNull = true) ∨
          hopMissing engine db rel (env parent) = true ∨
            (∀ element ∈ reached engine db rel (env parent),
              elementCompared engine db opts m truthOf env container field
                (element field.column) ≠ .yes) ∧
              ∃ element ∈ reached engine db rel (env parent),
                elementCompared engine db opts m truthOf env container field
                  (element field.column) = .unknown
  | operand _ kind isExplicit x => OperandUnknown engine m container kind isExplicit x
  | ternary _ cond whenTrue whenFalse =>
      match truthOf cond with
      | .yes => whenTrue.ErrorKept engine db opts m truthOf env container
      | .no => whenFalse.ErrorKept engine db opts m truthOf env container
      | .unknown => True

end Needle

theorem storedMembershipTruth_unknown_iff {engine : Engine} {db : Database} {opts : Options}
    {m : Mapper} {truthOf : Node → Truth} {env : RowEnv} {needle : ScalarOperand} {rel : Relation}
    {field : Entry} {parent : Row} :
    storedMembershipTruth engine db opts m truthOf env needle rel field parent = .unknown ↔
      (needleGuarded opts m needle = true ∧
          (needle.stored engine db m truthOf env).isNull = true) ∨
        hopMissing engine db rel parent = true ∨
          (∀ element ∈ reached engine db rel parent,
            elementCompared engine db opts m truthOf env needle field
              (element field.column) ≠ .yes) ∧
            ∃ element ∈ reached engine db rel parent,
              elementCompared engine db opts m truthOf env needle field
                (element field.column) = .unknown := by
  rw [storedMembershipTruth, ← Bool.and_eq_true]
  split
  next hguard => exact iff_of_true rfl (.inl hguard)
  next hguard =>
    split
    next hhop => exact iff_of_true rfl (.inr (.inl hhop))
    next hhop =>
      rw [any_eq_unknown_iff, List.forall_mem_map, List.mem_map]
      exact ((or_iff_right hguard).trans (or_iff_right hhop)).symm

/-! ## The translation -/

section Translation

variable [Double.Rounding] {engine : Engine} {db : Database} {m : Mapper} {truthOf : Node → Truth}
  {n : Nat} {env : RowEnv} {opts : Options} {now : Int} {container : ScalarOperand}
  {needle : Needle}

variable {b : Builder} {s : Nat}

omit [Double.Rounding] in
theorem liftOperands_leaf (hleaf : container.isLeaf = true) (node : Node) :
    liftOperands [node, container.node] =
      (listTernary (liftedOperand node)).map fun (cond, whenTrue, whenFalse) =>
        (cond, [whenTrue, container.node], [whenFalse, container.node]) := by
  have hcontainer : liftOperands [container.node] = none := by
    cases container with
    | literal v => rfl
    | reference name => rfl
    | _ => cases hleaf
  rw [liftOperands_cons, hcontainer]
  cases listTernary (liftedOperand node) <;> rfl

theorem binaryPredicate_in (hleaf : container.isLeaf = true) (node : Node) (negated : Bool) :
    b.binaryPredicate .in [node, container.node] m negated =
      match listTernary (liftedOperand node) with
      | some (cond, whenTrue, whenFalse) =>
          b.ternaryPredicate [cond, .expression .in [whenTrue, container.node],
            .expression .in [whenFalse, container.node]] m negated
      | none => b.membershipPredicate node container.node m negated := by
  have hempty : emptyListComparison .in node container.node = none := by
    simp [emptyListComparison]
  have hlift : liftListTernary (.expression .in [node, container.node]) =
      (listTernary (liftedOperand node)).map fun (cond, whenTrue, whenFalse) =>
        .expression .if [cond, .expression .in [whenTrue, container.node],
          .expression .in [whenFalse, container.node]] := by
    rw [liftListTernary, liftOperands_leaf hleaf, Option.map_map]
    rfl
  cases hternary : listTernary (liftedOperand node) with
  | none =>
      rw [hternary, Option.map_none] at hlift
      simp only [Builder.binaryPredicate, hlift, hempty, comparisonOps]
  | some parts =>
      rw [hternary, Option.map_some] at hlift
      simp only [Builder.binaryPredicate, hlift]
      rfl

theorem membershipPredicate_scalar (hleaf : container.isLeaf = true)
    (hscalar : relationFor m container.node = none) (node : Node)
    (negated : Bool) :
    b.membershipPredicate node container.node m negated =
      match relationFor m node with
      | some (rel, parent) => b.membershipOverRelation container.node rel parent m negated
      | none =>
          if node.isValue && container.node.isVariable then
            b.membershipInValue container.node node m negated
          else b.membershipInValue node container.node m negated := by
  have hparts : concatenatedHaystack m container.node = none := by
    cases container with
    | literal v => rfl
    | reference name => rfl
    | _ => cases hleaf
  rw [Builder.membershipPredicate, hparts, hscalar]
  cases relationFor m node <;> rfl

/-- A membership of two values that are resolved. -/
theorem yields_membershipInValue {left right : Node} {negated : Bool}
    {Q : Expr → Nat → Prop} {P : Val → Nat → Prop}
    (hl : Yields (b.value left m) s P)
    (hr : ∀ l s', P l s' → Yields (b.value right m) s' fun r s'' =>
      ((∃ c, r = .constant c) ∨ ∃ e, r = .expr e) ∧
        ∀ out, membership l r = .ok out → Q (negate out negated) s'') :
    Yields (b.membershipInValue left right m negated) s Q := by
  rw [Builder.membershipInValue]
  refine hl.bind fun l s₁ hP => ?_
  refine (hr l s₁ hP).bind fun r s₂ h => ?_
  obtain ⟨hshape, hQ⟩ := h
  have hmembership : Yields (do
      let out ← (liftM (membership l r) : Translation Expr)
      return negate out negated) s₂ Q := by
    refine (Yields.lift (P := fun out => membership l r = .ok out) fun out h => h).bind
      fun out s₃ h => ?_
    obtain ⟨hout, rfl⟩ := h
    exact Yields.pure (hQ out hout)
  obtain ⟨c, rfl⟩ | ⟨e, rfl⟩ := hshape
  · exact hmembership
  · exact hmembership

/-- The membership of an operand that is no list ternary and no relation. -/
theorem yields_membershipInValue_scalar {node : Node} {kind : Option ScalarKind}
    {isExplicit : Bool} {x : SqlValue} (hform : container.WellFormed m)
    (hleaf : container.isLeaf = true) (halias : m.avoidsAliases n)
    (hlowers : Needle.Lowers engine db m n env opts now node kind isExplicit x)
    (fuel : Nat) (hs : n ≤ s) (negated : Bool) :
    Yields ((builder opts now fuel).membershipInValue node container.node m negated) s
      fun e s' => s ≤ s' ∧ (e.truth engine db env = .unknown ↔
        Needle.OperandUnknown engine m container kind isExplicit x) := by
  refine yields_membershipInValue (hlowers fuel s hs) fun l s₁ hl => ?_
  obtain ⟨hle, hvalue⟩ := hl
  have hexpr : ∀ {r : Val} {out : Expr}, membership l r = .ok out → ∃ e, asExpr l = .ok e := by
    intro r out h
    unfold membership at h
    split at h
    · cases h
    · obtain ⟨e, he, -⟩ := Except.bind_eq_ok_iff.mp h
      exact ⟨e, he⟩
  cases container with
  | literal w =>
      refine (yields_value_literal w).imp fun r s₂ h => ?_
      obtain ⟨rfl, rfl⟩ := h
      refine ⟨.inl ⟨w, rfl⟩, fun out hout => ⟨hle, ?_⟩⟩
      obtain ⟨e, he⟩ := hexpr hout
      obtain ⟨heval, rfl, rfl⟩ := hvalue e he
      rw [membership_items he] at hout
      obtain rfl := Except.ok.inj hout
      have hitems : memberItems w = [w] := by
        cases w <;> first | rfl | cases hform
      rw [truth_negate, Truth.polarised_eq_unknown_iff, truth_membership_unknown_iff heval, hitems]
      exact Iff.rfl
  | reference name =>
      refine (@yields_reference _ engine db m (fun _ => .unknown) n env opts now halias name fuel s₁
        (hs.trans hle)).imp fun r s₂ h => ?_
      obtain ⟨hle', er, hr, rfl⟩ := h
      refine ⟨.inr ⟨er, rfl⟩, fun out hout => ⟨hle.trans hle', ?_⟩⟩
      obtain ⟨e, he⟩ := hexpr hout
      obtain ⟨heval, rfl, rfl⟩ := hvalue e he
      rw [truth_negate, Truth.polarised_eq_unknown_iff,
        membership_attribute_unknown_iff he heval hout, hr.scalarKind]
      exact Iff.rfl
  | _ => cases hleaf

/-- A literal is lowered to itself. -/
theorem lowers_literal (v : Literal) :
    Needle.Lowers engine db m n env opts now (.value v) (Val.constant v).scalarKind false
      (Val.constant v).bound := by
  intro fuel s hs
  refine (yields_value_literal v).imp fun lowered s' h => ?_
  obtain ⟨rfl, rfl⟩ := h
  refine ⟨le_rfl, fun e he => ?_⟩
  obtain ⟨-, hkind⟩ := of_asExpr he
  cases v with
  | array items => cases he
  | object fields => cases he
  | _ =>
      obtain rfl := Except.ok.inj he
      exact ⟨rfl, hkind.symm, rfl⟩

/-- A literal needle stands behind an attribute. -/
theorem yields_membershipInValue_literal (hform : container.WellFormed m)
    (hleaf : container.isLeaf = true) (halias : m.avoidsAliases n) (v : Literal) (fuel : Nat) (hs : n ≤ s) (negated : Bool) :
    Yields
      (if (Operand.value v).isValue && container.node.isVariable then
        (builder opts now fuel).membershipInValue container.node (.value v) m negated
      else (builder opts now fuel).membershipInValue (.value v) container.node m negated) s
      fun e s' => s ≤ s' ∧ (e.truth engine db env = .unknown ↔
        (Needle.literal v).ErrorKept engine db opts m truthOf env container) := by
  cases container with
  | literal w =>
      exact yields_membershipInValue_scalar hform hleaf halias (lowers_literal v) fuel hs negated
  | reference name =>
      have hvalue := @yields_reference _ engine db m truthOf n env opts now halias name fuel s hs
      refine yields_membershipInValue hvalue fun l s₁ hl => ?_
      obtain ⟨hle, e, he, rfl⟩ := hl
      refine (yields_value_literal v).imp fun r s₂ h => ?_
      obtain ⟨rfl, rfl⟩ := h
      refine ⟨.inl ⟨v, rfl⟩, fun out hout => ⟨hle, ?_⟩⟩
      rw [membership_items rfl] at hout
      obtain rfl := Except.ok.inj hout
      rw [truth_negate, Truth.polarised_eq_unknown_iff,
        truth_membership_unknown_iff (he.eval_eq halias (SameRows.refl n env)), he.scalarKind,
        he.explicit]
      exact Iff.rfl
  | _ => cases hleaf

theorem yields_scalarContainer (hnegated : StandardInequality engine) (halias : m.avoidsAliases n)
    (hform : container.WellFormed m) (hleaf : container.isLeaf = true)
    (hscalar : relationFor m container.node = none)
    (hneedle : needle.WellFormed engine db m truthOf n env opts now) (fuel : Nat)
    (hs : n ≤ s) (negated : Bool) :
    Yields ((builder opts now fuel).predicate (.expression .in [needle.node, container.node]) m
        negated) s
      fun e s' => s ≤ s' ∧ (e.truth engine db env = .unknown ↔
        needle.ErrorKept engine db opts m truthOf env container) := by
  induction needle generalizing fuel s with
  | literal v =>
      refine yields_of_step (fun fuel => ?_) fuel
      show Yields ((builder opts now fuel).binaryPredicate .in [.value v, container.node] m negated)
        s _
      rw [binaryPredicate_in hleaf]
      show Yields ((builder opts now fuel).membershipPredicate (.value v) container.node m negated)
        s _
      rw [membershipPredicate_scalar hleaf hscalar]
      exact yields_membershipInValue_literal hform hleaf halias v fuel hs negated
  | collection reference =>
      refine yields_of_step (fun fuel => ?_) fuel
      show Yields ((builder opts now fuel).binaryPredicate .in [.var reference, container.node] m
        negated) s _
      rw [binaryPredicate_in hleaf]
      show Yields ((builder opts now fuel).membershipPredicate (.var reference) container.node m
        negated) s _
      rw [membershipPredicate_scalar hleaf hscalar]
      obtain ⟨⟨rel, parent⟩, hrel⟩ := Option.isSome_iff_exists.mp hneedle
      rw [hrel]
      cases hfield : rel.field with
      | none =>
          show Yields ((builder opts now fuel).membershipOverRelation container.node rel parent m
            negated) s _
          rw [Builder.membershipOverRelation, hfield]
          exact yields_errorf _ _
      | some field =>
          have hparent : ∀ k, n < k → parent ≠ aliasOf k := by
            obtain ⟨entry, hentry, hparts⟩ := Option.bind_eq_some_iff.mp hrel
            obtain ⟨rel', -, heq⟩ := Option.map_eq_some_iff.mp hparts
            obtain ⟨-, rfl⟩ := Prod.mk.inj heq
            exact fun k hk => halias reference entry hentry k hk
          have hconds : ∀ cond ∈ container.conditions,
              LowersCondition engine db m truthOf n env opts now cond := by
            cases container with
            | literal v => rintro _ ⟨⟩
            | reference name => rintro _ ⟨⟩
            | _ => cases hleaf
          refine (yields_membershipOverRelation_truth hnegated halias hparent hfield hform hconds
            fuel hs negated).imp fun e s' h => ?_
          refine ⟨h.1, ?_⟩
          rw [h.2, Truth.polarised_eq_unknown_iff, storedMembershipTruth_unknown_iff]
          constructor
          · intro hkept rel' parent' field' hrel' hfield'
            obtain ⟨rfl, rfl⟩ := Prod.mk.inj (Option.some.inj (hrel.symm.trans hrel'))
            obtain rfl := Option.some.inj (hfield.symm.trans hfield')
            exact hkept
          · intro hkept
            exact hkept rel parent field hrel hfield
  | operand node kind isExplicit x =>
      obtain ⟨hvalue, hrelation, hternary, hlowers⟩ := hneedle
      refine yields_of_step (fun fuel => ?_) fuel
      show Yields ((builder opts now fuel).binaryPredicate .in [node, container.node] m negated) s _
      rw [binaryPredicate_in hleaf, hternary]
      show Yields ((builder opts now fuel).membershipPredicate node container.node m negated) s _
      rw [membershipPredicate_scalar hleaf hscalar, hrelation, hvalue]
      exact yields_membershipInValue_scalar hform hleaf halias hlowers fuel hs negated
  | ternary node cond whenTrue whenFalse iht ihf =>
      obtain ⟨hternary, hcond, htrue, hfalse⟩ := hneedle
      refine yields_of_step (fun fuel => ?_) fuel
      show Yields ((builder opts now fuel).binaryPredicate .in [node, container.node] m negated) s _
      rw [binaryPredicate_in hleaf, hternary]
      show Yields ((builder opts now fuel).ternaryPredicate [cond,
        .expression .in [whenTrue.node, container.node],
        .expression .in [whenFalse.node, container.node]] m negated) s _
      rw [Builder.ternaryPredicate]
      refine (hcond fuel s hs).bind fun c s₁ hc => ?_
      obtain ⟨hle, hc⟩ := hc
      refine (iht htrue fuel (hs.trans hle)).bind fun t s₂ ht => ?_
      obtain ⟨hle', ht⟩ := ht
      refine (ihf hfalse fuel (hs.trans (hle.trans hle'))).bind fun f s₃ hf => ?_
      obtain ⟨hle'', hf⟩ := hf
      refine Yields.pure ⟨by omega, ?_⟩
      rw [truth_guardedCase, hc env (SameRows.refl n env), Needle.ErrorKept]
      cases truthOf cond with
      | yes => exact ht
      | no => exact hf
      | unknown => exact iff_of_true rfl trivial

end Translation

/-- Membership in a scalar is CEL's error, whatever the needle is. -/
theorem memberOutcome_scalar {engine : Engine} {db : Database} {m : Mapper}
    {truthOf : Node → Truth} {env : RowEnv} {sending : Sending} {container : ScalarOperand}
    (hform : container.WellFormed m) (hleaf : container.isLeaf = true) (o : Outcome) :
    memberOutcome o (container.outcome engine db m truthOf env sending) = .error := by
  have hscalar : ∀ p : Outcome, (∀ items, p ≠ .value (.array items)) → memberOutcome o p = .error := by
    intro p h
    cases o with
    | error => rfl
    | value v =>
        cases p with
        | error => rfl
        | value w => cases w <;> first | rfl | exact absurd rfl (h _)
  apply hscalar
  intro items
  cases container with
  | literal v =>
      intro h
      cases v with
      | array items => cases hform
      | object fields => cases hform
      | _ => cases h
  | reference name =>
      rw [ScalarOperand.outcome]
      cases ScalarOperand.readingOf m env name with
      | none => rintro ⟨⟩
      | some reading =>
          rw [Option.elim_some, Sending.read]
          cases Sending.stored engine db reading with
          | none => rintro ⟨⟩
          | some x =>
              rw [Option.elim_some, Sending.outcome]
              split
              · rintro ⟨⟩
              · cases x <;> rintro ⟨⟩
  | _ => cases hleaf

/-- A membership in a scalar, which CEL has no overload for, is NULL exactly where the
operand that the lowering tests is NULL or is not told from the other. -/
theorem scalarContainer_agrees_iff [Double.Rounding] {engine : Engine} {db : Database} {m : Mapper}
    {truthOf : Node → Truth} {n : Nat} {env : RowEnv} {opts : Options} {now : Int}
    {container : ScalarOperand} {needle : Needle} {negated : Bool} {fuel s s' : Nat} {e : Expr}
    {sending : Sending} (hnegated : StandardInequality engine) (halias : m.avoidsAliases n)
    (hs : n ≤ s) (hform : container.WellFormed m) (hleaf : container.isLeaf = true)
    (hscalar : relationFor m container.node = none)
    (hneedle : needle.WellFormed engine db m truthOf n env opts now)
    (hrun : (builder opts now fuel).predicate (.expression .in [needle.node, container.node]) m
      negated s = .ok (e, s')) (o : Outcome) :
    e.truth engine db env =
        (memberOutcome o (container.outcome engine db m truthOf env sending)).asBoolean.polarised
          negated ↔
      needle.ErrorKept engine db opts m truthOf env container := by
  have herror : (Outcome.error).asBoolean.polarised negated = .unknown := Truth.polarised_unknown _
  rw [memberOutcome_scalar hform hleaf, herror]
  exact ((yields_scalarContainer hnegated halias hform hleaf hscalar hneedle fuel hs
    negated).of_run hrun).2

/-! A text that is taken for a list of one text. -/

def textMembership : Node :=
  .expression .in [.value (.string "draft"), .var "R.attr.status"]

/-- The membership selects a row, on which CEL has an error. -/
theorem textMembership_selected :
    ∃ e, build 4 0 textMembership statusMapper tagsOptions = .ok e ∧
      e.truth .bare (fun _ => []) (statusRow (.text "draft")) = .yes ∧
        (memberOutcome (.value (.string "draft")) (statusOutcome (.text "draft"))).asBoolean =
          .unknown :=
  ⟨_, rfl, by decide, rfl⟩

theorem scalarContainer_agrees_iff_status : ∃ e s,
    (builder tagsOptions 0 4).predicate textMembership
        (rootMapper (guardedMapper statusMapper) "documents") true 0 = .ok (e, s) ∧
      (e.truth .bare (fun _ => []) (statusRow .null) =
          (memberOutcome (.value (.string "draft"))
            ((ScalarOperand.reference "R.attr.status").outcome .bare (fun _ => [])
              (rootMapper (guardedMapper statusMapper) "documents") (fun _ => .unknown)
              (statusRow .null) ⟨.explicit, fun _ => ""⟩)).asBoolean.polarised true ↔
        (Needle.literal (.string "draft")).ErrorKept .bare (fun _ => []) tagsOptions
          (rootMapper (guardedMapper statusMapper) "documents") (fun _ => .unknown)
          (statusRow .null) (.reference "R.attr.status")) :=
  ⟨_, _, rfl, @scalarContainer_agrees_iff _ .bare (fun _ => [])
    (rootMapper (guardedMapper statusMapper) "documents") (fun _ => .unknown) 0 (statusRow .null)
    tagsOptions 0 (.reference "R.attr.status") (.literal (.string "draft")) true 4 0 _ _
    ⟨.explicit, fun _ => ""⟩ (fun _ _ => rfl) (avoidsAliases_rootMapper (by decide) 0) le_rfl trivial
    rfl rfl trivial rfl _⟩

end QueryPlanAdapters.Go
