import QueryPlanAdapters.Prisma.Operands
import QueryPlanAdapters.Logic.Contract

/-!
# Prisma: computed operands of an explicit null

CEL has no overload of a function or an operator for null, so a comparison whose operand
computes on a NULL column is an error. The filter has to be UNKNOWN there, even where the
mapper declares that the column's NULL is the value null and an equality with the bare
column is decided.
-/

namespace QueryPlanAdapters.Prisma

open Sql AsciiCase

/-! ## Computed operands -/

/-- What an operand reads a column through. -/
inductive ColumnWrapper where
  | timestamp | string | double
  deriving DecidableEq

def ColumnWrapper.operator : ColumnWrapper → PlanOperator
  | timestamp => .timestamp
  | string => .string
  | double => .double

/-- A column, or a call on it. -/
def readNode (wrapper : Option ColumnWrapper) (name : String) : Node :=
  wrapper.elim (.var name) fun wrapper => .expression wrapper.operator [.var name]

/-- An operand that computes on a column. -/
inductive ComputedOperand where
  | wrapped (wrapper : ColumnWrapper)
  | arithmetic (operator : PlanOperator) (columnIsLeft : Bool) (wrapper : Option ColumnWrapper)
      (constant : Node)
  | upperAscii
  | size
  | lookup (fields : List Node)

def ComputedOperand.node (name : String) : ComputedOperand → Node
  | wrapped wrapper => readNode (some wrapper) name
  | arithmetic operator true wrapper constant =>
      .expression operator [readNode wrapper name, constant]
  | arithmetic operator false wrapper constant =>
      .expression operator [constant, readNode wrapper name]
  | upperAscii => .expression .upperAscii [.var name]
  | size => .expression .size [.var name]
  | lookup fields => .expression .index [.expression .struct fields, .var name]

/-- A constant: a value, a timestamp literal, or arithmetic over constants. -/
inductive IsConstant : Node → Prop where
  | value (v : Literal) : IsConstant (.value v)
  | timestamp (text : String) : IsConstant (.expression .timestamp [.value (.string text)])
  | arithmetic {operator : PlanOperator} {first second : Node}
      (h : isArithmetic operator = true) (hfirst : IsConstant first) (hsecond : IsConstant second) :
      IsConstant (.expression operator [first, second])

/-- Arithmetic has a constant beside its column. -/
def ComputedOperand.IsSolvable : ComputedOperand → Prop
  | arithmetic operator _ _ constant => isArithmetic operator = true ∧ IsConstant constant
  | _ => True

/-- `==` or `!=`, in either order, of an operand that computes on a column with a constant. -/
structure ComputedComparison where
  isEqual : Bool
  computedFirst : Bool
  operand : ComputedOperand
  name : String
  other : Node

namespace ComputedComparison

def operator (c : ComputedComparison) : ComparisonOperator :=
  if c.isEqual then .eq else .ne

def operands (c : ComputedComparison) : List Node :=
  if c.computedFirst then [c.operand.node c.name, c.other] else [c.other, c.operand.node c.name]

def node (c : ComputedComparison) : Node :=
  .expression (comparisonNode c.operator) c.operands

end ComputedComparison

/-- What a constant is folded to. -/
def constantValue (evaluation : ConstantEvaluation) : Node → Option Literal
  | .value v => some v
  | .expression .timestamp [.value (.string text)] =>
      (normalizeRfc3339Milliseconds text).toOption.map .string
  | .expression operator [first, second] => do
      let first ← constantValue evaluation first
      let second ← constantValue evaluation second
      (evaluation.arithmetic operator first second).toOption
  | _ => none
termination_by structural node => node

/-- The operator of an expression, `and` standing in for none. -/
def operatorOf : Node → PlanOperator
  | .expression operator _ => operator
  | _ => .and

/-- A timestamp literal between two milliseconds. -/
def isSubMillisecond : Node → Bool
  | .expression .timestamp [.value (.string text)] =>
      (parseRfc3339Instant text).toOption.any (·.subMillisecond)
  | _ => false

/-- The filter does not make the column's NULL a value to compare with. -/
def ComputedComparison.KeepsError (evaluation : ConstantEvaluation) (negated : Bool)
    (c : ComputedComparison) : Prop :=
  match c.operand with
  | .wrapped .timestamp => isSubMillisecond c.other = true
  | .arithmetic _ columnIsLeft none constant
  | .arithmetic _ columnIsLeft (some .timestamp) constant =>
      ∀ text value, constantValue evaluation constant = some (.string text) →
        constantValue evaluation c.other = some (.string value) →
          (if columnIsLeft then endsWithText value text else startsWithText value text) = false
  | .upperAscii =>
      ∀ text, c.other = .value (.string text) → ∀ d ∈ text.toList, isFolded false d = false
  | .lookup fields =>
      ∀ map v, literalFields [] fields = some map → c.other = .value v →
        ∃ field ∈ map, areValuesEqual field.2 v = (c.isEqual != negated)
  | .wrapped _ | .arithmetic _ _ _ _ | .size => True

/-! ## Runs -/

namespace Translation

variable {α β : Type}

/-- Whatever the translation returns satisfies the postcondition. -/
def Returns (x : Translation α) (Q : α → Prop) : Prop :=
  ∀ scopes, Yields x scopes fun a _ => Q a

variable {x : Translation α} {Q R : α → Prop}

theorem Returns.imp (h : Returns x Q) (hQ : ∀ a, Q a → R a) : Returns x R :=
  fun scopes => (h scopes).imp fun a _ => hQ a

theorem Returns.pure {a : α} (h : Q a) : Returns (Pure.pure a) Q :=
  fun _ => Yields.pure h

theorem Returns.throw (e : Refusal) : Returns (MonadExcept.throw e) Q :=
  fun _ => Yields.throw e

theorem Returns.trivial (x : Translation α) : Returns x fun _ => True :=
  fun scopes => Yields.trivial x scopes

theorem Returns.bind {f : α → Translation β} {P : β → Prop} (hx : Returns x Q)
    (hf : ∀ a, Q a → Returns (f a) P) : Returns (x >>= f) P :=
  fun scopes => (hx scopes).bind fun a scopes' ha => hf a ha scopes'

theorem Returns.lift {x : Except Refusal α} (h : x.Returns Q) :
    Returns (liftM x : Translation α) Q :=
  fun _ => (Yields.lift h).imp fun _ _ h => h.1

theorem Returns.reading {x : Reading α} (h : Q x.result) : Returns (Prisma.reading x) Q := by
  intro scopes run hrun
  exact (reading_result hrun) ▸ h

/-- The translation is refused. -/
theorem Returns.elim (h : Returns x fun _ => False) : Returns x Q :=
  h.imp fun _ h => h.elim

end Translation

/-! ## Undecided filters -/

section Filters

variable {ρ : Type} (engine : Engine) (store : Store ρ) (r : ρ)

/-- The filter is UNKNOWN on the record under a condition, and only then. -/
def Undecided (condition : Prop) (filter : PrismaFilter) : Prop :=
  filter.isEmpty = false ∧ (filter.truth engine store r = .unknown ↔ condition)

/-- The same of each clause of a filter. -/
def ClausesUndecided (condition : Prop) (filter : PrismaFilter) : Prop :=
  boundClauses filter ≠ [] ∧ ∀ clause ∈ boundClauses filter, Undecided engine store r condition clause

variable {engine store r} {condition : Prop} {filter : PrismaFilter} {filters : List PrismaFilter}

theorem Undecided.congr {condition' : Prop} (h : Undecided engine store r condition filter)
    (hiff : condition ↔ condition') : Undecided engine store r condition' filter :=
  ⟨h.1, h.2.trans hiff⟩

theorem Undecided.not (h : Undecided engine store r condition filter) :
    Undecided engine store r condition (.NOT filter) := by
  refine ⟨rfl, ?_⟩
  rw [PrismaFilter.truth_NOT h.1, Truth.not_eq_unknown_iff]
  exact h.2

theorem eq_unknown_of_undecided (hcondition : condition)
    (h : ∀ filter ∈ filters, Undecided engine store r condition filter) {t : Truth}
    (ht : t ∈ filters.map (·.truth engine store r)) : t = .unknown := by
  obtain ⟨filter, hfilter, rfl⟩ := List.mem_map.mp ht
  exact (h filter hfilter).2.mpr hcondition

theorem unknown_mem_iff (hne : filters ≠ [])
    (h : ∀ filter ∈ filters, Undecided engine store r condition filter) :
    Truth.unknown ∈ filters.map (·.truth engine store r) ↔ condition := by
  constructor
  · intro hunknown
    obtain ⟨filter, hfilter, htruth⟩ := List.mem_map.mp hunknown
    exact (h filter hfilter).2.mp htruth
  · intro hcondition
    obtain ⟨filter, hfilter⟩ := List.exists_mem_of_ne_nil filters hne
    exact List.mem_map.mpr ⟨filter, hfilter, (h filter hfilter).2.mpr hcondition⟩

/-- A conjunction of filters that are undecided together. -/
theorem Undecided.and (hne : filters ≠ [])
    (h : ∀ filter ∈ filters, Undecided engine store r condition filter) :
    Undecided engine store r condition (.AND filters) := by
  refine ⟨rfl, ?_⟩
  rw [PrismaFilter.truth_AND, Truth.all_eq_ite]
  constructor
  · intro hunknown
    split at hunknown
    · cases hunknown
    · split at hunknown
      next hmem => exact (unknown_mem_iff hne h).mp hmem
      next => cases hunknown
  · intro hcondition
    rw [if_neg fun hno => Truth.noConfusion (eq_unknown_of_undecided hcondition h hno)]
    rw [if_pos ((unknown_mem_iff hne h).mpr hcondition)]

theorem Undecided.or (hne : filters ≠ [])
    (h : ∀ filter ∈ filters, Undecided engine store r condition filter) :
    Undecided engine store r condition (.OR filters) := by
  refine ⟨rfl, ?_⟩
  rw [PrismaFilter.truth_OR, Truth.any_eq_ite]
  constructor
  · intro hunknown
    split at hunknown
    · cases hunknown
    · split at hunknown
      next hmem => exact (unknown_mem_iff hne h).mp hmem
      next => cases hunknown
  · intro hcondition
    rw [if_neg fun hyes => Truth.noConfusion (eq_unknown_of_undecided hcondition h hyes)]
    rw [if_pos ((unknown_mem_iff hne h).mpr hcondition)]

theorem undecided_pair {first second : PrismaFilter}
    (hfirst : Undecided engine store r condition first)
    (hsecond : Undecided engine store r condition second) :
    ∀ filter ∈ [first, second], Undecided engine store r condition filter := by
  simp only [List.forall_mem_cons]
  exact ⟨hfirst, hsecond, fun _ => (absurd · List.not_mem_nil)⟩

theorem ClausesUndecided.undecided (h : ClausesUndecided engine store r condition filter) :
    Undecided engine store r condition filter := by
  cases filter with
  | AND filters => exact Undecided.and h.1 h.2
  | _ => exact h.2 _ List.mem_cons_self

theorem Undecided.clauses (h : Undecided engine store r condition filter)
    (hsingle : boundClauses filter = [filter]) : ClausesUndecided engine store r condition filter := by
  rw [ClausesUndecided, hsingle]
  refine ⟨List.cons_ne_nil _ _, fun clause hclause => ?_⟩
  obtain rfl := List.mem_singleton.mp hclause
  exact h

/-- Whatever reaches through a relation is TRUE or FALSE. -/
theorem truth_ne_unknown_of_relations {relations : List RelationConfig} (h : relations ≠ []) :
    (wrapInRelations relations filter).truth engine store r ≠ .unknown := by
  rw [truth_wrapInRelations h]
  exact Truth.ofBool_ne_unknown _

theorem truth_relationFilter_ne_unknown (relation : RelationConfig) (operator : RelationOperator)
    (inner : PrismaFilter) :
    (relationFilter relation operator inner).truth engine store r ≠ .unknown := by
  have hrelation : ∀ op f, (PrismaFilter.relation relation.name op f).truth engine store r ≠
      .unknown := by
    intro op f
    cases op <;> exact Truth.ofBool_ne_unknown _
  rw [relationFilter]
  cases relation.subqueryFilter with
  | none => exact hrelation _ _
  | some declared =>
      simp only
      split
      · split <;> exact hrelation _ _
      · exact hrelation _ _

/-- A leaf that is UNKNOWN on a record is so as long as no relation leads to it. -/
theorem clausesUndecided_wrapInRelations {relations : List RelationConfig}
    (hempty : filter.isEmpty = false)
    (h : relations = [] → ClausesUndecided engine store r True filter) :
    ClausesUndecided engine store r (relations = []) (wrapInRelations relations filter) := by
  cases relations with
  | nil =>
      obtain ⟨hne, hclauses⟩ := h rfl
      refine ⟨hne, fun clause hclause => ?_⟩
      obtain ⟨hclauseEmpty, htruth⟩ := hclauses clause hclause
      exact ⟨hclauseEmpty, htruth.trans (iff_of_true trivial rfl)⟩
  | cons relation relations =>
      have hclauses : boundClauses (wrapInRelations (relation :: relations) filter) =
          [wrapInRelations (relation :: relations) filter] := by
        rw [wrapInRelations, List.foldr_cons, relationFilter]
        cases relation.subqueryFilter with
        | none => rfl
        | some declared =>
            have hoperator : relationOperator relation ≠ .every := by
              rw [relationOperator]
              cases relation.type <;> exact RelationOperator.noConfusion
            simp only [if_neg hoperator]
            rfl
      rw [ClausesUndecided, hclauses]
      refine ⟨List.cons_ne_nil _ _, fun clause hclause => ?_⟩
      obtain rfl := List.mem_singleton.mp hclause
      exact ⟨wrapInRelations_isEmpty hempty,
        iff_of_false (truth_ne_unknown_of_relations (List.cons_ne_nil _ _)) (List.cons_ne_nil _ _)⟩

end Filters

/-! ## Comparisons of a NULL column -/

section Columns

variable {ρ : Type} (engine : Engine) (store : Store ρ) (r : ρ)

/-- A column that is NULL on the record, where no relation leads to it. -/
structure NullColumn (fieldRef : ResolvedFieldReference) (field : String) : Prop where
  getLeafField : getLeafField fieldRef.path = .ok field
  isNull : fieldRef.relations.getD [] = [] → store.column r field = .null

variable {engine store r} {fieldRef : ResolvedFieldReference} {field : String}
  {context : TranslationContext} {operator : ComparisonOperator} {v : Literal}

/-- No relation leads to the column. -/
def ResolvedFieldReference.IsDirect (fieldRef : ResolvedFieldReference) : Prop :=
  fieldRef.relations.getD [] = []

variable {fieldIsLeft : Bool} {other : Literal}

theorem undecided_leaf {condition : Prop} {name : String} {operator : FieldOperator} {v : Literal}
    (hcondition : condition) (h : fieldTruth engine operator (store.column r name) v = .unknown) :
    Undecided engine store r condition (.field name operator v) :=
  ⟨rfl, iff_of_true h hcondition⟩

/-- A leaf on the column, through its relations. -/
theorem NullColumn.buildFieldFilter (h : NullColumn store r fieldRef field)
    {operator : FieldOperator} (hnull : fieldTruth engine operator .null v = .unknown) :
    (Prisma.buildFieldFilter fieldRef operator v).Returns
      (ClausesUndecided engine store r fieldRef.IsDirect) := by
  intro filter hfilter
  rw [Prisma.buildFieldFilter, h.getLeafField] at hfilter
  obtain rfl := Except.ok.inj hfilter
  apply clausesUndecided_wrapInRelations rfl
  intro hdirect
  refine Undecided.clauses ?_ rfl
  exact undecided_leaf True.intro (by rw [h.isNull hdirect]; exact hnull)

/-- A comparison with a value, or an ordering, is UNKNOWN on a NULL. -/
theorem fieldTruth_prismaOperator (h : v ≠ .null ∨ operator.isOrdering = true) :
    fieldTruth engine (prismaOperator operator) .null v = .unknown := by
  have hcompare : ∀ op w, engine.compare op .null (boundLiteral w) = .unknown :=
    fun op w => Engine.compare_null_left _
  cases v with
  | null =>
      obtain hv | hordering := h
      · exact absurd rfl hv
      · cases operator <;> first | exact hcompare _ _ | cases hordering
  | _ => cases operator <;> exact hcompare _ _

/-- The bracket of a fractional number. -/
theorem NullColumn.fractionalBracket (h : NullColumn store r fieldRef field) (d : Double) :
    ClausesUndecided engine store r fieldRef.IsDirect
      (wrapInRelations (fieldRef.relations.getD []) (Prisma.fractionalBracket field operator d)) := by
  have hleaf : fieldRef.IsDirect → ∀ (op : ComparisonOperator) (x : Double),
      Undecided engine store r True (.field field (prismaOperator op) (.number x)) := by
    intro hdirect op x
    refine undecided_leaf True.intro ?_
    rw [h.isNull hdirect]
    exact fieldTruth_prismaOperator (.inl fun heq => by cases heq)
  apply clausesUndecided_wrapInRelations
  · cases operator <;> rfl
  · intro hdirect
    have hpair : ∀ (op op' : ComparisonOperator) (x x' : Double),
        ∀ clause ∈ [PrismaFilter.field field (prismaOperator op) (.number x),
          .field field (prismaOperator op') (.number x')],
          Undecided engine store r True clause :=
      fun op op' x x' => undecided_pair (hleaf hdirect op x) (hleaf hdirect op' x')
    have hequals : ∀ clause ∈ [PrismaFilter.field field .equals (.number d),
        .field field .gt (.number d.floor), .field field .lt (.number d.ceil)],
        Undecided engine store r True clause :=
      List.forall_mem_cons.mpr ⟨hleaf hdirect .eq d, hpair .gt .lt d.floor d.ceil⟩
    cases operator with
    | eq => exact ⟨List.cons_ne_nil _ _, hequals⟩
    | ne => exact (Undecided.and (List.cons_ne_nil _ _) hequals).not.clauses rfl
    | lt => exact (Undecided.or (List.cons_ne_nil _ _) (hpair .lt .le d d.floor)).clauses rfl
    | gt => exact (Undecided.or (List.cons_ne_nil _ _) (hpair .gt .ge d d.ceil)).clauses rfl
    | le => exact ⟨List.cons_ne_nil _ _, hpair .le .lt d d.ceil⟩
    | ge => exact ⟨List.cons_ne_nil _ _, hpair .ge .gt d d.floor⟩

theorem NullColumn.buildBooleanOrderingFilter (h : NullColumn store r fieldRef field) (b : Bool) :
    (Prisma.buildBooleanOrderingFilter fieldRef operator b).Returns
      (ClausesUndecided engine store r fieldRef.IsDirect) := by
  have hboolean : ∀ candidate : Bool,
      fieldTruth engine .equals .null (.bool candidate) = .unknown :=
    fun _ => Engine.compare_null_left _
  have hboth : fieldRef.IsDirect → ∀ clause ∈ [PrismaFilter.field field .equals (.bool false),
      .field field .equals (.bool true)], Undecided engine store r True clause := by
    intro hdirect
    refine undecided_pair (undecided_leaf True.intro ?_) (undecided_leaf True.intro ?_)
    · rw [h.isNull hdirect, hboolean]
    · rw [h.isNull hdirect, hboolean]
  intro filter hfilter
  rw [Prisma.buildBooleanOrderingFilter] at hfilter
  split at hfilter
  next candidate hsatisfied => exact h.buildFieldFilter (hboolean candidate) filter hfilter
  next satisfied hsatisfied =>
    rw [h.getLeafField] at hfilter
    obtain rfl := Except.ok.inj hfilter
    split
    · exact clausesUndecided_wrapInRelations rfl fun hdirect =>
        ⟨List.cons_ne_nil _ _, hboth hdirect⟩
    · exact clausesUndecided_wrapInRelations rfl fun hdirect =>
        (Undecided.or (List.cons_ne_nil _ _) (hboth hdirect)).clauses rfl

/-- A NULL that is no value leaves a comparison UNKNOWN, and any ordering. -/
theorem NullColumn.buildComparisonFilter (h : NullColumn store r fieldRef field)
    (hplain : operator.isOrdering = true ∨ fieldRef.nullAttributeRepresentation = some .omitted) :
    (Prisma.buildComparisonFilter context fieldRef operator v).Returns
      (ClausesUndecided engine store r fieldRef.IsDirect) := by
  have hguarded : (isExplicitNullReference fieldRef && !operator.isOrdering) = false := by
    obtain hordering | homitted := hplain
    · rw [hordering, Bool.not_true, Bool.and_false]
    · rw [isExplicitNullReference, homitted]
      rfl
  have hleaf : ∀ {v : Literal}, v ≠ .null → (Prisma.buildFieldFilter fieldRef
      (prismaOperator operator) v).Returns (ClausesUndecided engine store r fieldRef.IsDirect) :=
    fun hv => h.buildFieldFilter (fieldTruth_prismaOperator (.inl hv))
  rw [Prisma.buildComparisonFilter.eq_def]
  refine Except.Returns.bind (Q := fun _ => True) (fun _ _ => trivial) fun _ _ => ?_
  cases v with
  | null =>
      intro filter hfilter
      obtain ⟨_, hassert, hfilter⟩ := Except.bind_eq_ok_iff.mp hfilter
      obtain hordering | homitted := hplain
      · exact h.buildFieldFilter (fieldTruth_prismaOperator (.inr hordering)) filter hfilter
      · rw [homitted] at hassert
        exact absurd rfl (assertNullOperandTranslatable_eq_ok_iff.mp hassert)
  | bool b =>
      cases hordering : operator.isOrdering with
      | true => exact h.buildBooleanOrderingFilter b
      | false =>
          rw [hordering] at hguarded
          simp only [hguarded]
          exact hleaf fun heq => by cases heq
  | number d =>
      simp only [hguarded, Bool.false_eq_true, if_false]
      cases d.isInteger with
      | true => exact hleaf fun heq => by cases heq
      | false =>
          rw [h.getLeafField]
          exact Except.returns_ok.mpr (h.fractionalBracket d)
  | string s =>
      simp only [hguarded]
      exact hleaf fun heq => by cases heq
  | array items =>
      simp only [hguarded]
      exact hleaf fun heq => by cases heq
  | object fields =>
      simp only [hguarded]
      exact hleaf fun heq => by cases heq

/-- An explicit null decides an equality. -/
theorem NullColumn.buildComparisonFilter_decided (h : NullColumn store r fieldRef field)
    (hexplicit : isExplicitNullReference fieldRef = true) (hequality : operator.isOrdering = false) :
    (Prisma.buildComparisonFilter context fieldRef operator v).Returns
      (Undecided engine store r False) := by
  have hguarded : (isExplicitNullReference fieldRef && !operator.isOrdering) = true := by
    rw [hexplicit, hequality]
    rfl
  have hdecided : ∀ {filter : PrismaFilter}, filter.isEmpty = false →
      (fieldRef.IsDirect → filter.truth engine store r ≠ .unknown) →
      Undecided engine store r False (wrapInRelations (fieldRef.relations.getD []) filter) := by
    intro filter hempty hdirect
    refine ⟨wrapInRelations_isEmpty hempty, iff_false_intro ?_⟩
    by_cases hrelations : fieldRef.relations.getD [] = []
    · rw [hrelations]
      exact hdirect hrelations
    · exact truth_ne_unknown_of_relations hrelations
  -- The NULL is ruled out before the column is compared.
  have hequal : ∀ v : Literal, (do
      let fieldName ← Prisma.getLeafField fieldRef.path
      let equality ← guardedFieldFilter fieldRef (.field fieldName .equals v)
      return if operator = .eq then equality else .NOT equality : Except Refusal PrismaFilter).Returns
        (Undecided engine store r False) := by
    intro v filter hfilter
    simp only [guardedFieldFilter, h.getLeafField] at hfilter
    obtain rfl := Except.ok.inj hfilter
    have hguard : Undecided engine store r False (wrapInRelations (fieldRef.relations.getD [])
        (.AND [.field field .not .null, .field field .equals v])) := by
      refine hdecided rfl fun hdirect => ?_
      rw [PrismaFilter.truth_AND, List.map_cons, PrismaFilter.truth_field, h.isNull hdirect]
      exact Truth.noConfusion
    split
    · exact hguard
    · exact hguard.not
  rw [Prisma.buildComparisonFilter.eq_def]
  refine Except.Returns.bind (Q := fun _ => True) (fun _ _ => trivial) fun _ _ => ?_
  cases v with
  | null =>
      refine Except.Returns.bind (Q := fun _ => True) (fun _ _ => trivial) fun _ _ => ?_
      intro filter hfilter
      rw [Prisma.buildFieldFilter, h.getLeafField] at hfilter
      obtain rfl := Except.ok.inj hfilter
      refine hdecided rfl fun hdirect => ?_
      rw [PrismaFilter.truth_field, h.isNull hdirect]
      cases operator with
      | eq | ne => exact Truth.noConfusion
      | _ => cases hequality
  | bool b =>
      simp only [hequality]
      rw [hequality] at hguarded
      rw [if_pos hguarded]
      exact hequal _
  | _ =>
      simp only [hguarded, if_true]
      exact hequal _

/-! ### Solved arithmetic -/

/-- One flat conjunction of bounds that may themselves be brackets. -/
theorem undecided_flat {condition : Prop} {bounds : List PrismaFilter} (hne : bounds ≠ [])
    (h : ∀ bound ∈ bounds, ClausesUndecided engine store r condition bound) :
    Undecided engine store r condition (match bounds.flatMap boundClauses with
      | [filter] => filter
      | filters => .AND filters) := by
  have hclauses : ∀ clause ∈ bounds.flatMap boundClauses, Undecided engine store r condition clause := by
    intro clause hclause
    obtain ⟨bound, hbound, hclause⟩ := List.mem_flatMap.mp hclause
    exact (h bound hbound).2 clause hclause
  split
  next clause hflat => exact hclauses clause (by rw [hflat]; exact List.mem_cons_self)
  next =>
    refine Undecided.and ?_ hclauses
    obtain ⟨bound, hbound⟩ := List.exists_mem_of_ne_nil bounds hne
    obtain ⟨clause, hclause⟩ := List.exists_mem_of_ne_nil _ (h bound hbound).1
    exact List.ne_nil_of_mem (List.mem_flatMap.mpr ⟨bound, hbound, hclause⟩)

theorem NullColumn.buildIntervalFilter (h : NullColumn store r fieldRef field)
    (interval : DoubleInterval) :
    (Prisma.buildIntervalFilter context fieldRef interval).Returns
      (Undecided engine store r fieldRef.IsDirect) := by
  have hbound : ∀ {operator : ComparisonOperator} (d : Double), operator.isOrdering = true →
      (Prisma.buildComparisonFilter context fieldRef operator (.number d)).Returns
        (ClausesUndecided engine store r fieldRef.IsDirect) :=
    fun d hordering => h.buildComparisonFilter (.inl hordering)
  have hpair : ∀ {first second : PrismaFilter},
      ClausesUndecided engine store r fieldRef.IsDirect first →
      ClausesUndecided engine store r fieldRef.IsDirect second →
      ∀ filter ∈ [first, second], Undecided engine store r fieldRef.IsDirect filter :=
    fun hfirst hsecond => undecided_pair hfirst.undecided hsecond.undecided
  have hbounds : ∀ {operator : ComparisonOperator} (bound : Option Double),
      operator.isOrdering = true →
      (bound.toList.mapM fun d => Prisma.buildComparisonFilter context fieldRef operator
        (.number d)).Returns fun filters => filters.length = bound.toList.length ∧
          ∀ filter ∈ filters, ClausesUndecided engine store r fieldRef.IsDirect filter := by
    intro operator bound hordering
    cases bound with
    | none => exact Except.returns_ok.mpr ⟨rfl, fun _ => (absurd · List.not_mem_nil)⟩
    | some d =>
        intro filters hfilters
        obtain ⟨filter, hfilter, rfl⟩ : ∃ filter, Prisma.buildComparisonFilter context fieldRef
            operator (.number d) = .ok filter ∧ [filter] = filters := by
          simpa [Except.map_eq_ok_iff] using hfilters
        refine ⟨rfl, fun clause hclause => ?_⟩
        obtain rfl := List.mem_singleton.mp hclause
        exact hbound d hordering _ hfilter
  cases interval with
  | empty =>
      refine Except.Returns.bind (hbound 0 rfl) fun first hfirst => ?_
      refine Except.Returns.bind (hbound 0 rfl) fun second hsecond => ?_
      exact Except.returns_ok.mpr (Undecided.and (List.cons_ne_nil _ _) (hpair hfirst hsecond))
  | bounds lo hi =>
      by_cases hunbounded : lo = none ∧ hi = none
      · obtain ⟨rfl, rfl⟩ := hunbounded
        refine Except.Returns.bind (hbound 0 rfl) fun first hfirst => ?_
        refine Except.Returns.bind (hbound 0 rfl) fun second hsecond => ?_
        exact Except.returns_ok.mpr (Undecided.or (List.cons_ne_nil _ _) (hpair hfirst hsecond))
      · rw [Prisma.buildIntervalFilter.eq_def]
        have hflat : (do
            let least ← lo.toList.mapM fun d =>
              Prisma.buildComparisonFilter context fieldRef .ge (.number d)
            let greatest ← hi.toList.mapM fun d =>
              Prisma.buildComparisonFilter context fieldRef .le (.number d)
            return match (least ++ greatest).flatMap boundClauses with
              | [filter] => filter
              | filters => .AND filters : Except Refusal PrismaFilter).Returns
                (Undecided engine store r fieldRef.IsDirect) := by
          refine Except.Returns.bind (hbounds lo rfl) fun least hleast => ?_
          refine Except.Returns.bind (hbounds hi rfl) fun greatest hgreatest => ?_
          refine Except.returns_ok.mpr (undecided_flat ?_ ?_)
          · intro hnil
            obtain ⟨rfl, rfl⟩ := List.append_eq_nil_iff.mp hnil
            have hlo := hleast.1
            have hhi := hgreatest.1
            exact hunbounded ⟨by simpa using hlo.symm, by simpa using hhi.symm⟩
          · intro bound hmem
            obtain hmem | hmem := List.mem_append.mp hmem
            · exact hleast.2 bound hmem
            · exact hgreatest.2 bound hmem
        cases lo with
        | some lo => exact hflat
        | none =>
            cases hi with
            | some hi => exact hflat
            | none => exact absurd ⟨rfl, rfl⟩ hunbounded

theorem NullColumn.handleNumericArithmetic [Double.Rounding] (h : NullColumn store r fieldRef field)
    {arithOp : PlanOperator} {constant : Literal} :
    (Prisma.handleNumericArithmetic context fieldRef operator arithOp other constant
      fieldIsLeft).Returns fun filter =>
        Undecided engine store r fieldRef.IsDirect filter ∧ ∃ d, constant = .number d := by
  intro filter hfilter
  rw [Prisma.handleNumericArithmetic.eq_def] at hfilter
  split at hfilter
  next c v =>
    obtain ⟨interval, -, hfilter⟩ := Except.bind_eq_ok_iff.mp hfilter
    obtain ⟨solved, hsolved, hfilter⟩ := Except.bind_eq_ok_iff.mp hfilter
    have hundecided : Undecided engine store r fieldRef.IsDirect solved :=
      h.buildIntervalFilter interval solved hsolved
    obtain rfl := Except.ok.inj hfilter
    refine ⟨?_, c, rfl⟩
    split
    · exact hundecided.not
    · exact hundecided
  next => cases hfilter

/-- What a text has to be added to, for the sum to be another. -/
theorem solveAdd_string (value text : String) (fieldIsLeft : Bool) :
    ∃ solved, solveAdd (.string value) (.string text) fieldIsLeft = .ok solved ∧
      (solved = none ↔
        (if fieldIsLeft then endsWithText value text else startsWithText value text) = false) := by
  rw [solveAdd]
  cases fieldIsLeft with
  | true => cases endsWithText value text <;> exact ⟨_, rfl, by simp⟩
  | false => cases startsWithText value text <;> exact ⟨_, rfl, by simp⟩

/-- The pair that no value of the column makes true, or false. -/
theorem NullColumn.contradiction (h : NullColumn store r fieldRef field) (value : String)
    {equality inequality : PrismaFilter}
    (hequality : Prisma.buildFieldFilter fieldRef .equals (.string value) = .ok equality)
    (hinequality : Prisma.buildFieldFilter fieldRef .not (.string value) = .ok inequality) :
    Undecided engine store r fieldRef.IsDirect
      (if operator = .eq then .AND [equality, inequality] else .OR [equality, inequality]) := by
  have hleaf : ∀ op : ComparisonOperator,
      fieldTruth engine (prismaOperator op) .null (.string value) = .unknown :=
    fun op => fieldTruth_prismaOperator (.inl fun heq => by cases heq)
  have hpair : ∀ filter ∈ [equality, inequality],
      Undecided engine store r fieldRef.IsDirect filter :=
    undecided_pair (h.buildFieldFilter (hleaf .eq) _ hequality).undecided
      (h.buildFieldFilter (hleaf .ne) _ hinequality).undecided
  split
  · exact Undecided.and (List.cons_ne_nil _ _) hpair
  · exact Undecided.or (List.cons_ne_nil _ _) hpair

theorem handleConcatenation_eq_ok {text : String} {filter : PrismaFilter}
    (hfilter : handleConcatenation context fieldRef operator other (.string text) fieldIsLeft =
      .ok filter) :
    operator.isOrdering = false ∧ ∃ value, other = .string value ∧
      ((∃ solved, Prisma.buildComparisonFilter context fieldRef operator solved = .ok filter ∧
          (if fieldIsLeft then endsWithText value text else startsWithText value text) = true) ∨
        ∃ equality inequality,
          Prisma.buildFieldFilter fieldRef .equals (.string value) = .ok equality ∧
          Prisma.buildFieldFilter fieldRef .not (.string value) = .ok inequality ∧
          filter = (if operator = .eq then .AND [equality, inequality]
            else .OR [equality, inequality]) ∧
          (if fieldIsLeft then endsWithText value text else startsWithText value text) = false) := by
  rw [handleConcatenation] at hfilter
  split at hfilter
  next => cases hfilter
  next hordering =>
    refine ⟨by simpa using hordering, ?_⟩
    obtain ⟨solved, hsolved, hfilter⟩ := Except.bind_eq_ok_iff.mp hfilter
    cases other with
    | string value =>
        obtain ⟨solved', hsolved', hnone⟩ := solveAdd_string value text fieldIsLeft
        obtain rfl : solved = solved' := Except.ok.inj (hsolved.symm.trans hsolved')
        refine ⟨value, rfl, ?_⟩
        cases solved with
        | some v =>
            refine .inl ⟨v, hfilter, ?_⟩
            rw [← Bool.not_eq_false, ← hnone]
            exact Option.some_ne_none v
        | none =>
            obtain ⟨equality, hequality, hfilter⟩ := Except.bind_eq_ok_iff.mp hfilter
            obtain ⟨inequality, hinequality, hfilter⟩ := Except.bind_eq_ok_iff.mp hfilter
            exact .inr ⟨equality, inequality, hequality, hinequality,
              (Except.ok.inj hfilter).symm, hnone.mp rfl⟩
    | _ => cases hsolved

variable (h : NullColumn store r fieldRef field)
include h

/-- Solved for a column whose NULL is no value. -/
theorem NullColumn.solvedComparison [Double.Rounding]
    (homitted : fieldRef.nullAttributeRepresentation = some .omitted) {arithOp : PlanOperator}
    {constant : Literal} :
    (Prisma.solvedComparison context fieldRef operator arithOp other constant fieldIsLeft).Returns
      (Undecided engine store r fieldRef.IsDirect) := by
  intro filter hfilter
  rw [Prisma.solvedComparison.eq_def] at hfilter
  split at hfilter
  next text =>
    obtain ⟨-, value, rfl, ⟨solved, hsolved, -⟩ | ⟨equality, inequality, hequality, hinequality,
      rfl, -⟩⟩ := handleConcatenation_eq_ok hfilter
    · exact (h.buildComparisonFilter (.inr homitted) filter hsolved).undecided
    · exact h.contradiction value hequality hinequality
  next => exact (h.handleNumericArithmetic filter hfilter).1

/-- Solved for a column whose NULL is the value null: a solution is compared with it. -/
theorem NullColumn.solvedComparison_explicit [Double.Rounding]
    (hexplicit : isExplicitNullReference fieldRef = true)
    {arithOp : PlanOperator} {constant : Literal} :
    (Prisma.solvedComparison context fieldRef operator arithOp other constant fieldIsLeft).Returns
      (Undecided engine store r (fieldRef.IsDirect ∧
        ∀ text value, constant = .string text → other = .string value →
          (if fieldIsLeft then endsWithText value text else startsWithText value text) = false)) := by
  intro filter hfilter
  rw [Prisma.solvedComparison.eq_def] at hfilter
  split at hfilter
  next text =>
    obtain ⟨hequality, value, rfl, ⟨solved, hsolved, hsolves⟩ | ⟨equality, inequality, hequal,
      hinequal, rfl, hsolves⟩⟩ := handleConcatenation_eq_ok hfilter
    · refine Undecided.congr (h.buildComparisonFilter_decided hexplicit hequality filter hsolved)
        (iff_of_false id ?_)
      rintro ⟨-, hnone⟩
      rw [hnone text value rfl rfl] at hsolves
      cases hsolves
    · refine Undecided.congr (h.contradiction value hequal hinequal)
        (iff_self_and.mpr fun _ text' value' htext hvalue => ?_)
      cases htext
      cases hvalue
      exact hsolves
  next =>
    obtain ⟨hundecided, d, rfl⟩ : Undecided engine store r fieldRef.IsDirect filter ∧
        ∃ d, _ = PlanValue.number d := h.handleNumericArithmetic filter hfilter
    exact hundecided.congr (iff_self_and.mpr fun _ text value htext => by cases htext)

/-! ### Instants and lengths -/

/-- An instant between two milliseconds meets no column, as a contradiction on it. -/
theorem NullColumn.buildValueComparisonFilter
    (hexplicit : isExplicitNullReference fieldRef = true) (hequality : operator.isOrdering = false)
    {subMillisecond : Bool} :
    (Prisma.buildValueComparisonFilter context fieldRef operator v subMillisecond).Returns
      (Undecided engine store r (fieldRef.IsDirect ∧ subMillisecond = true)) := by
  cases subMillisecond with
  | false =>
      intro filter hfilter
      exact Undecided.congr (h.buildComparisonFilter_decided hexplicit hequality filter hfilter)
        (iff_of_false id fun hsub => by cases hsub.2)
  | true =>
      have hnever : (do
          let never := PrismaFilter.AND [
            ← Prisma.buildComparisonFilter context fieldRef .lt v,
            ← Prisma.buildComparisonFilter context fieldRef .ge v]
          return if operator = .eq then never else .NOT never : Except Refusal PrismaFilter).Returns
            (Undecided engine store r (fieldRef.IsDirect ∧ true = true)) := by
        have hbound : ∀ {op : ComparisonOperator}, op.isOrdering = true →
            (Prisma.buildComparisonFilter context fieldRef op v).Returns
              (ClausesUndecided engine store r fieldRef.IsDirect) :=
          fun hordering => h.buildComparisonFilter (.inl hordering)
        refine Except.Returns.bind (hbound rfl) fun least hleast => ?_
        refine Except.Returns.bind (hbound rfl) fun most hmost => ?_
        have hand : Undecided engine store r (fieldRef.IsDirect ∧ true = true) (.AND [least, most]) := by
          simp only [and_true]
          exact Undecided.and (List.cons_ne_nil _ _)
            (undecided_pair hleast.undecided hmost.undecided)
        refine Except.returns_ok.mpr ?_
        split
        · exact hand
        · exact hand.not
      cases operator with
      | eq | ne => exact hnever
      | _ => cases hequality

theorem NullColumn.lengthAtLeast
    (hlike : ∀ pattern, engine.like .null pattern = .unknown) (count : Int) :
    (Prisma.lengthAtLeast fieldRef count).Returns (Undecided engine store r fieldRef.IsDirect) := by
  have hpattern : ∀ pattern : String, (Prisma.buildFieldFilter fieldRef .startsWith
      (.string pattern)).Returns (Undecided engine store r fieldRef.IsDirect) := by
    intro pattern
    have hleaf : fieldTruth engine .startsWith .null (.string pattern) = .unknown := hlike _
    exact (h.buildFieldFilter hleaf).imp fun _ => ClausesUndecided.undecided
  rw [Prisma.lengthAtLeast]
  split
  · exact (hpattern "").bind fun filter hfilter => Except.returns_ok.mpr hfilter.not
  · split
    · exact Except.returns_error _
    · exact hpattern _

theorem NullColumn.buildStringLengthFilter
    (hlike : ∀ pattern, engine.like .null pattern = .unknown) (predicate : CountPredicate) :
    (Prisma.buildStringLengthFilter fieldRef predicate).Returns
      (Undecided engine store r fieldRef.IsDirect) := by
  have hreturn : ∀ filter, Undecided engine store r fieldRef.IsDirect filter →
      (pure (if predicate.negated then .NOT filter else filter) :
        Except Refusal PrismaFilter).Returns (Undecided engine store r fieldRef.IsDirect) := by
    intro filter hfilter
    refine Except.returns_ok.mpr ?_
    split
    · exact hfilter.not
    · exact hfilter
  rw [Prisma.buildStringLengthFilter]
  split
  · exact (h.lengthAtLeast hlike _).bind hreturn
  · refine (h.lengthAtLeast hlike _).bind fun least hleast => ?_
    refine (h.lengthAtLeast hlike _).bind fun more hmore => ?_
    exact hreturn _ (Undecided.and (List.cons_ne_nil _ _) (undecided_pair hleast hmore.not))

end Columns

/-! ## Resolved operands -/

section Resolved

/-- The functions that no condition consists of. -/
def isFunction (operator : PlanOperator) : Bool :=
  isArithmetic operator || operator = .string || operator = .double || operator = .size

/-- A builder that refuses a function as a condition. -/
def RefusesFunctions (b : Builder) (context : TranslationContext) : Prop :=
  ∀ operator operands, isFunction operator = true →
    Translation.Returns (b.positive (.expression operator operands) context) fun _ => False

variable {evaluation : ConstantEvaluation} {b : Builder} {context : TranslationContext}

theorem isFunction_cases {operator : PlanOperator} (h : isFunction operator = true) :
    operator = .add ∨ operator = .sub ∨ operator = .mult ∨ operator = .div ∨ operator = .string ∨
      operator = .double ∨ operator = .size := by
  simpa [isFunction, isArithmetic, or_assoc] using h

/-- The column that a call on it is resolved to. -/
def wrappedReference (wrapper : Option ColumnWrapper) (fieldRef : ResolvedFieldReference) :
    ResolvedFieldReference :=
  match wrapper with
  | none | some .timestamp => fieldRef
  | some .string | some .double =>
      { fieldRef with nullAttributeRepresentation := some .omitted }

theorem returns_unfolded {operator : PlanOperator} (hfunction : isArithmetic operator = false)
    (operands : List (Translation ResolvedOperand)) :
    Translation.Returns (tryFoldValueExpression evaluation operator operands) fun folded =>
      folded = none := by
  rw [tryFoldValueExpression.eq_def, hfunction]
  exact .pure rfl

theorem returns_resolveTimestamp {operands : List Node} {allowSubMillisecond : Bool}
    {P : ResolvedOperand → Prop}
    (h : (resolveTimestampOperand operands context allowSubMillisecond).result.Returns P) :
    Translation.Returns (resolveOperand evaluation b context allowSubMillisecond
      (.expression .timestamp operands)) P := by
  have hread : Translation.Returns
      (Prisma.reading (resolveTimestampOperand operands context allowSubMillisecond))
      fun x => x.Returns P := .reading h
  exact hread.bind fun x hx => .lift hx

/-- A call on a column is resolved to the column, or refused. -/
theorem returns_resolveRead (hb : RefusesFunctions b context) (wrapper : Option ColumnWrapper)
    (name : String) (allowSubMillisecond : Bool) :
    Translation.Returns
      (resolveOperand evaluation b context allowSubMillisecond (readNode wrapper name))
      fun operand => operand =
        .field (wrappedReference wrapper (resolveFieldReference name context).result) := by
  have hcast : ∀ (operator : PlanOperator) (target : MappedType),
      identityCast operator = some target → isFunction operator = true →
      isArithmetic operator = false → operator ≠ .timestamp →
      Translation.Returns
        (resolveOperand evaluation b context allowSubMillisecond (.expression operator [.var name]))
        fun operand => operand = .field
          { (resolveFieldReference name context).result with
            nullAttributeRepresentation := some .omitted } := by
    intro operator target htarget hfunction harith hoperator
    rw [resolveOperand, if_neg hoperator]
    refine Translation.Returns.bind (Q := fun cast => cast = none ∨ cast = some
      { (resolveFieldReference name context).result with
        nullAttributeRepresentation := some .omitted }) (.reading ?_) ?_
    · rw [resolveIdentityCast.eq_def, htarget, Reading.bind_result]
      split
      · exact .inl rfl
      · exact .inr rfl
    · rintro cast (rfl | rfl)
      · refine (returns_unfolded harith _).bind fun folded hfolded => ?_
        subst hfolded
        exact (hb operator _ hfunction).bind fun _ h => h.elim
      · exact .pure rfl
  cases wrapper with
  | none =>
      have hread : Translation.Returns
          (Prisma.reading (resolveFieldReference name context))
          fun fieldRef => fieldRef = (resolveFieldReference name context).result := .reading rfl
      exact hread.bind fun fieldRef hfieldRef => .pure (congrArg _ hfieldRef)
  | some wrapper =>
      cases wrapper with
      | string => exact hcast .string .string rfl rfl rfl (by decide)
      | double => exact hcast .double .number rfl rfl rfl (by decide)
      | timestamp =>
          have hresolved : (resolveTimestampOperand [.var name] context
              allowSubMillisecond).result.Returns fun operand => operand =
                .field (resolveFieldReference name context).result := by
            rw [resolveTimestampOperand, Reading.bind_result]
            split
            · exact Except.returns_ok.mpr rfl
            · exact Except.returns_error _
          exact returns_resolveTimestamp hresolved

/-- A constant is resolved to its value, or refused. -/
theorem returns_resolveConstant (hb : RefusesFunctions b context) {node : Node}
    (hconstant : IsConstant node) :
    Translation.Returns (resolveOperand evaluation b context false node) fun operand =>
      ∃ v, operand = .value v false ∧ constantValue evaluation node = some v := by
  induction hconstant with
  | value v => exact .pure ⟨v, rfl, rfl⟩
  | timestamp text =>
      have hresolved : (resolveTimestampOperand [.value (.string text)] context
          false).result.Returns fun operand => ∃ v, operand = .value v false ∧
            constantValue evaluation (.expression .timestamp [.value (.string text)]) = some v := by
        intro operand hoperand
        obtain ⟨iso, hiso, rfl⟩ := Except.map_eq_ok_iff.mp hoperand
        exact ⟨_, rfl, by rw [constantValue, hiso]; rfl⟩
      exact returns_resolveTimestamp hresolved
  | @arithmetic operator first second h _ _ ihfirst ihsecond =>
      have hoperator : operator ≠ .timestamp := by
        rintro rfl
        cases h
      have hcast : identityCast operator = none := by
        obtain rfl | rfl | rfl | rfl := isArithmetic_cases h <;> rfl
      have hvalue : constantValue evaluation (.expression operator [first, second]) = (do
          let first ← constantValue evaluation first
          let second ← constantValue evaluation second
          (evaluation.arithmetic operator first second).toOption) := by
        obtain rfl | rfl | rfl | rfl := isArithmetic_cases h <;> rfl
      have hfolded : Translation.Returns (tryFoldValueExpression evaluation operator
          (resolveEach evaluation b context [first, second])) fun folded => ∀ v, folded = some v →
            constantValue evaluation (.expression operator [first, second]) = some v := by
        rw [tryFoldValueExpression.eq_def, h]
        refine ihfirst.bind fun operand hfirst => ?_
        obtain ⟨v, rfl, hv⟩ := hfirst
        refine ihsecond.bind fun operand hsecond => ?_
        obtain ⟨w, rfl, hw⟩ := hsecond
        refine .pure fun folded hfolded => ?_
        rw [hvalue, hv, hw]
        exact hfolded
      rw [resolveOperand, if_neg hoperator]
      have hidentity : Translation.Returns
          (Prisma.reading (resolveIdentityCast operator [first, second] context))
          fun cast => cast = none := by
        refine .reading ?_
        rw [resolveIdentityCast.eq_def, hcast]
        rfl
      refine hidentity.bind fun cast hcast => ?_
      subst hcast
      refine hfolded.bind fun folded hfolded => ?_
      cases folded with
      | some v => exact .pure ⟨v, rfl, hfolded v rfl⟩
      | none =>
          have hfunction : isFunction operator = true := by
            rw [isFunction, h]
            rfl
          exact (hb operator _ hfunction).bind fun _ h => h.elim

theorem NullColumn.wrapped {ρ : Type} {store : Store ρ} {r : ρ} {fieldRef : ResolvedFieldReference}
    {field : String} (h : NullColumn store r fieldRef field) (wrapper : Option ColumnWrapper) :
    NullColumn store r (wrappedReference wrapper fieldRef) field := by
  obtain ⟨hfield, hnull⟩ := h
  cases wrapper with
  | none => exact ⟨hfield, hnull⟩
  | some wrapper => cases wrapper <;> exact ⟨hfield, hnull⟩

theorem wrappedReference_isDirect (wrapper : Option ColumnWrapper)
    (fieldRef : ResolvedFieldReference) :
    (wrappedReference wrapper fieldRef).IsDirect = fieldRef.IsDirect := by
  cases wrapper with
  | none => rfl
  | some wrapper => cases wrapper <;> rfl

/-- A wrapper under which the NULL is still that of the column. -/
def keepsConvention (wrapper : Option ColumnWrapper) : Bool :=
  wrapper = none || wrapper = some .timestamp

theorem wrappedReference_of_keepsConvention {wrapper : Option ColumnWrapper}
    (h : keepsConvention wrapper = true) (fieldRef : ResolvedFieldReference) :
    wrappedReference wrapper fieldRef = fieldRef := by
  cases wrapper with
  | none => rfl
  | some wrapper => cases wrapper <;> first | rfl | cases h

theorem wrappedReference_omitted {wrapper : Option ColumnWrapper}
    (h : keepsConvention wrapper = false) (fieldRef : ResolvedFieldReference) :
    (wrappedReference wrapper fieldRef).nullAttributeRepresentation = some .omitted := by
  cases wrapper with
  | none => cases h
  | some wrapper => cases wrapper <;> first | rfl | cases h

/-- What arithmetic on a column is called with. -/
def arithmeticOperands (columnIsLeft : Bool) (wrapper : Option ColumnWrapper) (name : String)
    (constant : Node) : List Node :=
  if columnIsLeft then [readNode wrapper name, constant] else [constant, readNode wrapper name]

/-- Arithmetic on a column has no value to fold. -/
theorem returns_unfolded_column (hb : RefusesFunctions b context) {arithOp : PlanOperator}
    {constant : Node} (hconstant : IsConstant constant) (columnIsLeft : Bool)
    (wrapper : Option ColumnWrapper) (name : String) :
    Translation.Returns (tryFoldValueExpression evaluation arithOp
      (resolveEach evaluation b context (arithmeticOperands columnIsLeft wrapper name constant)))
      fun folded => folded = none := by
  cases harith : isArithmetic arithOp with
  | false => exact returns_unfolded harith _
  | true =>
      cases columnIsLeft with
      | true =>
          rw [tryFoldValueExpression.eq_def, harith]
          refine (returns_resolveRead hb wrapper name false).bind fun operand hoperand => ?_
          subst hoperand
          exact .pure rfl
      | false =>
          rw [tryFoldValueExpression.eq_def, harith]
          refine (returns_resolveConstant hb hconstant).bind fun operand hoperand => ?_
          obtain ⟨v, rfl, -⟩ := hoperand
          refine (returns_resolveRead hb wrapper name false).bind fun operand hoperand => ?_
          subst hoperand
          exact .pure rfl

/-- A constant that is not arithmetic keeps whether it is between two milliseconds. -/
theorem returns_resolveInstant {node : Node} (hconstant : IsConstant node)
    (harith : isArithmetic (operatorOf node) = false) :
    Translation.Returns (resolveOperand evaluation b context true node) fun operand =>
      ∃ v, operand = .value v (isSubMillisecond node) := by
  cases hconstant with
  | value v => exact .pure ⟨v, rfl⟩
  | timestamp text =>
      have hresolved : (resolveTimestampOperand [.value (.string text)] context
          true).result.Returns fun operand => ∃ v, operand =
            .value v (isSubMillisecond (.expression .timestamp [.value (.string text)])) := by
        intro operand hoperand
        obtain ⟨instant, hinstant, rfl⟩ := Except.map_eq_ok_iff.mp hoperand
        exact ⟨_, by rw [isSubMillisecond, hinstant]; rfl⟩
      exact returns_resolveTimestamp hresolved
  | arithmetic h _ _ => exact absurd (harith.symm.trans h) Bool.false_ne_true

end Resolved

/-! ## Arithmetic -/

section Arithmetic

variable [Double.Rounding] {ρ : Type} {engine : Engine} {store : Store ρ} {r : ρ}
  {evaluation : ConstantEvaluation} {b : Builder} {context : TranslationContext}
  {fieldRef : ResolvedFieldReference} {name field : String} {operator : ComparisonOperator}
  {arithOp : PlanOperator} {arithIsLeft : Bool}

variable {second : Node}

section Refused

variable (hb : RefusesFunctions b context)
include hb

/-- Arithmetic on the column, solved for it. -/
theorem returns_solvedArithmetic (hname : (resolveFieldReference name context).result = fieldRef)
    (hcolumn : NullColumn store r fieldRef field)
    (hexplicit : isExplicitNullReference fieldRef = true) {constant other : Node}
    (hconstant : IsConstant constant) (hother : IsConstant other) (columnIsLeft : Bool)
    (wrapper : Option ColumnWrapper) :
    Translation.Returns (handleArithmeticComparison b evaluation operator arithOp
      (arithmeticOperands columnIsLeft wrapper name constant) other arithIsLeft context)
      (Undecided engine store r (fieldRef.IsDirect ∧ (keepsConvention wrapper = true →
        ∀ text value, constantValue evaluation constant = some (.string text) →
          constantValue evaluation other = some (.string value) →
            (if columnIsLeft then endsWithText value text else startsWithText value text) =
              false))) := by
  have hsolved : ∀ {v w : Literal} {op : ComparisonOperator},
      constantValue evaluation constant = some v → constantValue evaluation other = some w →
      (solvedComparison context (wrappedReference wrapper fieldRef) op arithOp w v
        columnIsLeft).Returns (Undecided engine store r (fieldRef.IsDirect ∧
          (keepsConvention wrapper = true → ∀ text value,
            constantValue evaluation constant = some (.string text) →
            constantValue evaluation other = some (.string value) →
              (if columnIsLeft then endsWithText value text else startsWithText value text) =
                false))) := by
    intro v w op hv hw
    rw [hv, hw]
    cases hkeeps : keepsConvention wrapper with
    | true =>
        rw [wrappedReference_of_keepsConvention hkeeps]
        intro filter hfilter
        refine Undecided.congr (hcolumn.solvedComparison_explicit hexplicit filter hfilter)
          (and_congr_right fun _ => ?_)
        simp only [Option.some.injEq, forall_const]
    | false =>
        have homitted := wrappedReference_omitted hkeeps fieldRef
        intro filter hfilter
        refine Undecided.congr ((hcolumn.wrapped wrapper).solvedComparison homitted filter hfilter) ?_
        rw [wrappedReference_isDirect]
        exact iff_self_and.mpr fun _ h => by cases h
  have hread : Translation.Returns
      (resolveOperand evaluation b context false (readNode wrapper name)) fun operand =>
        operand = .field (wrappedReference wrapper fieldRef) :=
    hname ▸ returns_resolveRead hb wrapper name false
  have hconstants : Translation.Returns (resolveOperand evaluation b context false constant)
      fun operand => ∃ v, operand = .value v false ∧ constantValue evaluation constant = some v :=
    returns_resolveConstant hb hconstant
  cases columnIsLeft with
  | true =>
      refine (Translation.Returns.trivial _).bind fun _ _ => ?_
      refine hread.bind fun operand hoperand => ?_
      subst hoperand
      refine hconstants.bind fun operand hoperand => ?_
      obtain ⟨v, rfl, hv⟩ := hoperand
      refine (returns_resolveConstant hb hother).bind fun operand hoperand => ?_
      obtain ⟨w, rfl, hw⟩ := hoperand
      exact .lift (hsolved hv hw)
  | false =>
      refine (Translation.Returns.trivial _).bind fun _ _ => ?_
      refine hconstants.bind fun operand hoperand => ?_
      obtain ⟨v, rfl, hv⟩ := hoperand
      refine hread.bind fun operand hoperand => ?_
      subst hoperand
      refine (returns_resolveConstant hb hother).bind fun operand hoperand => ?_
      obtain ⟨w, rfl, hw⟩ := hoperand
      exact .lift (hsolved hv hw)

/-- Folded arithmetic compared with a call on the column. -/
theorem returns_foldedArithmetic (hname : (resolveFieldReference name context).result = fieldRef)
    (hcolumn : NullColumn store r fieldRef field)
    (hexplicit : isExplicitNullReference fieldRef = true) (hequality : operator.isOrdering = false)
    {first : Node} (hfirst : IsConstant first) (hsecond : IsConstant second)
    (wrapper : ColumnWrapper) :
    Translation.Returns (handleArithmeticComparison b evaluation operator arithOp [first, second]
      (readNode (some wrapper) name) arithIsLeft context)
      (Undecided engine store r (fieldRef.IsDirect ∧ wrapper ≠ .timestamp)) := by
  have hread : Translation.Returns
      (resolveOperand evaluation b context false (readNode (some wrapper) name)) fun operand =>
        operand = .field (wrappedReference (some wrapper) fieldRef) :=
    hname ▸ returns_resolveRead hb (some wrapper) name false
  have hoperator : (if arithIsLeft then operator.mirrored else operator).isOrdering = false := by
    cases operator with
    | eq | ne => cases arithIsLeft <;> rfl
    | _ => cases hequality
  refine (Translation.Returns.trivial _).bind fun _ _ => ?_
  refine (returns_resolveConstant hb hfirst).bind fun operand hoperand => ?_
  obtain ⟨v, rfl, -⟩ := hoperand
  refine (returns_resolveConstant hb hsecond).bind fun operand hoperand => ?_
  obtain ⟨w, rfl, -⟩ := hoperand
  refine hread.bind fun operand hoperand => ?_
  subst hoperand
  refine (Translation.Returns.trivial _).bind fun folded _ => .lift ?_
  intro filter hfilter
  cases hkeeps : keepsConvention (some wrapper) with
  | true =>
      rw [wrappedReference_of_keepsConvention hkeeps] at hfilter
      refine Undecided.congr (hcolumn.buildComparisonFilter_decided hexplicit hoperator filter hfilter)
        (iff_of_false id ?_)
      rintro ⟨-, hwrapper⟩
      cases wrapper <;> first | exact hwrapper rfl | cases hkeeps
  | false =>
      refine Undecided.congr ((hcolumn.wrapped (some wrapper)).buildComparisonFilter
        (.inr (wrappedReference_omitted hkeeps fieldRef)) filter hfilter).undecided ?_
      rw [wrappedReference_isDirect]
      refine iff_self_and.mpr fun _ hwrapper => ?_
      subst hwrapper
      cases hkeeps

/-- Arithmetic on a column is not compared with folded arithmetic. -/
theorem returns_arithmeticOnBothSides {first constant : Node}
    (hconstant : IsConstant constant) {columnArith : PlanOperator}
    (hcolumn : isArithmetic columnArith = true) (columnIsLeft : Bool)
    (wrapper : Option ColumnWrapper) :
    Translation.Returns (handleArithmeticComparison b evaluation operator arithOp [first, second]
      (.expression columnArith (arithmeticOperands columnIsLeft wrapper name constant)) arithIsLeft
      context) fun _ => False := by
  have hrefused : Translation.Returns (assertFoldable b evaluation context
      (.expression columnArith (arithmeticOperands columnIsLeft wrapper name constant)))
      fun _ => False := by
    rw [assertFoldable, hcolumn]
    refine (returns_unfolded_column hb hconstant columnIsLeft wrapper name).bind fun folded h => ?_
    subst h
    exact .throw _
  exact hrefused.bind fun _ h => h.elim

theorem returns_resolveSize (operands : List Node)
    (allowSubMillisecond : Bool) :
    Translation.Returns
      (resolveOperand evaluation b context allowSubMillisecond (.expression .size operands))
      fun _ => False := by
  rw [resolveOperand, if_neg (by decide)]
  have hidentity : Translation.Returns
      (Prisma.reading (resolveIdentityCast .size operands context)) fun cast => cast = none :=
    .reading rfl
  refine hidentity.bind fun cast hcast => ?_
  subst hcast
  refine (returns_unfolded rfl _).bind fun folded hfolded => ?_
  subst hfolded
  exact (hb .size operands rfl).bind fun _ h => h.elim

/-- Nor is a size. -/
theorem returns_arithmeticOfSize {first : Node}
    (operands : List Node) :
    Translation.Returns (handleArithmeticComparison b evaluation operator arithOp [first, second]
      (.expression .size operands) arithIsLeft context) fun _ => False := by
  refine (Translation.Returns.trivial _).bind fun _ _ => ?_
  refine (Translation.Returns.trivial _).bind fun _ _ => ?_
  refine (Translation.Returns.trivial _).bind fun _ _ => ?_
  exact (returns_resolveSize hb operands false).bind fun _ h => h.elim

/-- A call on the column compared with a constant that is not arithmetic. -/
theorem returns_compareResolved (hname : (resolveFieldReference name context).result = fieldRef)
    (hcolumn : NullColumn store r fieldRef field)
    (hexplicit : isExplicitNullReference fieldRef = true) (hequality : operator.isOrdering = false)
    {other : Node} (hother : IsConstant other) (harith : isArithmetic (operatorOf other) = false)
    (wrapper : ColumnWrapper) (computedFirst : Bool) :
    Translation.Returns (compareResolved b evaluation operator
      (if computedFirst then readNode (some wrapper) name else other)
      (if computedFirst then other else readNode (some wrapper) name) context)
      (Undecided engine store r (fieldRef.IsDirect ∧
        (wrapper = .timestamp → isSubMillisecond other = true))) := by
  have hmirrored : operator.mirrored = operator := by
    cases operator with
    | eq | ne => rfl
    | _ => cases hequality
  have hread : ∀ allow, Translation.Returns
      (resolveOperand evaluation b context allow (readNode (some wrapper) name)) fun operand =>
        operand = .field (wrappedReference (some wrapper) fieldRef) :=
    fun allow => hname ▸ returns_resolveRead hb (some wrapper) name allow
  have hcolumnOther : isColumnOperand other = false := by
    cases hother with
    | value v => rfl
    | timestamp text => rfl
    | arithmetic h _ _ => exact absurd (harith.symm.trans h) Bool.false_ne_true
  have hbuilt : ∀ {v : Literal} {subMillisecond : Bool},
      (wrapper = .timestamp → subMillisecond = isSubMillisecond other) →
      (wrapper ≠ .timestamp → subMillisecond = false) →
      Translation.Returns (liftM (Prisma.buildValueComparisonFilter context
        (wrappedReference (some wrapper) fieldRef) operator v subMillisecond))
        (Undecided engine store r (fieldRef.IsDirect ∧
          (wrapper = .timestamp → isSubMillisecond other = true))) := by
    intro v subMillisecond htimestamp hcast
    refine .lift fun filter hfilter => ?_
    by_cases hwrapper : wrapper = .timestamp
    · subst hwrapper
      obtain rfl := htimestamp rfl
      refine Undecided.congr (hcolumn.buildValueComparisonFilter hexplicit hequality filter hfilter)
        (and_congr_right fun _ => ?_)
      exact ⟨fun hsub _ => hsub, fun hsub => hsub rfl⟩
    · obtain rfl := hcast hwrapper
      have homitted : keepsConvention (some wrapper) = false := by
        cases wrapper <;> first | rfl | exact absurd rfl hwrapper
      have hplain : ClausesUndecided engine store r
          (wrappedReference (some wrapper) fieldRef).IsDirect filter :=
        (hcolumn.wrapped (some wrapper)).buildComparisonFilter
          (.inr (wrappedReference_omitted homitted fieldRef)) filter hfilter
      refine hplain.undecided.congr ?_
      rw [wrappedReference_isDirect]
      exact iff_self_and.mpr fun _ htimestamp => absurd htimestamp hwrapper
  have hresolved : Translation.Returns (resolveOperand evaluation b context
      (wrapper = .timestamp) other) fun operand => ∃ v subMillisecond,
        operand = .value v subMillisecond ∧
        (wrapper = .timestamp → subMillisecond = isSubMillisecond other) ∧
        (wrapper ≠ .timestamp → subMillisecond = false) := by
    by_cases hwrapper : wrapper = .timestamp
    · rw [decide_eq_true hwrapper]
      refine (returns_resolveInstant hother harith).imp fun operand hoperand => ?_
      obtain ⟨v, rfl⟩ := hoperand
      exact ⟨v, _, rfl, fun _ => rfl, fun hcast => absurd hwrapper hcast⟩
    · rw [decide_eq_false hwrapper]
      refine (returns_resolveConstant hb hother).imp fun operand hoperand => ?_
      obtain ⟨v, rfl, -⟩ := hoperand
      exact ⟨v, false, rfl, fun htimestamp => absurd htimestamp hwrapper, fun _ => rfl⟩
  have hallow : isColumnOperand (readNode (some wrapper) name) = decide (wrapper = .timestamp) := by
    cases wrapper <;> rfl
  rw [compareResolved]
  refine (Translation.Returns.trivial _).bind fun _ _ => ?_
  refine (Translation.Returns.trivial _).bind fun _ _ => ?_
  cases computedFirst with
  | true =>
      simp only [if_true, hallow, hcolumnOther, Bool.bne_false]
      refine (hread _).bind fun operand hoperand => ?_
      subst hoperand
      refine hresolved.bind fun operand hoperand => ?_
      obtain ⟨v, subMillisecond, rfl, htimestamp, hcast⟩ := hoperand
      exact hbuilt htimestamp hcast
  | false =>
      simp only [Bool.false_eq_true, if_false, hallow, hcolumnOther, Bool.false_bne]
      refine hresolved.bind fun operand hoperand => ?_
      obtain ⟨v, subMillisecond, rfl, htimestamp, hcast⟩ := hoperand
      refine (hread _).bind fun operand hoperand => ?_
      subst hoperand
      rw [hmirrored]
      exact hbuilt htimestamp hcast

end Refused

/-- The size of a relation is compared by whether related records exist. -/
theorem relationSizeFilter_decided {predicate : CountPredicate} {hops : List RelationConfig}
    {deepest : RelationConfig} {filter : PrismaFilter}
    (h : relationSizeFilter operator predicate hops deepest = .ok filter) :
    Undecided engine store r False filter := by
  rw [relationSizeFilter] at h
  split at h
  next hhops =>
    obtain rfl := Except.ok.inj h
    cases hops with
    | nil => simp at hhops
    | cons hop hops =>
        refine ⟨?_, iff_false_intro (truth_ne_unknown_of_relations (List.cons_ne_nil _ _))⟩
        rw [wrapInRelations, List.foldr_cons]
        exact relationFilter_isEmpty _ _
  next =>
    split at h
    next => cases h
    next =>
      obtain rfl := Except.ok.inj h
      refine ⟨wrapInRelations_isEmpty (relationFilter_isEmpty _ _), iff_false_intro ?_⟩
      cases hops with
      | nil => exact truth_relationFilter_ne_unknown _ _ _
      | cons hop hops => exact truth_ne_unknown_of_relations (List.cons_ne_nil _ _)

/-- A size of something else than a string column reaches through a relation. -/
theorem returns_sizeComparison (hname : (resolveFieldReference name context).result = fieldRef)
    (hcolumn : NullColumn store r fieldRef field)
    (hlike : ∀ pattern, engine.like .null pattern = .unknown) (v : Literal) :
    Translation.Returns
      (handleSizeComparison buildStringLengthFilter operator (.var name) (.value v) context)
      (Undecided engine store r fieldRef.IsDirect) := by
  have hread : Translation.Returns (Prisma.reading (resolveFieldReference name context))
      fun resolved => resolved = fieldRef := .reading hname
  cases v with
  | number n =>
      rw [handleSizeComparison]
      split
      · exact .throw _
      · refine hread.bind fun resolved hresolved => ?_
        subst hresolved
        cases hrelations : (resolved.relations.getD []).getLast? with
        | none =>
            simp only
            split
            · exact .lift (hcolumn.buildStringLengthFilter hlike _)
            · exact .throw _
        | some deepest =>
            have hne : resolved.relations.getD [] ≠ [] := by
              intro hnil
              rw [hnil] at hrelations
              cases hrelations
            refine .lift fun filter hfilter => ?_
            exact Undecided.congr (relationSizeFilter_decided hfilter) (iff_of_false id hne)
  | _ => exact .throw _

/-- What the dispatch makes of an operand that is no fold and no index. -/
theorem returns_compareComputed (hb : RefusesFunctions b context) {c : ComputedComparison}
    (hname : (resolveFieldReference c.name context).result = fieldRef)
    (hcolumn : NullColumn store r fieldRef field)
    (hexplicit : isExplicitNullReference fieldRef = true) (hequality : operator.isOrdering = false)
    (hlike : ∀ pattern, engine.like .null pattern = .unknown)
    (hother : IsConstant c.other) (hsolvable : c.operand.IsSolvable)
    (hupper : isUpperAscii (c.operand.node c.name) = false)
    (hlookup : isMapLiteralLookup (c.operand.node c.name) = false) (negated first : Bool)
    (hfirst : first = false → c.other.isValue = false) :
    Translation.Returns (compareComputed b evaluation operator
      (if first then c.operand.node c.name else c.other)
      (if first then c.other else c.operand.node c.name) context)
      (Undecided engine store r (fieldRef.IsDirect ∧ c.KeepsError evaluation negated)) := by
  obtain ⟨isEqual, computedFirst, operand, name, other⟩ := c
  cases operand with
  | upperAscii => cases hupper
  | lookup fields => cases hlookup
  | size =>
      cases first with
      | true =>
          cases other with
          | value v =>
              refine (returns_sizeComparison hname hcolumn hlike v).imp fun filter hfilter => ?_
              exact hfilter.congr (and_true _).symm.to_iff
          | var _ => cases hother
          | expression _ _ => exact .throw _
      | false =>
          cases hother with
          | value v => cases hfirst rfl
          | timestamp text =>
              have hresolved : Translation.Returns (compareResolved b evaluation operator
                  (.expression .timestamp [.value (.string text)]) (.expression .size [.var name])
                  context) fun _ => False := by
                rw [compareResolved]
                refine (Translation.Returns.trivial _).bind fun _ _ => ?_
                refine (Translation.Returns.trivial _).bind fun _ _ => ?_
                refine (Translation.Returns.trivial _).bind fun _ _ => ?_
                exact (returns_resolveSize hb _ _).bind fun _ h => h.elim
              exact hresolved.elim
          | @arithmetic arithOp a a' h ha ha' =>
              have hdispatch : compareComputed b evaluation operator (.expression arithOp [a, a'])
                  (.expression .size [.var name]) context =
                    handleArithmeticComparison b evaluation operator arithOp [a, a']
                      (.expression .size [.var name]) true context := by
                obtain rfl | rfl | rfl | rfl := isArithmetic_cases h <;> rfl
              exact (hdispatch ▸ returns_arithmeticOfSize hb _).elim
  | wrapped wrapper =>
      have hresolved : isArithmetic (operatorOf other) = false →
          Translation.Returns (compareResolved b evaluation operator
            (if first then readNode (some wrapper) name else other)
            (if first then other else readNode (some wrapper) name) context)
            (Undecided engine store r (fieldRef.IsDirect ∧
              ComputedComparison.KeepsError evaluation negated
                ⟨isEqual, computedFirst, .wrapped wrapper, name, other⟩)) := by
        intro harith
        refine (returns_compareResolved hb hname hcolumn hexplicit hequality hother harith wrapper
          first).imp fun filter hfilter => hfilter.congr (and_congr_right fun _ => ?_)
        cases wrapper with
        | timestamp => exact ⟨fun hsub => hsub rfl, fun hsub _ => hsub⟩
        | string | double => exact iff_of_true (fun heq => by cases heq) trivial
      cases hother with
      | value v =>
          have hdispatch : compareComputed b evaluation operator
              (if first then readNode (some wrapper) name else .value v)
              (if first then .value v else readNode (some wrapper) name) context =
                compareResolved b evaluation operator
                  (if first then readNode (some wrapper) name else .value v)
                  (if first then .value v else readNode (some wrapper) name) context := by
            cases first <;> cases wrapper <;> rfl
          exact hdispatch ▸ hresolved rfl
      | timestamp text =>
          have hdispatch : compareComputed b evaluation operator
              (if first then readNode (some wrapper) name
                else .expression .timestamp [.value (.string text)])
              (if first then .expression .timestamp [.value (.string text)]
                else readNode (some wrapper) name) context =
                compareResolved b evaluation operator
                  (if first then readNode (some wrapper) name
                    else .expression .timestamp [.value (.string text)])
                  (if first then .expression .timestamp [.value (.string text)]
                    else readNode (some wrapper) name) context := by
            cases first <;> cases wrapper <;> rfl
          exact hdispatch ▸ hresolved rfl
      | @arithmetic arithOp a a' h ha ha' =>
          have hdispatch : compareComputed b evaluation operator
              (if first then readNode (some wrapper) name else .expression arithOp [a, a'])
              (if first then .expression arithOp [a, a'] else readNode (some wrapper) name) context =
                handleArithmeticComparison b evaluation operator arithOp [a, a']
                  (readNode (some wrapper) name) (!first) context := by
            obtain rfl | rfl | rfl | rfl := isArithmetic_cases h <;> cases first <;>
              cases wrapper <;> rfl
          have hfolded : Translation.Returns (handleArithmeticComparison b evaluation operator arithOp
              [a, a'] (readNode (some wrapper) name) (!first) context)
              (Undecided engine store r (fieldRef.IsDirect ∧
                ComputedComparison.KeepsError evaluation negated
                  ⟨isEqual, computedFirst, .wrapped wrapper, name, .expression arithOp [a, a']⟩)) := by
            refine (returns_foldedArithmetic hb hname hcolumn hexplicit hequality ha ha' wrapper).imp
              fun filter hfilter => hfilter.congr (and_congr_right fun _ => ?_)
            cases wrapper with
            | timestamp =>
                refine iff_of_false (fun hne => hne rfl) ?_
                obtain rfl | rfl | rfl | rfl := isArithmetic_cases h <;> exact Bool.false_ne_true
            | string | double => exact iff_of_true (fun heq => by cases heq) trivial
          exact hdispatch ▸ hfolded
  | arithmetic arithOp columnIsLeft wrapper constant =>
      obtain ⟨harith, hconstant⟩ := hsolvable
      have hnode : (ComputedOperand.arithmetic arithOp columnIsLeft wrapper constant).node name =
          .expression arithOp (arithmeticOperands columnIsLeft wrapper name constant) := by
        cases columnIsLeft <;> rfl
      have hsolved : Translation.Returns (handleArithmeticComparison b evaluation operator arithOp
          (arithmeticOperands columnIsLeft wrapper name constant) other first context)
          (Undecided engine store r (fieldRef.IsDirect ∧
            ComputedComparison.KeepsError evaluation negated
              ⟨isEqual, computedFirst, .arithmetic arithOp columnIsLeft wrapper constant, name,
                other⟩)) := by
        refine (returns_solvedArithmetic hb hname hcolumn hexplicit hconstant hother columnIsLeft
          wrapper).imp fun filter hfilter => hfilter.congr (and_congr_right fun _ => ?_)
        cases wrapper with
        | none => exact ⟨fun h => h rfl, fun h _ => h⟩
        | some wrapper =>
            cases wrapper with
            | timestamp => exact ⟨fun h => h rfl, fun h _ => h⟩
            | string | double => exact iff_of_true (fun heq => by cases heq) trivial
      rw [hnode]
      cases first with
      | true =>
          have hdispatch : compareComputed b evaluation operator
              (.expression arithOp (arithmeticOperands columnIsLeft wrapper name constant)) other
              context = handleArithmeticComparison b evaluation operator arithOp
                (arithmeticOperands columnIsLeft wrapper name constant) other true context := by
            obtain rfl | rfl | rfl | rfl := isArithmetic_cases harith <;> rfl
          exact hdispatch ▸ hsolved
      | false =>
          cases hother with
          | value v => cases hfirst rfl
          | timestamp text =>
              have hdispatch : compareComputed b evaluation operator
                  (.expression .timestamp [.value (.string text)])
                  (.expression arithOp (arithmeticOperands columnIsLeft wrapper name constant))
                  context = handleArithmeticComparison b evaluation operator arithOp
                    (arithmeticOperands columnIsLeft wrapper name constant)
                    (.expression .timestamp [.value (.string text)]) false context := by
                obtain rfl | rfl | rfl | rfl := isArithmetic_cases harith <;> rfl
              exact hdispatch ▸ hsolved
          | @arithmetic otherOp a a' h ha ha' =>
              have hdispatch : compareComputed b evaluation operator (.expression otherOp [a, a'])
                  (.expression arithOp (arithmeticOperands columnIsLeft wrapper name constant))
                  context = handleArithmeticComparison b evaluation operator otherOp [a, a']
                    (.expression arithOp (arithmeticOperands columnIsLeft wrapper name constant))
                    true context := by
                obtain rfl | rfl | rfl | rfl := isArithmetic_cases h <;> rfl
              exact (hdispatch ▸ returns_arithmeticOnBothSides hb hconstant harith columnIsLeft
                wrapper).elim

/-- An IN over texts, which is FALSE when there are none. -/
theorem NullColumn.buildIn (h : NullColumn store r fieldRef field) (texts : List String) :
    (Prisma.buildFieldFilter fieldRef .in (.array (texts.map .string))).Returns
      (Undecided engine store r (fieldRef.IsDirect ∧ texts ≠ [])) := by
  by_cases hnil : texts = []
  · intro filter hfilter
    rw [Prisma.buildFieldFilter, h.getLeafField] at hfilter
    obtain rfl := Except.ok.inj hfilter
    refine ⟨wrapInRelations_isEmpty rfl, iff_of_false ?_ fun h => h.2 hnil⟩
    by_cases hdirect : fieldRef.relations.getD [] = []
    · rw [hdirect, wrapInRelations, List.foldr_nil, PrismaFilter.truth_field, h.isNull hdirect,
        fieldTruth_in_null, if_pos hnil]
      exact Truth.noConfusion
    · exact truth_ne_unknown_of_relations hdirect
  · have hleaf : fieldTruth engine .in .null (.array (texts.map .string)) = .unknown := by
      rw [fieldTruth_in_null, if_neg hnil]
    refine (h.buildFieldFilter hleaf).imp fun filter hclauses => ?_
    exact hclauses.undecided.congr (iff_self_and.mpr fun _ => hnil)

/-- The IN over the spellings of a literal. -/
theorem returns_upperAscii {c : ComputedComparison} {planOperator : PlanOperator}
    (hname : (resolveFieldReference c.name context).result = fieldRef)
    (hcolumn : NullColumn store r fieldRef field) (hoperand : c.operand = .upperAscii)
    (hother : IsConstant c.other) (negated : Bool) :
    Translation.Returns (tryHandleUpperAsciiComparison planOperator c.operands context)
      (Undecided engine store r (fieldRef.IsDirect ∧ c.KeepsError evaluation negated)) := by
  obtain ⟨isEqual, computedFirst, operand, name, other⟩ := c
  obtain rfl : operand = .upperAscii := hoperand
  have hread : Translation.Returns (Prisma.reading (resolveFieldReference name context))
      fun resolved => resolved = fieldRef := .reading hname
  have hliteral : ∀ literal : String, Translation.Returns (do
      let fieldRef ← Prisma.reading (resolveFieldReference name context)
      assertStringField fieldRef "upperAscii"
      recordErroringNullElement context name fieldRef
      let spellings ← upperAsciiSpellings literal
      let filter ← buildFieldFilter fieldRef .in (.array (spellings.map .string))
      return if planOperator = .eq then filter else .NOT filter)
      (Undecided engine store r (fieldRef.IsDirect ∧
        ∀ d ∈ literal.toList, isFolded false d = false)) := by
    intro literal
    refine hread.bind fun resolved hresolved => ?_
    subst hresolved
    refine (Translation.Returns.trivial _).bind fun _ _ => ?_
    refine (Translation.Returns.trivial _).bind fun _ _ => ?_
    have hspellings : Translation.Returns (liftM (upperAsciiSpellings literal))
        fun texts => upperAsciiSpellings literal = .ok texts := .lift fun texts htexts => htexts
    refine hspellings.bind fun texts htexts => ?_
    have hspelt : (∀ d ∈ literal.toList, isFolded false d = false) ↔ texts ≠ [] := by
      rw [Ne, (upperAsciiSpellings_enumerates htexts).eq_nil_iff]
      simp
    rw [hspelt]
    refine Translation.Returns.bind (Q := Undecided engine store r (resolved.IsDirect ∧ texts ≠ []))
      (.lift (hcolumn.buildIn texts)) fun filter hundecided => ?_
    refine .pure ?_
    split
    · exact hundecided
    · exact hundecided.not
  cases hother with
  | value v =>
      cases v with
      | string literal =>
          have hrun : tryHandleUpperAsciiComparison planOperator
              (ComputedComparison.operands
                ⟨isEqual, computedFirst, .upperAscii, name, .value (.string literal)⟩) context = (do
              let fieldRef ← Prisma.reading (resolveFieldReference name context)
              assertStringField fieldRef "upperAscii"
              recordErroringNullElement context name fieldRef
              let spellings ← upperAsciiSpellings literal
              let filter ← buildFieldFilter fieldRef .in (.array (spellings.map .string))
              return if planOperator = .eq then filter else .NOT filter) := by
            cases computedFirst <;> rfl
          rw [hrun]
          refine (hliteral literal).imp fun filter hfilter => hfilter.congr (and_congr_right fun _ => ?_)
          constructor
          · rintro hraised text htext
            cases htext
            exact hraised
          · exact fun h => h literal rfl
      | _ => cases computedFirst <;> exact .throw _
  | timestamp text => cases computedFirst <;> exact .throw _
  | @arithmetic arithOp a a' h ha ha' =>
      obtain rfl | rfl | rfl | rfl := isArithmetic_cases h <;> cases computedFirst <;> exact .throw _

/-- The IN over the keys of a map literal. -/
theorem returns_lookup {c : ComputedComparison}
    (hname : (resolveFieldReference c.name context).result = fieldRef)
    (hcolumn : NullColumn store r fieldRef field) {fields : List Node}
    (hoperand : c.operand = .lookup fields) (hother : IsConstant c.other) (negated : Bool) :
    Translation.Returns
      (tryHandleMapLiteralLookup (comparisonNode c.operator) c.operands context negated)
      (Undecided engine store r (fieldRef.IsDirect ∧ c.KeepsError evaluation negated)) := by
  obtain ⟨isEqual, computedFirst, operand, name, other⟩ := c
  obtain rfl : operand = .lookup fields := hoperand
  have hlookup : lookupOperands (ComputedComparison.operands
      ⟨isEqual, computedFirst, .lookup fields, name, other⟩) =
        some (PlanValue.object <$> literalFields [] fields, .var name, other) := by
    have hnot : isMapLiteralLookup other = false := by
      cases hother with
      | value v => rfl
      | timestamp text => rfl
      | arithmetic h _ _ => obtain rfl | rfl | rfl | rfl := isArithmetic_cases h <;> rfl
    cases computedFirst with
    | true => rfl
    | false =>
        show lookupOperands [other, ComputedOperand.node name (.lookup fields)] = _
        rw [lookupOperands, hnot]
        rfl
  have hread : Translation.Returns (Prisma.reading (resolveFieldReference name context))
      fun resolved => resolved = fieldRef := .reading hname
  rw [tryHandleMapLiteralLookup.eq_def, hlookup]
  cases hother with
  | timestamp text => cases literalFields [] fields <;> exact .throw _
  | arithmetic h _ _ => cases literalFields [] fields <;> exact .throw _
  | value v =>
      cases hmap : literalFields [] fields with
      | none => exact .throw _
      | some map =>
          simp only [Option.map_eq_map, Option.map_some]
          split
          · exact .throw _
          · refine hread.bind fun resolved hresolved => ?_
            subst hresolved
            split
            · exact .throw _
            · have hholds : (decide (comparisonNode (ComputedComparison.operator
                  ⟨isEqual, computedFirst, .lookup fields, name, .value v⟩) = .eq) != negated) =
                    (isEqual != negated) := by
                cases isEqual <;> rfl
              have hkeys : ((if isEqual != negated then
                    (map.partition fun field => areValuesEqual field.2 v).1
                  else (map.partition fun field => areValuesEqual field.2 v).2).map
                    fun field => PlanValue.string field.1) =
                  ((map.filter fun field => areValuesEqual field.2 v == (isEqual != negated)).map
                    (·.1)).map (PlanValue.string (ν := Double)) := by
                rw [List.map_map, List.partition_eq_filter_filter]
                cases isEqual != negated with
                | true => simp [Function.comp_def]
                | false => simp [Function.comp_def]
              simp only [hholds, hkeys]
              refine .lift fun filter hfilter => ?_
              refine Undecided.congr (hcolumn.buildIn _ filter hfilter) (and_congr_right fun _ => ?_)
              constructor
              · rintro hne map' v' hmap' hv
                cases hv
                obtain rfl := Option.some.inj (hmap.symm.trans hmap')
                obtain ⟨key, hkey⟩ := List.exists_mem_of_ne_nil _ hne
                obtain ⟨field, hfield, rfl⟩ := List.mem_map.mp hkey
                obtain ⟨hmem, hequal⟩ := List.mem_filter.mp hfield
                exact ⟨field, hmem, by simpa using hequal⟩
              · intro hkeeps hnil
                obtain ⟨field, hmem, hequal⟩ := hkeeps map v hmap rfl
                refine List.not_mem_nil (hnil ▸ List.mem_map.mpr ⟨field,
                  List.mem_filter.mpr ⟨hmem, ?_⟩, rfl⟩ : field.1 ∈ [])
                exact beq_iff_eq.mpr hequal

end Arithmetic

/-! ## Translations -/

section Translations

variable [Double.Rounding] {ρ : Type} {engine : Engine} {store : Store ρ} {r : ρ}
  {evaluation : ConstantEvaluation} {handlers : Builder → Builder} {context : TranslationContext}
  {fieldRef : ResolvedFieldReference} {field : String} {c : ComputedComparison}

/-- The builder of comparisons and memberships. -/
def comparisonBuilder (evaluation : ConstantEvaluation) (handlers : Builder → Builder)
    (fuel : Nat) : Builder :=
  recursiveBuilder (withMembership evaluation (withComparisons evaluation handlers)) fuel

theorem refusesFunctions (fuel : Nat) :
    RefusesFunctions (comparisonBuilder evaluation handlers fuel) context := by
  intro operator operands hfunction
  cases fuel with
  | zero => exact .throw _
  | succ fuel =>
      have hstep : (comparisonBuilder evaluation handlers (fuel + 1)).positive
          (.expression operator operands) context =
            (comparisonBuilder evaluation handlers fuel).other operator operands context := by
        obtain rfl | rfl | rfl | rfl | rfl | rfl | rfl := isFunction_cases hfunction <;> rfl
      rw [hstep]
      cases fuel with
      | zero => exact .throw _
      | succ fuel =>
          obtain rfl | rfl | rfl | rfl | rfl | rfl | rfl := isFunction_cases hfunction <;>
            exact .throw _

/-- No operand is a ternary. -/
theorem isTernary_constant {node : Node} (h : IsConstant node) : isTernary node = false := by
  cases h with
  | value v => rfl
  | timestamp text => rfl
  | arithmetic h _ _ => obtain rfl | rfl | rfl | rfl := isArithmetic_cases h <;> rfl

theorem isMapLiteralLookup_constant {node : Node} (h : IsConstant node) :
    isMapLiteralLookup node = false := by
  cases h with
  | value v => rfl
  | timestamp text => rfl
  | arithmetic h _ _ => obtain rfl | rfl | rfl | rfl := isArithmetic_cases h <;> rfl

theorem isUpperAscii_constant {node : Node} (h : IsConstant node) : isUpperAscii node = false := by
  cases h with
  | value v => rfl
  | timestamp text => rfl
  | arithmetic h _ _ => obtain rfl | rfl | rfl | rfl := isArithmetic_cases h <;> rfl

theorem isTernary_computed (hsolvable : c.operand.IsSolvable) :
    isTernary (c.operand.node c.name) = false := by
  obtain ⟨isEqual, computedFirst, operand, name, other⟩ := c
  cases operand with
  | wrapped wrapper => cases wrapper <;> rfl
  | arithmetic arithOp columnIsLeft wrapper constant =>
      obtain rfl | rfl | rfl | rfl := isArithmetic_cases hsolvable.1 <;> cases columnIsLeft <;> rfl
  | _ => rfl

theorem lookup_of_isMapLiteralLookup (hsolvable : c.operand.IsSolvable)
    (h : isMapLiteralLookup (c.operand.node c.name) = true) : ∃ fields, c.operand = .lookup fields := by
  obtain ⟨isEqual, computedFirst, operand, name, other⟩ := c
  cases operand with
  | lookup fields => exact ⟨fields, rfl⟩
  | wrapped wrapper => cases wrapper <;> cases h
  | arithmetic arithOp columnIsLeft wrapper constant =>
      obtain rfl | rfl | rfl | rfl := isArithmetic_cases hsolvable.1 <;> cases columnIsLeft <;> cases h
  | _ => cases h

theorem upperAscii_of_isUpperAscii (hsolvable : c.operand.IsSolvable)
    (h : isUpperAscii (c.operand.node c.name) = true) : c.operand = .upperAscii := by
  obtain ⟨isEqual, computedFirst, operand, name, other⟩ := c
  cases operand with
  | upperAscii => rfl
  | wrapped wrapper => cases wrapper <;> cases h
  | arithmetic arithOp columnIsLeft wrapper constant =>
      obtain rfl | rfl | rfl | rfl := isArithmetic_cases hsolvable.1 <;> cases columnIsLeft <;> cases h
  | _ => cases h

theorem isTernaryComparison_computed (hother : IsConstant c.other)
    (hsolvable : c.operand.IsSolvable) :
    isTernaryComparison (comparisonNode c.operator) c.operands = false := by
  have hany : c.operands.any isTernary = false := by
    rw [ComputedComparison.operands]
    split <;> simp [isTernary_constant hother, isTernary_computed hsolvable]
  rw [isTernaryComparison, hany, Bool.and_false]

theorem isEqualityOver_computed (shape : Node → Bool) (hother : shape c.other = false) :
    isEqualityOver shape (comparisonNode c.operator) c.operands =
      shape (c.operand.node c.name) := by
  obtain ⟨isEqual, computedFirst, operand, name, other⟩ := c
  have hany : ∀ first second : Node, isEqualityOver shape
      (comparisonNode (ComputedComparison.operator ⟨isEqual, computedFirst, operand, name, other⟩))
      [first, second] = (shape first || shape second) := by
    intro first second
    cases isEqual <;> simp [isEqualityOver, ComputedComparison.operator, comparisonNode]
  cases computedFirst with
  | true => exact (hany _ _).trans (by rw [hother, Bool.or_false])
  | false => exact (hany _ _).trans (by rw [hother, Bool.false_or])

/-- Neither a ternary, nor a map lookup, nor `upperAscii`, with an expression found first. -/
theorem relationalOperator_expression (b : Builder) (context : TranslationContext)
    {operator : PlanOperator} {comparison normalized : ComparisonOperator} {operands ordered : List Node}
    {inner : PlanOperator} {parts : List Node} {right : Node}
    (hternary : isTernaryComparison operator operands = false)
    (hlookup : isEqualityOver isMapLiteralLookup operator operands = false)
    (hupper : isEqualityOver isUpperAscii operator operands = false)
    (hnormal : normalizeBinaryOperands comparison operands = (normalized, ordered))
    (hcompared : Builder.comparedOperands ordered = .ok (.expression inner parts, right)) :
    b.relationalOperator operator comparison operands context =
      b.computedComparison normalized (.expression inner parts) right context := by
  rw [Builder.relationalOperator, hternary, hlookup, hupper, hnormal]
  simp only [Bool.false_eq_true, if_false, hcompared]
  rfl

/-- The comparison with its computed operand found. -/
theorem relationalOperator_computed (b : Builder) (context : TranslationContext)
    (hother : IsConstant c.other)
    (hsolvable : c.operand.IsSolvable)
    (hupper : isUpperAscii (c.operand.node c.name) = false)
    (hlookup : isMapLiteralLookup (c.operand.node c.name) = false) :
    ∃ first, (first = false → c.other.isValue = false) ∧
      b.relationalOperator (comparisonNode c.operator) c.operator c.operands context =
        b.computedComparison c.operator (if first then c.operand.node c.name else c.other)
          (if first then c.other else c.operand.node c.name) context := by
  have hternary := isTernaryComparison_computed hother hsolvable
  have hmap := isEqualityOver_computed (c := c) _ (isMapLiteralLookup_constant hother)
  rw [hlookup] at hmap
  have hfold := isEqualityOver_computed (c := c) _ (isUpperAscii_constant hother)
  rw [hupper] at hfold
  obtain ⟨isEqual, computedFirst, operand, name, other⟩ := c
  have hexpression : ∃ operator operands, operand.node name = .expression operator operands := by
    cases operand with
    | wrapped wrapper => exact ⟨_, _, rfl⟩
    | arithmetic arithOp columnIsLeft wrapper constant => cases columnIsLeft <;> exact ⟨_, _, rfl⟩
    | _ => exact ⟨_, _, rfl⟩
  obtain ⟨operator, operands, hnode⟩ := hexpression
  simp only [ComputedComparison.operands, hnode] at hternary hmap hfold ⊢
  cases computedFirst with
  | true =>
      refine ⟨true, fun h => (Bool.noConfusion h), ?_⟩
      exact relationalOperator_expression b context hternary hmap hfold rfl (by cases other <;> rfl)
  | false =>
      cases other with
      | value v =>
          refine ⟨true, fun h => (Bool.noConfusion h), ?_⟩
          have hnormal : normalizeBinaryOperands
              (ComputedComparison.operator ⟨isEqual, false, operand, name, .value v⟩)
              [.value v, .expression operator operands] =
                (ComputedComparison.operator ⟨isEqual, false, operand, name, .value v⟩,
                  [.expression operator operands, .value v]) := by
            cases isEqual <;> rfl
          exact relationalOperator_expression b context hternary hmap hfold hnormal rfl
      | var name => cases hother
      | expression operator operands =>
          exact ⟨false, fun _ => rfl,
            relationalOperator_expression b context hternary hmap hfold rfl rfl⟩

/-- The filter of a comparison. -/
theorem returns_positive (fuel : Nat)
    (hname : (resolveFieldReference c.name context).result = fieldRef)
    (hcolumn : NullColumn store r fieldRef field)
    (hexplicit : isExplicitNullReference fieldRef = true)
    (hlike : ∀ pattern, engine.like .null pattern = .unknown)
    (hother : IsConstant c.other) (hsolvable : c.operand.IsSolvable) :
    Translation.Returns ((comparisonBuilder evaluation handlers fuel).positive c.node context)
      (Undecided engine store r (fieldRef.IsDirect ∧ c.KeepsError evaluation false)) := by
  cases fuel with
  | zero => exact .throw _
  | succ fuel =>
    have hstep : (comparisonBuilder evaluation handlers (fuel + 1)).positive c.node context =
        (comparisonBuilder evaluation handlers fuel).relationalOperator (comparisonNode c.operator)
          c.operator c.operands context := by
      obtain ⟨isEqual, computedFirst, operand, name, other⟩ := c
      cases isEqual <;> rfl
    rw [hstep]
    cases hlookup : isMapLiteralLookup (c.operand.node c.name) with
    | true =>
        obtain ⟨fields, hoperand⟩ := lookup_of_isMapLiteralLookup hsolvable hlookup
        rw [Builder.relationalOperator, isTernaryComparison_computed hother hsolvable,
          isEqualityOver_computed _ (isMapLiteralLookup_constant hother), hlookup]
        cases fuel with
        | zero => exact .throw _
        | succ fuel => exact returns_lookup hname hcolumn hoperand hother false
    | false =>
        cases hupper : isUpperAscii (c.operand.node c.name) with
        | true =>
            have hoperand := upperAscii_of_isUpperAscii hsolvable hupper
            rw [Builder.relationalOperator, isTernaryComparison_computed hother hsolvable,
              isEqualityOver_computed _ (isMapLiteralLookup_constant hother), hlookup,
              isEqualityOver_computed _ (isUpperAscii_constant hother), hupper]
            cases fuel with
            | zero => exact .throw _
            | succ fuel => exact returns_upperAscii hname hcolumn hoperand hother false
        | false =>
            obtain ⟨first, hfirst, hrun⟩ :=
              relationalOperator_computed (comparisonBuilder evaluation handlers fuel) context hother
                hsolvable hupper hlookup
            have hequality : c.operator.isOrdering = false := by
              rw [ComputedComparison.operator]
              split <;> rfl
            rw [hrun]
            cases fuel with
            | zero => exact .throw _
            | succ fuel =>
                exact returns_compareComputed (refusesFunctions fuel) hname hcolumn hexplicit
                  hequality hlike hother hsolvable hupper hlookup false first hfirst

theorem visitedReferences_constant {node : Node} (h : IsConstant node) :
    visitedReferences node = [] := by
  induction h with
  | value v => rfl
  | timestamp text => rfl
  | arithmetic h _ _ ihfirst ihsecond =>
      obtain rfl | rfl | rfl | rfl := isArithmetic_cases h <;>
        simp [visitedReferences, visitedReferencesEach, ihfirst, ihsecond]

theorem visitedReferences_computed (hother : IsConstant c.other) (hsolvable : c.operand.IsSolvable)
    (hlookup : isMapLiteralLookup (c.operand.node c.name) = false) :
    visitedReferences c.node = [c.name] := by
  obtain ⟨isEqual, computedFirst, operand, name, other⟩ := c
  have hoperand : visitedReferences (operand.node name) = [name] := by
    cases operand with
    | wrapped wrapper => cases wrapper <;> rfl
    | arithmetic arithOp columnIsLeft wrapper constant =>
        have hread : visitedReferences (readNode wrapper name) = [name] := by
          cases wrapper with
          | none => rfl
          | some wrapper => cases wrapper <;> rfl
        have hconstant := visitedReferences_constant hsolvable.2
        obtain rfl | rfl | rfl | rfl := isArithmetic_cases hsolvable.1 <;> cases columnIsLeft <;>
          simp [ComputedOperand.node, visitedReferences, visitedReferencesEach, hread, hconstant]
    | upperAscii => rfl
    | size => rfl
    | lookup fields => cases hlookup
  have hconstant := visitedReferences_constant hother
  cases isEqual <;> cases computedFirst <;>
    simp [ComputedComparison.node, ComputedComparison.operator, ComputedComparison.operands,
      comparisonNode, visitedReferences, visitedReferencesEach, hoperand, hconstant]

/-- The negation is a NOT, with the hops that lead to the column required. -/
theorem undecided_negation {relations : List RelationConfig} {positive : PrismaFilter}
    {condition : Prop} (h : Undecided engine store r condition positive)
    (hdirect : condition → relations = []) :
    Undecided engine store r condition
      ((buildHopsExistFilter (requiredHops relations)).elim (.NOT positive) fun hops =>
        .AND [hops, .NOT positive]) := by
  cases hhops : buildHopsExistFilter (requiredHops relations) with
  | none => exact h.not
  | some hops =>
      have hrelations : requiredHops relations ≠ [] := by
        intro hnil
        rw [hnil] at hhops
        cases hhops
      have hnot : ¬ condition := by
        intro hcondition
        rw [hdirect hcondition] at hrelations
        exact hrelations rfl
      rw [buildHopsExistFilter, if_neg (by simpa using hrelations)] at hhops
      obtain rfl := Option.some.inj hhops
      refine ⟨rfl, iff_of_false ?_ hnot⟩
      have hhop : (wrapInRelations (requiredHops relations) .empty).truth engine store r ≠ .unknown :=
        truth_ne_unknown_of_relations hrelations
      have hpositive : positive.truth engine store r ≠ .unknown := fun hu => hnot (h.2.mp hu)
      rw [Option.elim_some, PrismaFilter.truth_AND, List.map_cons, List.map_cons, List.map_nil,
        PrismaFilter.truth_NOT h.1]
      revert hhop hpositive
      cases (wrapInRelations (requiredHops relations) .empty).truth engine store r <;>
        cases positive.truth engine store r <;> simp [Truth.all]

theorem keepsError_polarity (evaluation : ConstantEvaluation) (hsolvable : c.operand.IsSolvable)
    (hlookup : isMapLiteralLookup (c.operand.node c.name) = false) :
    c.KeepsError evaluation true = c.KeepsError evaluation false := by
  obtain ⟨isEqual, computedFirst, operand, name, other⟩ := c
  cases operand with
  | lookup fields => cases hlookup
  | wrapped wrapper => cases wrapper <;> rfl
  | arithmetic arithOp columnIsLeft wrapper constant =>
      cases wrapper with
      | none => rfl
      | some wrapper => cases wrapper <;> rfl
  | _ => rfl

theorem negativeStep_equality (b : Builder) (context : TranslationContext) :
    b.negativeStep c.node context =
      if isTernaryComparison (comparisonNode c.operator) c.operands then
        b.ternaryComparison (comparisonNode c.operator) c.operands context true
      else if isEqualityOver isMapLiteralLookup (comparisonNode c.operator) c.operands then
        b.mapLiteralLookup (comparisonNode c.operator) c.operands context true
      else
        (if containsCollectionOperator c.node || containsMapLiteralLookup c.node then pure true
          else reading (referencesRequiredHop c.node context)) >>= fun pushes =>
            if !pushes then b.plainNegation c.node context
            else if containsMapLiteralLookup c.node then
              unsupported ("Cannot negate " ++ (comparisonNode c.operator).name ++ " over an index " ++
                "into a map literal: a missing key is an error under both polarities, and a NOT " ++
                "over its filter would select it")
            else b.plainNegation c.node context := by
  have hbind : ∀ (p : Prop) [Decidable p] (x y : Translation Bool)
      (k : Bool → Translation PrismaFilter),
      ((if p then x else y) >>= k) = if p then x >>= k else y >>= k := by
    intro p _ x y k
    split <;> rfl
  rw [hbind]
  obtain ⟨isEqual, computedFirst, operand, name, other⟩ := c
  cases isEqual <;> rfl

/-- The filter of the negation of a comparison. -/
theorem returns_negative (fuel : Nat)
    (hname : (resolveFieldReference c.name context).result = fieldRef)
    (hcolumn : NullColumn store r fieldRef field)
    (hexplicit : isExplicitNullReference fieldRef = true)
    (hlike : ∀ pattern, engine.like .null pattern = .unknown)
    (hother : IsConstant c.other) (hsolvable : c.operand.IsSolvable) :
    Translation.Returns ((comparisonBuilder evaluation handlers fuel).negative c.node context)
      (Undecided engine store r (fieldRef.IsDirect ∧ c.KeepsError evaluation true)) := by
  cases fuel with
  | zero => exact .throw _
  | succ fuel =>
    have hstep : (comparisonBuilder evaluation handlers (fuel + 1)).negative c.node context =
        (comparisonBuilder evaluation handlers fuel).negativeStep c.node context := rfl
    rw [hstep]
    cases hlookup : isMapLiteralLookup (c.operand.node c.name) with
    | true =>
        obtain ⟨fields, hoperand⟩ := lookup_of_isMapLiteralLookup hsolvable hlookup
        rw [negativeStep_equality, isTernaryComparison_computed hother hsolvable,
          isEqualityOver_computed _ (isMapLiteralLookup_constant hother), hlookup]
        cases fuel with
        | zero => exact .throw _
        | succ fuel => exact returns_lookup hname hcolumn hoperand hother true
    | false =>
        have hplain : Translation.Returns
            ((comparisonBuilder evaluation handlers fuel).plainNegation c.node context)
            (Undecided engine store r (fieldRef.IsDirect ∧ c.KeepsError evaluation true)) := by
          intro scopes run hrun
          obtain ⟨positive, middle, hpositive, -, hfilter, -⟩ :=
            (plainNegation_eq_ok_iff (visitedReferences_computed hother hsolvable hlookup)).mp hrun
          rw [keepsError_polarity evaluation hsolvable hlookup, hfilter, hname]
          refine undecided_negation ?_ fun h => h.1
          exact (returns_positive fuel hname hcolumn hexplicit hlike hother hsolvable
            scopes).of_run hpositive
        rw [negativeStep_equality, isTernaryComparison_computed hother hsolvable,
          isEqualityOver_computed _ (isMapLiteralLookup_constant hother), hlookup]
        refine Translation.Returns.bind (.trivial _) fun pushes _ => ?_
        cases pushes with
        | false => exact hplain
        | true =>
            simp only [Bool.not_true, Bool.false_eq_true, if_false]
            split
            · exact .throw _
            · exact hplain

end Translations

theorem handleInOperator_refused {b : Builder} {context : TranslationContext} {first second : Node}
    (hternary : [first, second].any isTernary = false)
    (h : first.isExpression = true ∨ second.isExpression = true) :
    Translation.Returns (handleInOperator b [first, second] context) fun _ => False := by
  rw [handleInOperator.eq_def, isTernaryComparison, hternary]
  cases first with
  | expression operator operands =>
      cases second with
      | expression operator' operands' => cases operator' <;> exact .throw _
      | _ => exact .throw _
  | _ =>
      cases second with
      | expression operator' operands' => cases operator' <;> exact .throw _
      | _ => simp [Operand.isExpression] at h

/-- No membership with a computed operand is translated. -/
theorem returns_membership [Double.Rounding] {evaluation : ConstantEvaluation}
    {handlers : Builder → Builder} {context : TranslationContext} {first second : Node}
    (hternary : [first, second].any isTernary = false)
    (h : first.isExpression = true ∨ second.isExpression = true) (negated : Bool) (fuel : Nat) :
    Translation.Returns ((comparisonBuilder evaluation handlers fuel).build negated
      (.expression .in [first, second]) context) fun _ => False := by
  have hpositive : ∀ fuel, Translation.Returns ((comparisonBuilder evaluation handlers fuel).positive
      (.expression .in [first, second]) context) fun _ => False := by
    intro fuel
    cases fuel with
    | zero => exact .throw _
    | succ fuel =>
        cases fuel with
        | zero => exact .throw _
        | succ fuel =>
            rw [comparisonBuilder, positive_in]
            exact handleInOperator_refused hternary h
  cases negated with
  | false => exact hpositive fuel
  | true =>
      cases fuel with
      | zero => exact .throw _
      | succ fuel =>
          have hplain : Translation.Returns ((comparisonBuilder evaluation handlers fuel).plainNegation
              (.expression .in [first, second]) context) fun _ => False :=
            (hpositive fuel).bind fun _ h => h.elim
          have hnegate : ∀ x : Translation Bool, Translation.Returns (x >>= fun pushes =>
              if !pushes then (comparisonBuilder evaluation handlers fuel).plainNegation
                (.expression .in [first, second]) context
              else if containsMapLiteralLookup (.expression .in [first, second]) then
                unsupported ("Cannot negate " ++ PlanOperator.name .in ++ " over an index into a " ++
                  "map literal: a missing key is an error under both polarities, and a NOT over " ++
                  "its filter would select it")
              else (comparisonBuilder evaluation handlers fuel).plainNegation
                (.expression .in [first, second]) context) fun _ => False := by
            intro x
            refine Translation.Returns.bind (.trivial x) fun pushes _ => ?_
            cases pushes with
            | false => exact hplain
            | true =>
                simp only [Bool.not_true, Bool.false_eq_true, if_false]
                split
                · exact .throw _
                · exact hplain
          have hstep : (comparisonBuilder evaluation handlers (fuel + 1)).build true
              (.expression .in [first, second]) context =
              (comparisonBuilder evaluation handlers fuel).negativeStep
                (.expression .in [first, second]) context := rfl
          rw [hstep, negativeStep_in, isTernaryComparison, hternary, Bool.and_false,
            if_neg Bool.false_ne_true]
          simp only
          split
          · exact hnegate _
          · exact hnegate _

/-- On a record where the column is NULL, the filter of a comparison, and that of its negation,
is UNKNOWN exactly when no relation leads to the column and the comparison does not make the
explicit null a value to compare with. A membership is refused. -/
theorem computedOperand_undecided_iff [Double.Rounding] {ρ : Type} (engine : Engine)
    (hlike : ∀ pattern, engine.like .null pattern = .unknown) (store : Store ρ)
    (evaluation : ConstantEvaluation) (handlers : Builder → Builder) (context : TranslationContext)
    (name : String) (operand : ComputedOperand) (hsolvable : operand.IsSolvable) (negated : Bool) :
    (∀ (c : ComputedComparison) (fieldRef : ResolvedFieldReference) (field : String) (r e : ρ)
        (fuel : Nat) (scopes scopes' : List ScopeRecord) (filter : PrismaFilter),
      c.operand = operand → c.name = name → IsConstant c.other →
      (resolveFieldReference name context).result = fieldRef →
      isExplicitNullReference fieldRef = true → getLeafField fieldRef.path = .ok field →
      reached engine store (fieldRef.relations.getD []) r = [e] → store.column e field = .null →
      (comparisonBuilder evaluation handlers fuel).build negated c.node context scopes =
        .ok (filter, scopes') →
        (filter.truth engine store r = .unknown ↔
          fieldRef.relations.getD [] = [] ∧ c.KeepsError evaluation negated)) ∧
    ∀ (other : Node) (computedFirst : Bool) (fuel : Nat) (scopes : List ScopeRecord)
        (run : PrismaFilter × List ScopeRecord),
      isTernary other = false →
      (comparisonBuilder evaluation handlers fuel).build negated
        (.expression .in (if computedFirst then [operand.node name, other]
          else [other, operand.node name])) context scopes ≠ .ok run := by
  constructor
  · rintro c fieldRef field r e fuel scopes scopes' filter rfl rfl hother hname hexplicit hfield
      hreached hnull hrun
    have hcolumn : NullColumn store r fieldRef field := by
      refine ⟨hfield, fun hdirect => ?_⟩
      rw [hdirect, reached] at hreached
      obtain rfl := List.singleton_inj.mp hreached
      exact hnull
    have hbuilt : Translation.Returns
        ((comparisonBuilder evaluation handlers fuel).build negated c.node context)
        (Undecided engine store r (fieldRef.IsDirect ∧ c.KeepsError evaluation negated)) := by
      cases negated with
      | true => exact returns_negative fuel hname hcolumn hexplicit hlike hother hsolvable
      | false => exact returns_positive fuel hname hcolumn hexplicit hlike hother hsolvable
    exact ((hbuilt scopes).of_run hrun).2
  · intro other computedFirst fuel scopes run hother hrun
    have hcomputed := isTernary_computed (c := ⟨true, true, operand, name, other⟩) hsolvable
    have hexpression : (operand.node name).isExpression = true := by
      cases operand with
      | arithmetic arithOp columnIsLeft wrapper constant => cases columnIsLeft <;> rfl
      | _ => rfl
    cases computedFirst with
    | true =>
        refine returns_membership ?_ (.inl hexpression) negated fuel scopes run hrun
        simp [hother, hcomputed]
    | false =>
        refine returns_membership ?_ (.inr hexpression) negated fuel scopes run hrun
        simp [hother, hcomputed]

/-- `R.attr.name` of the column `name`, whose NULL is sent as null. -/
def explicitNameContext : TranslationContext :=
  rootContext (.object fun reference =>
    if reference = "R.attr.name" then
      some { MapperConfig.ofField "name" with nullAttributeRepresentation := some .explicit }
    else none) none .explicit

/-- `R.attr.name + "b" == text`. -/
def endsInB (text : String) : ComputedComparison :=
  ⟨true, true, .arithmetic .add true none (.value (.string "b")), "R.attr.name",
    .value (.string text)⟩

/-- The filter of that comparison, or of its negation. -/
def planEndsInB (negated : Bool) (text : String) : Translation PrismaFilter :=
  (comparisonBuilder noConstants (fun _ => refusing) 3).build negated (endsInB text).node
    explicitNameContext

theorem computedOperand_undecided_iff_suffix :
    ∃ filter scopes', planEndsInB true "a" [] = .ok (filter, scopes') ∧
      filter.truth Engine.bare (namedStore .null) () = .unknown := by
  refine ⟨_, _, rfl, ?_⟩
  have hundecided := computedOperand_undecided_iff Engine.bare (fun _ => rfl) (namedStore .null)
    noConstants (fun _ => refusing) explicitNameContext "R.attr.name"
    (.arithmetic .add true none (.value (.string "b"))) ⟨rfl, .value _⟩ true
  refine (hundecided.1 (endsInB "a") _ "name" () () 3 [] _ _ rfl rfl (.value _) rfl rfl rfl rfl rfl
    rfl).mpr ⟨rfl, ?_⟩
  intro text value htext hvalue
  cases htext
  cases hvalue
  decide

/-- A text that some name makes: no name is not equal to it, and the negation returns the
record. -/
theorem computedOperand_decidesNull :
    (∃ filter scopes', planEndsInB false "ab" [] = .ok (filter, scopes') ∧
      filter.truth Engine.bare (namedStore .null) () = .no) ∧
    ∃ filter scopes', planEndsInB true "ab" [] = .ok (filter, scopes') ∧
      filter.matches Engine.bare (namedStore .null) () = true :=
  ⟨⟨_, _, rfl, rfl⟩, ⟨_, _, rfl, rfl⟩⟩

end QueryPlanAdapters.Prisma
