import QueryPlanAdapters.Go.Equality
import Mathlib.Data.List.Sort

/-!
# Go: lookups in a map literal

`{k: v, …}[x] op c` becomes a membership of `x` in the keys whose value equals `c`,
under a guard that `x` is a key at all. The operator decides only whether the membership
is negated, so that an ordering is answered as the equality.
-/

namespace QueryPlanAdapters.Go

open Sql

/-! ## Nodes -/

/-- A map literal. -/
def mapLiteralNode (entries : List (String × Literal)) : Node :=
  .expression .struct (entries.map fun entry =>
    .expression .setField [.value (.string entry.1), .value entry.2])

def lookupNode (entries : List (String × Literal)) (key : Node) : Node :=
  .expression .index [mapLiteralNode entries, key]

/-- The operands of a comparison, swapped or not. -/
def inSource (swapped : Bool) (left right : Node) : List Node :=
  if swapped then [right, left] else [left, right]

/-- CEL's lookup. -/
def lookupOutcome (entries : List (String × Literal)) : Outcome → Outcome
  | .value (.string k) => (entries.lookup k).elim .error literalValue
  | _ => .error

/-- CEL's comparison of an entry, or an error, with a constant. -/
def entryCompared (op : CmpOp) (swapped : Bool) (entry : Outcome) (c : Literal) : Outcome :=
  if swapped then comparisonOutcome op (literalValue c) entry
  else comparisonOutcome op entry (literalValue c)

/-! ## Entries -/

section Entries

variable {entries : List (String × Literal)} {c v : Literal}

/-- A map literal whose keys are distinct folds to its entries. -/
theorem structLiteral_entries (hkeys : (entries.map Prod.fst).Nodup) :
    structLiteral (entries.map fun entry =>
      .expression .setField [.value (.string entry.1), .value entry.2]) [] = .ok entries := by
  have hrest : ∀ rest found : List (String × Literal), ((found ++ rest).map Prod.fst).Nodup →
      structLiteral (rest.map fun entry =>
        .expression .setField [.value (.string entry.1), .value entry.2]) found =
          .ok (found ++ rest) := by
    intro rest
    induction rest with
    | nil =>
        intro found _
        rw [List.map_nil, structLiteral, List.append_nil]
    | cons entry rest ih =>
        intro found hnodup
        have hfresh : (found.lookup entry.1).isSome = false := by
          rw [← Bool.not_eq_true, List.lookup_isSome_iff]
          rintro ⟨earlier, hearlier, heq⟩
          rw [List.map_append, List.nodup_append] at hnodup
          exact hnodup.2.2 _ (List.mem_map_of_mem hearlier) _
            (List.mem_map_of_mem List.mem_cons_self) (by simpa using (eq_of_beq heq).symm)
        rw [List.map_cons, structLiteral, hfresh, if_neg Bool.false_ne_true,
          ih _ (by simpa using hnodup), List.append_assoc, List.singleton_append]
  exact hrest entries [] hkeys

theorem constantsEqual_scalar (hv : isScalarLiteral v = true) (c : Literal) :
    constantsEqual v c = .ok ((Value.ofPlan v).valuesEqual (.ofPlan c)) := by
  cases v with
  | array items => cases hv
  | object fields => cases hv
  | _ => cases c <;> rw [constantsEqual] <;> first | rfl | (intros; contradiction)

theorem filterM_pure {μ : Type → Type} [Monad μ] [LawfulMonad μ] {α : Type} {f : α → μ Bool}
    {p : α → Bool} {as : List α} (h : ∀ a ∈ as, f a = pure (p a)) :
    as.filterM f = pure (as.filter p) := by
  have haux : ∀ as : List α, (∀ a ∈ as, f a = pure (p a)) → ∀ kept : List α,
      as.filterAuxM f kept = pure ((as.filter p).reverse ++ kept) := by
    intro as
    induction as with
    | nil =>
        intro _ kept
        rfl
    | cons a as ih =>
        intro h kept
        obtain ⟨ha, has⟩ := List.forall_mem_cons.mp h
        rw [List.filterAuxM, ha, pure_bind, ih has, List.filter_cons]
        cases p a <;> simp
  rw [List.filterM, haux as h, pure_bind, List.append_nil, List.reverse_reverse]

theorem lookup_iff_mem (hkeys : (entries.map Prod.fst).Nodup) {k : String} :
    entries.lookup k = some v ↔ (k, v) ∈ entries := by
  induction entries with
  | nil => simp
  | cons entry entries ih =>
      rw [List.map_cons, List.nodup_cons] at hkeys
      rw [List.lookup_cons, List.mem_cons]
      cases hk : k == entry.1 with
      | true =>
          obtain rfl := eq_of_beq hk
          have hnot : (entry.1, v) ∉ entries := fun h =>
            hkeys.1 (List.mem_map.mpr ⟨_, h, rfl⟩)
          simp [hnot, Prod.ext_iff, eq_comm]
      | false =>
          have hne : (k, v) ≠ entry := by
            rintro rfl
            simp at hk
          simp [ih hkeys.2, hne]

/-- Of distinct keys, one alone is looked up. -/
theorem any_entries (hkeys : (entries.map Prod.fst).Nodup) (p : String × Literal → Bool)
    (k : String) :
    (entries.any fun entry => p entry && k = entry.1) =
      (entries.lookup k).any fun v => p (k, v) := by
  rw [Bool.eq_iff_iff, List.any_eq_true, Option.any_eq_true]
  constructor
  · rintro ⟨⟨k', v⟩, hmem, h⟩
    obtain ⟨hp, rfl⟩ : p (k', v) = true ∧ k = k' := by simpa using h
    exact ⟨v, (lookup_iff_mem hkeys).mpr hmem, hp⟩
  · rintro ⟨v, hlookup, hp⟩
    exact ⟨(k, v), (lookup_iff_mem hkeys).mp hlookup, by simp [hp]⟩

end Entries

/-! ## Memberships in the keys -/

/-- The database tells a key of unknown type from the texts as CEL does. Of a text it
always does. -/
def ComparesTexts (engine : Engine) (sending : Sending) (x : SqlValue) (texts : List String) :
    Prop :=
  x.isNull = false → ∀ k ∈ texts,
    engine.compare .eq x (.text k) = .ofBool ((sending.value x).valuesEqual (.string k))

theorem comparesTexts_text {engine : Engine} {sending : Sending} (a : String)
    (texts : List String) : ComparesTexts engine sending (.text a) texts :=
  fun _ _ _ => compare_eq_celCompare rfl .eq

section Keys

variable {engine : Engine} {db : Database} {env : RowEnv} {sending : Sending} {e : Expr}
  {x : SqlValue} {texts : List String}

/-- Membership of a key that is present. -/
theorem truth_keys_present (heval : e.eval engine db env = x) (hx : x.isNull = false)
    (hkind : ∀ kind, e.scalarKind = some kind → kind.holds x = true)
    (hunknown : e.scalarKind = none → ComparesTexts engine sending x texts) :
    (loweredMembership e (texts.map .string)).truth engine db env =
      .ofBool (texts.any fun k => (sending.value x).valuesEqual (.string k)) := by
  have hcompared : ∀ k ∈ texts, isComparableMember e.scalarKind (.string k) = true →
      engine.compare .eq x (.text k) = .ofBool ((sending.value x).valuesEqual (.string k)) := by
    intro k hk hcomparable
    cases hscalar : e.scalarKind with
    | none => exact hunknown hscalar hx k hk
    | some kind =>
        obtain ⟨-, a, rfl⟩ | ⟨rfl, d, rfl⟩ | ⟨rfl, b, rfl⟩ :=
          ScalarOperand.holds_present (hkind kind hscalar) hx
        · exact comparesTexts_text a texts rfl k hk
        · rw [hscalar] at hcomparable
          cases hcomparable
        · rw [hscalar] at hcomparable
          cases hcomparable
  have hforeign : ∀ k, isComparableMember e.scalarKind (.string k) = false →
      (sending.value x).valuesEqual (.string k) = false := by
    intro k hcomparable
    cases hscalar : e.scalarKind with
    | none =>
        rw [hscalar] at hcomparable
        cases hcomparable
    | some kind =>
        obtain ⟨rfl, a, rfl⟩ | ⟨-, d, rfl⟩ | ⟨-, b, rfl⟩ :=
          ScalarOperand.holds_present (hkind kind hscalar) hx
        · rw [hscalar] at hcomparable
          cases hcomparable
        · rfl
        · rfl
  have hpresent : (e.eval engine db env).isNull = false := by
    rw [heval]
    exact hx
  rw [truth_membership_present _ hpresent, heval]
  clear hunknown
  induction texts with
  | nil => rfl
  | cons k texts ih =>
      obtain ⟨hk, hrest⟩ := List.forall_mem_cons.mp hcompared
      rw [List.map_cons, List.filter_cons, List.any_cons, ← Truth.or_ofBool, ← ih hrest]
      cases hcomparable : isComparableMember e.scalarKind (.string k) with
      | true =>
          rw [if_pos rfl, List.map_cons, Truth.any_cons, ← hk hcomparable]
          rfl
      | false =>
          rw [if_neg Bool.false_ne_true, hforeign k hcomparable]
          rfl

/-- A key that is NULL is not found. -/
theorem truth_keys_null (heval : e.eval engine db env = .null) :
    (loweredMembership e (texts.map .string)).truth engine db env ≠ .yes := by
  have hnone : (texts.map (PlanValue.string : String → Literal)).any isNullLiteral = false := by
    rw [List.any_map, List.any_eq_false]
    intro k _
    exact Bool.false_ne_true
  rw [truth_membership_null _ heval, hnone, if_neg Bool.false_ne_true]
  split <;> nofun

end Keys

/-! ## The translation -/

/-- The keys of a map literal, in order, of the entries that a condition holds of. -/
def sortedKeys (entries : List (String × Literal)) (p : String × Literal → Bool) : List Literal :=
  (((entries.insertionSort (·.1 ≤ ·.1)).filter p).map Prod.fst).map .string

/-- What a lookup that is compared with a constant is lowered to. -/
def loweredLookup (op : CmpOp) (entries : List (String × Literal)) (key : Expr) (c : Literal) :
    Expr :=
  let isKey := loweredMembership key (sortedKeys entries fun _ => true)
  let hit := loweredMembership key (sortedKeys entries fun entry =>
    (Value.ofPlan entry.2).valuesEqual (.ofPlan c))
  .case [(isKey, negate hit (op = .ne))] none

section Translation

variable [Double.Rounding] {engine : Engine} {db : Database} {m : Mapper} {truthOf : Node → Truth}
  {n : Nat} {env : RowEnv} {opts : Options} {now : Int} {op : CmpOp} {operator : PlanOperator}
  {entries : List (String × Literal)} {key : ScalarOperand} {c : Literal}

omit [Double.Rounding] in
theorem mapLiteralLookup_eq {b : Builder} (hkeys : (entries.map Prod.fst).Nodup)
    (hvalues : ∀ entry ∈ entries, isScalarLiteral entry.2 = true) (swapped : Bool) (key : Node) :
    b.mapLiteralLookup op (if swapped then .value c else lookupNode entries key)
        (if swapped then lookupNode entries key else .value c) m = do
      let key ← b.value key m
      let isKey ← liftM (membership key (.constant (.array (sortedKeys entries fun _ => true))))
      let hit ← liftM (membership key (.constant (.array (sortedKeys entries fun entry =>
        (Value.ofPlan entry.2).valuesEqual (.ofPlan c)))))
      return some (Expr.case [(isKey, negate hit (op = .ne))] none) := by
  have hoperands : b.mapLiteralLookup op (if swapped then .value c else lookupNode entries key)
      (if swapped then lookupNode entries key else .value c) m =
        b.mapLiteralLookup op (lookupNode entries key) (.value c) m := by
    cases swapped <;> rfl
  have hmatching : (entries.insertionSort (·.1 ≤ ·.1)).filterM
      (fun entry => (liftM (constantsEqual entry.2 c) : Translation Bool)) =
        pure ((entries.insertionSort (·.1 ≤ ·.1)).filter fun entry =>
          (Value.ofPlan entry.2).valuesEqual (.ofPlan c)) := by
    apply filterM_pure
    intro entry hentry
    rw [constantsEqual_scalar (hvalues entry ((List.mem_insertionSort _).mp hentry)) c]
    rfl
  rw [hoperands]
  show (do
    let folded ← liftM (structLiteral (entries.map fun entry =>
      .expression .setField [.value (.string entry.1), .value entry.2]) [])
    let keyValue ← b.value key m
    let sorted := folded.insertionSort (·.1 ≤ ·.1)
    let matching ← sorted.filterM fun entry => liftM (constantsEqual entry.2 c)
    let keys := fun (entries : List (String × Literal)) =>
      Val.constant (.array (entries.map fun entry => .string entry.1))
    let isKey ← liftM (membership keyValue (keys sorted))
    let hit ← liftM (membership keyValue (keys matching))
    return some (Expr.case [(isKey, negate hit (op = .ne))] none) :
      Translation (Option Expr)) = _
  have hfolded : (liftM (structLiteral (entries.map fun entry =>
      .expression .setField [.value (.string entry.1), .value entry.2]) []) :
        Translation (List (String × Literal))) = pure entries := by
    rw [structLiteral_entries hkeys]
    rfl
  simp only [hfolded, hmatching, pure_bind, sortedKeys, List.filter_true, List.map_map,
    Function.comp_def]

theorem yields_mapLiteralLookup (hkeys : (entries.map Prod.fst).Nodup)
    (hvalues : ∀ entry ∈ entries, isScalarLiteral entry.2 = true) (hform : key.WellFormed m)
    (halias : m.avoidsAliases n)
    (hconds : ∀ cond ∈ key.conditions, LowersCondition engine db m truthOf n env opts now cond)
    (swapped : Bool) (fuel : Nat) {s : Nat} (hs : n ≤ s) :
    Yields ((builder opts now fuel).mapLiteralLookup op
        (if swapped then .value c else lookupNode entries key.node)
        (if swapped then lookupNode entries key.node else .value c) m) s fun out _ =>
      ∃ e, LoweredTo engine db m truthOf n env key e ∧
        out = some (loweredLookup op entries e c) := by
  rw [mapLiteralLookup_eq hkeys hvalues]
  refine (yields_value hform halias hconds fuel hs).bind fun v s₁ h => ?_
  obtain ⟨-, e, hlowered, rfl⟩ := h
  have hmembership : ∀ items : List Literal,
      membership (key.val e) (.constant (.array items)) = .ok (loweredMembership e items) :=
    membership_scalar (asExpr_val hlowered hform) (val_shape hform e).2.2.1
      ((val_scalarKind hlowered).trans hlowered.scalarKind.symm)
  simp only [hmembership]
  exact Yields.pure ⟨e, hlowered, rfl⟩

theorem predicateStep_lookup {b : Builder} (hop : comparisonOps operator = some op)
    (entries : List (String × Literal)) (key : Node) (c : Literal) (swapped negated : Bool) :
    b.predicateStep (.expression operator (inSource swapped (lookupNode entries key) (.value c))) m
        negated =
      b.comparisonPredicate op (if swapped then .value c else lookupNode entries key)
        (if swapped then lookupNode entries key else .value c) m negated := by
  have hempty : ∀ left right : Node, (left = lookupNode entries key ∧ right = .value c ∨
      left = .value c ∧ right = lookupNode entries key) →
        emptyListComparison operator left right = none := by
    rintro _ _ (⟨rfl, rfl⟩ | ⟨rfl, rfl⟩) <;>
      cases operator <;> simp [emptyListComparison, emptySetFunction, lookupNode,
        Operand.isExpression]
  have hlift : ∀ left right : Node, (left = lookupNode entries key ∧ right = .value c ∨
      left = .value c ∧ right = lookupNode entries key) →
        liftListTernary (.expression operator [left, right]) = none := by
    rintro _ _ (⟨rfl, rfl⟩ | ⟨rfl, rfl⟩) <;> rfl
  have hbinary : ∀ left right : Node, (left = lookupNode entries key ∧ right = .value c ∨
      left = .value c ∧ right = lookupNode entries key) →
        b.predicateStep (.expression operator [left, right]) m negated =
          b.comparisonPredicate op left right m negated := by
    intro left right h
    have hstep : b.binaryPredicate operator [left, right] m negated =
        b.comparisonPredicate op left right m negated := by
      simp only [Builder.binaryPredicate, hlift left right h, hempty left right h, hop]
    cases operator with
    | eq | ne | lt | le | gt | ge => exact hstep
    | _ => cases hop
  cases swapped with
  | false => exact hbinary _ _ (.inl ⟨rfl, rfl⟩)
  | true => exact hbinary _ _ (.inr ⟨rfl, rfl⟩)

end Translation

/-! ## Where the answer is CEL's -/

section Agreement

variable {engine : Engine} {db : Database} {env : RowEnv} {sending : Sending} {e : Expr}
  {x : SqlValue} {o : Outcome} {op : CmpOp} {entries : List (String × Literal)} {c : Literal}

/-- The lowered lookup is an equality of the entry that is found, or its negation. -/
theorem truth_loweredLookup (hkeys : (entries.map Prod.fst).Nodup)
    (heval : e.eval engine db env = x) (hcarries : Carries sending x o)
    (hkind : ∀ kind, e.scalarKind = some kind → kind.holds x = true)
    (hunknown : e.scalarKind = none → ComparesTexts engine sending x (entries.map Prod.fst)) :
    (loweredLookup op entries e c).truth engine db env =
      (comparisonOutcome .eq (lookupOutcome entries o) (literalValue c)).asBoolean.polarised
        (op = .ne) := by
  have herror : (comparisonOutcome .eq .error (literalValue c)).asBoolean.polarised (op = .ne) =
      .unknown := Truth.polarised_unknown _
  rw [loweredLookup, Expr.truth_case_singleton]
  cases hx : x.isNull with
  | true =>
      obtain rfl : x = .null := by
        cases x <;> first | rfl | cases hx
      have hnone : lookupOutcome entries o = .error := by
        obtain rfl | rfl := hcarries.absent <;> rfl
      rw [sortedKeys, if_neg (truth_keys_null heval), hnone, herror]
  | false =>
      obtain rfl := hcarries.present hx
      have hsorted : ∀ {entry}, entry ∈ entries.insertionSort (·.1 ≤ ·.1) ↔ entry ∈ entries :=
        List.mem_insertionSort _
      have hfound : ∀ p : String × Literal → Bool,
          (loweredMembership e (sortedKeys entries p)).truth engine db env =
            .ofBool (entries.any fun entry =>
              p entry && (sending.value x).valuesEqual (.string entry.1)) := by
        intro p
        rw [sortedKeys, truth_keys_present heval hx hkind, List.any_map, List.any_filter,
          (List.perm_insertionSort _ entries).any_eq]
        · rfl
        · intro hscalar hx k hk
          obtain ⟨entry, hentry, rfl⟩ := List.mem_map.mp hk
          exact hunknown hscalar hx _
            (List.mem_map_of_mem (hsorted.mp (List.mem_of_mem_filter hentry)))
      rw [hfound, truth_negate, hfound]
      cases hvalue : sending.value x with
      | string k =>
          have hequal : ∀ k' : String, (Value.string k).valuesEqual (.string k') = (k = k' : Bool) :=
            fun _ => rfl
          simp only [hequal, any_entries hkeys, lookupOutcome]
          cases entries.lookup k with
          | none => exact herror.symm
          | some v =>
              simp [comparisonOutcome, literalValue, ComparisonOperator.isOrdering,
                Outcome.asBoolean]
      | _ =>
          have hnone : (entries.any fun entry => true &&
              (sending.value x).valuesEqual (.string entry.1)) = false := by
            rw [hvalue, List.any_eq_false]
            intro entry _
            exact Bool.false_ne_true
          rw [hvalue] at hnone
          rw [hnone]
          exact herror.symm

/-- Where the lookup is answered as CEL answers it: an ordering of an entry that is found
must have the result of the equality. -/
def LookupAnswered (op : CmpOp) (swapped : Bool) (entries : List (String × Literal)) (o : Outcome)
    (c : Literal) : Prop :=
  op.isOrdering = true → ∀ k v, o = .value (.string k) → entries.lookup k = some v →
    (entryCompared op swapped (literalValue v) c).asBoolean =
      .ofBool ((Value.ofPlan v).valuesEqual (.ofPlan c))

theorem entryCompared_swapped (op : CmpOp) (swapped : Bool) (entry : Outcome) (c : Literal) :
    entryCompared op swapped entry c =
      comparisonOutcome (if swapped then op.mirrored else op) entry (literalValue c) := by
  cases swapped with
  | false => rfl
  | true =>
      have hmirrored : op.mirrored.mirrored = op := by
        cases op <;> rfl
      rw [entryCompared, if_pos rfl, if_pos rfl, ← comparisonOutcome_mirrored op.mirrored,
        hmirrored]

theorem equality_agrees (hequality : op.isOrdering = false) (swapped : Bool) (entry : Outcome) :
    (entryCompared op swapped entry c).asBoolean =
      (comparisonOutcome .eq entry (literalValue c)).asBoolean.polarised (op = .ne) := by
  rw [entryCompared_swapped]
  cases op with
  | eq => cases swapped <;> rfl
  | ne => cases swapped <;> exact comparisonOutcome_ne _ _
  | _ => cases hequality

theorem ordering_agrees_iff (hordering : op.isOrdering = true) (swapped : Bool) :
    (comparisonOutcome .eq (lookupOutcome entries o) (literalValue c)).asBoolean.polarised
          (op = .ne) =
        (entryCompared op swapped (lookupOutcome entries o) c).asBoolean ↔
      LookupAnswered op swapped entries o c := by
  have hne : decide (op = .ne) = false := by
    cases op <;> first | rfl | cases hordering
  rw [hne, Truth.polarised_false]
  have hnone : lookupOutcome entries o = .error → ((comparisonOutcome .eq (lookupOutcome entries o)
      (literalValue c)).asBoolean = (entryCompared op swapped (lookupOutcome entries o) c).asBoolean ↔
        LookupAnswered op swapped entries o c) := by
    intro herror
    refine iff_of_true ?_ ?_
    · rw [herror, entryCompared_swapped]
      rfl
    · rintro - k v rfl hlookup
      rw [lookupOutcome, hlookup] at herror
      cases herror
  cases o with
  | error => exact hnone rfl
  | value w =>
      cases w with
      | string k =>
          cases hlookup : entries.lookup k with
          | none =>
              apply hnone
              rw [lookupOutcome, hlookup]
              rfl
          | some v =>
              have hfound : lookupOutcome entries (.value (.string k)) = literalValue v := by
                rw [lookupOutcome, hlookup]
                rfl
              have hequal : (comparisonOutcome .eq (literalValue v) (literalValue c)).asBoolean =
                  .ofBool ((Value.ofPlan v).valuesEqual (.ofPlan c)) := by
                simp [comparisonOutcome, literalValue, ComparisonOperator.isOrdering,
                  Outcome.asBoolean]
              rw [hfound, hequal]
              constructor
              · rintro h - k' v' hk hlookup'
                obtain rfl := Value.string.inj (Outcome.value.inj hk)
                obtain rfl := Option.some.inj (hlookup.symm.trans hlookup')
                exact h.symm
              · intro h
                exact (h hordering k v rfl hlookup).symm
      | _ => exact hnone rfl

end Agreement

/-- A lookup in a map literal that is compared with a constant is answered as CEL answers it
under an equality, and under an ordering exactly where the entry that is found is ordered
as it is equal. -/
theorem mapLookup_agrees_iff [Double.Rounding] {engine : Engine} {db : Database} {m : Mapper}
    {truthOf : Node → Truth} {n : Nat} {env : RowEnv} {opts : Options} {now : Int} {op : CmpOp}
    {operator : PlanOperator} {entries : List (String × Literal)} {key : ScalarOperand}
    {c : Literal} {swapped negated : Bool} {fuel s s' : Nat} {e : Expr} {spell : Int → String}
    (hop : comparisonOps operator = some op) (hconcat : StandardConcat engine)
    (halias : m.avoidsAliases n) (hs : n ≤ s) (hkeys : (entries.map Prod.fst).Nodup)
    (hvalues : ∀ entry ∈ entries, isScalarLiteral entry.2 = true) (hform : key.WellFormed m)
    (hkeeps : key.Keeps engine db m truthOf env)
    (hconds : ∀ cond ∈ key.conditions, LowersCondition engine db m truthOf n env opts now cond)
    (hunknown : key.kind m = none →
      ComparesTexts engine ⟨opts.nullRepresentation, spell⟩ (key.stored engine db m truthOf env)
        (entries.map Prod.fst))
    (hrun : (builder opts now fuel).predicate (.expression operator
      (inSource swapped (lookupNode entries key.node) (.value c))) m negated s = .ok (e, s')) :
    e.truth engine db env =
        (entryCompared op swapped (lookupOutcome entries
          (key.outcome engine db m truthOf env ⟨opts.nullRepresentation, spell⟩))
            c).asBoolean.polarised negated ↔
      LookupAnswered op swapped entries
        (key.outcome engine db m truthOf env ⟨opts.nullRepresentation, spell⟩) c := by
  have hlowered : Yields ((builder opts now fuel).predicate (.expression operator
      (inSource swapped (lookupNode entries key.node) (.value c))) m negated) s fun e _ =>
        e.truth engine db env =
          ((comparisonOutcome .eq (lookupOutcome entries
            (key.outcome engine db m truthOf env ⟨opts.nullRepresentation, spell⟩))
              (literalValue c)).asBoolean.polarised (op = .ne)).polarised negated := by
    refine yields_of_step (fun fuel => ?_) fuel
    rw [predicateStep_lookup hop, Builder.comparisonPredicate]
    refine (yields_mapLiteralLookup hkeys hvalues hform halias hconds swapped fuel hs).bind
      fun out s₁ h => ?_
    obtain ⟨keyExpr, hkey, rfl⟩ := h
    apply Yields.pure
    rw [truth_negate, truth_loweredLookup hkeys (hkey.eval_eq halias (SameRows.refl n env))
      (ScalarOperand.carries_outcome hconcat hform hkeeps)]
    · intro kind hkind
      rw [hkey.scalarKind] at hkind
      exact ScalarOperand.kind_holds hconcat hform hkeeps hkind
    · intro hnone
      rw [hkey.scalarKind] at hnone
      exact hunknown hnone
  rw [hlowered.of_run hrun, Truth.polarised_inj]
  cases hordering : op.isOrdering with
  | true => exact ordering_agrees_iff hordering swapped
  | false =>
      refine iff_of_true (equality_agrees hordering swapped _).symm ?_
      intro h
      rw [hordering] at h
      cases h

/-! The rank of a status, which is below another. -/

def rankEntries : List (String × Literal) :=
  [("draft", .number (.finite 1)), ("final", .number (.finite 2))]

def rankBelow (key : ScalarOperand) : Node :=
  .expression .lt [lookupNode rankEntries key.node, .value (.number (.finite 2))]

def rankMapper : Mapper where
  resolve reference :=
    if reference = "R.attr.status" then
      some { nameEntry with column := "status", nullConvention := .omitted }
    else none

def rankRoot : Mapper :=
  rootMapper (guardedMapper rankMapper) "documents"

def rankOutcome (status : SqlValue) : Outcome :=
  (ScalarOperand.reference "R.attr.status").outcome concatEngine (fun _ => []) rankRoot
    (fun _ => .unknown) (statusRow status) ⟨.explicit, fun _ => ""⟩

def rankLowered : Expr :=
  loweredLookup .lt rankEntries
    (.column (elementColumn "documents" { nameEntry with column := "status", nullConvention := .omitted }))
    (.number (.finite 2))

theorem rankBelow_run :
    (builder tagsOptions 0 4).predicate (rankBelow (.reference "R.attr.status")) rankRoot false 0 =
      .ok (rankLowered, 0) := by
  have hstep := @predicateStep_lookup _ rankRoot .lt .lt (builder tagsOptions 0 3) rfl rankEntries
    (.var "R.attr.status") (.number (.finite 2)) false false
  have hlookup := @mapLiteralLookup_eq rankRoot .lt rankEntries (.number (.finite 2))
    (builder tagsOptions 0 3) (by decide) (by decide) false (.var "R.attr.status")
  show (builder tagsOptions 0 3).predicateStep (.expression .lt (inSource false
    (lookupNode rankEntries (.var "R.attr.status")) (.value (.number (.finite 2))))) rankRoot false
      0 = _
  rw [hstep, Builder.comparisonPredicate, hlookup]
  have hvalue : (builder tagsOptions 0 3).value (.var "R.attr.status") rankRoot =
      pure (.expr (.column (elementColumn "documents"
        { nameEntry with column := "status", nullConvention := .omitted }))) := rfl
  rw [hvalue, pure_bind]
  simp only [membership_expr]
  rfl

/-- A draft ranks below the constant, but its row is not selected. -/
theorem lowerRank_dropped :
    build 4 0 (rankBelow (.reference "R.attr.status")) rankMapper tagsOptions = .ok rankLowered ∧
      rankLowered.truth concatEngine (fun _ => []) (statusRow (.text "draft")) = .no ∧
        (entryCompared .lt false (lookupOutcome rankEntries (rankOutcome (.text "draft")))
          (.number (.finite 2))).asBoolean = .yes := by
  refine ⟨?_, ?_, by decide⟩
  · unfold build
    exact congrArg (Except.map Prod.fst) rankBelow_run
  · have htruth := @truth_loweredLookup concatEngine (fun _ => []) (statusRow (.text "draft"))
      ⟨.explicit, fun _ => ""⟩ (.column (elementColumn "documents"
        { nameEntry with column := "status", nullConvention := .omitted })) (.text "draft")
      (.value (.string "draft")) .lt rankEntries (.number (.finite 2)) (by decide) rfl (.inl rfl)
      (fun kind hkind => by
        obtain rfl := Option.some.inj hkind
        rfl) (by rintro ⟨⟩)
    refine htruth.trans ?_
    decide

theorem mapLookup_agrees_iff_rank :
    rankLowered.truth concatEngine (fun _ => []) (statusRow (.text "draft")) =
        (entryCompared .lt false (lookupOutcome rankEntries (rankOutcome (.text "draft")))
          (.number (.finite 2))).asBoolean.polarised false ↔
      LookupAnswered .lt false rankEntries (rankOutcome (.text "draft")) (.number (.finite 2)) :=
  @mapLookup_agrees_iff _ concatEngine (fun _ => []) rankRoot (fun _ => .unknown) 0
    (statusRow (.text "draft")) tagsOptions 0 .lt .lt rankEntries (.reference "R.attr.status")
    (.number (.finite 2)) false false 4 0 _ _ (fun _ => "") rfl concatEngine_standard
    (avoidsAliases_rootMapper (by decide) 0) le_rfl (by decide) (by decide) trivial
    (fun reading hreading x hx => by
      obtain rfl := Option.some.inj hreading
      obtain rfl := Option.some.inj hx
      rfl)
    nofun nofun rankBelow_run

end QueryPlanAdapters.Go
