import QueryPlanAdapters.Prisma.Translate

/-!
# Prisma: quantified conditions

The conditions over columns and to-many relations, with their references resolved:
what CEL evaluates them to on a record, and what the filters of the two directions
make of them. A filter reads a macro as TRUE or FALSE. What it knows of the errors
under a macro is a NULL that the macro's own body reads, and what was recorded with
that body's lambda.
-/

namespace QueryPlanAdapters.Prisma

open Sql

/-- A condition over the columns of a record and of its related records. A junction is
a chain that ends in the empty one. -/
inductive Condition where
  | compared (op : ComparisonOperator) (field : String) (v : Literal)
  | empty (isAnd : Bool)
  | junction (isAnd : Bool) (first rest : Condition)
  | not (condition : Condition)
  | «exists» (relation : RelationConfig) (body : Condition)
  | all (relation : RelationConfig) (body : Condition)

/-- Whether a value is one that CEL compares with the literal. -/
def sameType (x : SqlValue) (v : Literal) : Bool :=
  (x.sameTypeKeys (boundLiteral v)).isSome

/-- CEL's comparison of an attribute with a literal. A NULL is a missing attribute; values
of different types are unequal, and have no order. -/
def compareAttribute (op : ComparisonOperator) (x : SqlValue) (v : Literal) : Truth :=
  if x.isNull then .unknown
  else match x.sameTypeKeys (boundLiteral v) with
    | some (a, b) => .ofBool (op.test a b)
    | none => if op.isOrdering then .unknown else .ofBool (op = .ne)

/-- `and`, or `or`. -/
def joined (isAnd : Bool) (s t : Truth) : Truth :=
  if isAnd then s.and t else s.or t

namespace Condition

/-- The columns of the current record that the condition reads. -/
def columns : Condition → List String
  | compared _ field _ => [field]
  | junction _ first rest => columns first ++ columns rest
  | not c => columns c
  | empty _ | «exists» _ _ | all _ _ => []

section Semantics

variable {ρ : Type} (engine : Engine) (store : Store ρ)

/-- The related records that the caller's predicate on the relation shows. -/
def visible (relation : RelationConfig) (r : ρ) : List ρ :=
  (store.related r relation.name).filter fun e =>
    relation.subqueryFilter.all fun declared => declared.truth engine store e = .yes

/-- What CEL evaluates a condition to, an error being UNKNOWN. -/
def evaluate : Condition → ρ → Truth
  | compared op field v, r => compareAttribute op (store.column r field) v
  | empty isAnd, _ => .ofBool isAnd
  | junction isAnd first rest, r => joined isAnd (evaluate first r) (evaluate rest r)
  | not c, r => (evaluate c r).not
  | «exists» relation body, r => Truth.any ((visible engine store relation r).map (evaluate body))
  | all relation body, r => Truth.all ((visible engine store relation r).map (evaluate body))

/-- Whether the condition reads a NULL in a column of the current record. -/
def readsNull (c : Condition) (r : ρ) : Bool :=
  c.columns.any fun field => (store.column r field).isNull

mutual

/-- What the filter of a condition, or of its negation, is on a record. -/
def filtered : Condition → (negated : Bool) → ρ → Truth
  | compared op field v, negated, r =>
      (compareAttribute op (store.column r field) v).polarised negated
  | empty isAnd, negated, _ => .ofBool (isAnd ^^ negated)
  | junction isAnd first rest, negated, r =>
      joined (isAnd ^^ negated) (filtered first negated r) (filtered rest negated r)
  | not c, negated, r => filtered c (!negated) r
  | «exists» relation body, negated, r =>
      let elements := visible engine store relation r
      if negated then
        .ofBool (elements.all fun e =>
          filtered body false e ≠ .yes && !(recorded body false e || readsNull store body e))
      else .ofBool (elements.any fun e => filtered body false e = .yes)
  | all relation body, negated, r =>
      let elements := visible engine store relation r
      if negated then .ofBool (elements.any fun e => filtered body false e = .no)
      else
        .ofBool (elements.all fun e => filtered body false e ≠ .no && !readsNull store body e)

/-- Whether a filter recorded with the enclosing lambda says that a macro is UNKNOWN. -/
def recorded : Condition → (negated : Bool) → ρ → Bool
  | compared _ _ _, _, _ | empty _, _, _ | all _ _, _, _ => false
  | junction _ first rest, negated, r => recorded first negated r || recorded rest negated r
  | not c, negated, r => recorded c (!negated) r
  | «exists» relation body, negated, r =>
      let elements := visible engine store relation r
      !negated && !(elements.any fun e => filtered body false e = .yes) &&
        elements.any fun e => recorded body false e || readsNull store body e

end

/-- Whether every column the condition reads holds a NULL or a value of the type it is
compared with. -/
def typed : Condition → ρ → Prop
  | compared _ field v, r =>
      (store.column r field).isNull = true ∨ sameType (store.column r field) v = true
  | empty _, _ => True
  | junction _ first rest, r => typed first r ∧ typed rest r
  | not c, r => typed c r
  | «exists» relation body, r | all relation body, r =>
      ∀ e ∈ visible engine store relation r, typed body e

/-- Whether no macro of the condition reads a NULL on a record it ranges over. -/
def complete : Condition → ρ → Prop
  | compared _ _ _, _ | empty _, _ => True
  | junction _ first rest, r => complete first r ∧ complete rest r
  | not c, r => complete c r
  | «exists» relation body, r | all relation body, r =>
      ∀ e ∈ visible engine store relation r, readsNull store body e = false ∧ complete body e

/-- Whether the macros in the body of a negated macro read no NULL. In the body of a
negated `exists`, an `exists` under connectives other than `not` is recorded, and only
the macros in its own body count. -/
def decided (underExists : Bool) : Condition → ρ → Prop
  | compared _ _ _, _ | empty _, _ => True
  | junction _ first rest, r => decided underExists first r ∧ decided underExists rest r
  | not c, r => complete engine store c r
  | «exists» relation body, r =>
      if underExists then ∀ e ∈ visible engine store relation r, decided true body e
      else complete engine store («exists» relation body) r
  | all relation body, r => complete engine store (all relation body) r

/-- Whether each macro that stands under an odd number of negations has its body decided
on every record it ranges over. -/
def guarded : Condition → (negated : Bool) → ρ → Prop
  | compared _ _ _, _, _ | empty _, _, _ => True
  | junction _ first rest, negated, r => guarded first negated r ∧ guarded rest negated r
  | not c, negated, r => guarded c (!negated) r
  | «exists» relation body, negated, r =>
      ∀ e ∈ visible engine store relation r,
        if negated then decided engine store true body e else guarded body false e
  | all relation body, negated, r =>
      ∀ e ∈ visible engine store relation r,
        if negated then decided engine store false body e else guarded body false e

end Semantics

/-! ## What the filters say -/

section Soundness

variable {ρ : Type} {engine : Engine} {store : Store ρ}

variable {c : Condition} {negated : Bool}

theorem compareAttribute_ne_unknown {op : ComparisonOperator} {x : SqlValue} {v : Literal}
    (hnull : x.isNull = false) (htype : sameType x v = true) :
    compareAttribute op x v ≠ .unknown := by
  obtain ⟨keys, hkeys⟩ := Option.isSome_iff_exists.mp htype
  simp [compareAttribute, hnull, hkeys]

theorem readsNull_junction (isAnd : Bool) (first rest : Condition) (r : ρ) :
    readsNull store (junction isAnd first rest) r =
      (readsNull store first r || readsNull store rest r) :=
  List.any_append

variable {r : ρ}

/-- A filter that reads no NULL in the current record is TRUE or FALSE. -/
theorem filtered_ne_unknown
    (htyped : typed engine store c r) (hnull : readsNull store c r = false) :
    filtered engine store c negated r ≠ .unknown := by
  induction c generalizing negated r with
  | compared op field v =>
      have hnull : (store.column r field).isNull = false := by simpa [readsNull, columns] using hnull
      have hdefinite : compareAttribute op (store.column r field) v ≠ .unknown :=
        compareAttribute_ne_unknown hnull (htyped.resolve_left (by simp [hnull]))
      cases negated <;> simpa [filtered] using hdefinite
  | empty isAnd => simp [filtered]
  | junction isAnd first rest ihfirst ihrest =>
      rw [readsNull_junction, Bool.or_eq_false_iff] at hnull
      have hfirst : filtered engine store first negated r ≠ .unknown := ihfirst htyped.1 hnull.1
      have hrest : filtered engine store rest negated r ≠ .unknown := ihrest htyped.2 hnull.2
      rw [filtered, joined]
      cases hs : filtered engine store first negated r <;>
        cases ht : filtered engine store rest negated r <;>
          cases isAnd <;> cases negated <;> simp_all
  | not c ih => exact ih htyped hnull
  | «exists» relation body _ => cases negated <;> simp [filtered]
  | all relation body _ => cases negated <;> simp [filtered]

/-- Where the macros read no NULL, nothing is recorded. -/
theorem recorded_of_complete
    (h : complete engine store c r) : recorded engine store c negated r = false := by
  induction c generalizing negated r with
  | compared op field v => rfl
  | empty isAnd => rfl
  | junction isAnd first rest ihfirst ihrest => simp [recorded, ihfirst h.1, ihrest h.2]
  | not c ih => exact ih h
  | «exists» relation body ih =>
      have hnone : ((visible engine store relation r).any fun e =>
          recorded engine store body false e || readsNull store body e) = false := by
        rw [List.any_eq_false]
        intro e he
        simp [ih (h e he).2, (h e he).1]
      simp [recorded, hnone]
  | all relation body _ => rfl

theorem any_eq_ofBool {α : Type} {elements : List α} {f : α → Truth}
    (h : ∀ e ∈ elements, f e ≠ .unknown) :
    Truth.any (elements.map f) = .ofBool (elements.any fun e => f e = .yes) := by
  induction elements with
  | nil => rfl
  | cons e elements ih =>
      obtain ⟨he, helements⟩ := List.forall_mem_cons.mp h
      rw [List.map_cons, Truth.any_cons, ih helements, List.any_cons]
      cases hf : f e <;> simp_all

theorem all_eq_ofBool {α : Type} {elements : List α} {f : α → Truth}
    (h : ∀ e ∈ elements, f e ≠ .unknown) :
    Truth.all (elements.map f) = .ofBool (elements.all fun e => f e ≠ .no) := by
  induction elements with
  | nil => rfl
  | cons e elements ih =>
      obtain ⟨he, helements⟩ := List.forall_mem_cons.mp h
      rw [List.map_cons, Truth.all_cons, ih helements, List.all_cons]
      cases hf : f e <;> simp_all

/-- Where the macros read no NULL, the filters are exact. -/
theorem filtered_of_complete (negated : Bool)
    (htyped : typed engine store c r) (h : complete engine store c r) :
    filtered engine store c negated r = (evaluate engine store c r).polarised negated := by
  induction c generalizing negated r with
  | compared op field v => rfl
  | empty isAnd => cases isAnd <;> cases negated <;> rfl
  | junction isAnd first rest ihfirst ihrest =>
      rw [filtered, ihfirst negated htyped.1 h.1, ihrest negated htyped.2 h.2, evaluate]
      cases isAnd <;> cases negated <;> simp [joined, Truth.not_and, Truth.not_or]
  | not c ih =>
      rw [filtered, ih (!negated) htyped h, evaluate]
      cases negated <;> simp
  | «exists» relation body ih =>
      have hbody : ∀ e ∈ visible engine store relation r,
          filtered engine store body false e = evaluate engine store body e :=
        fun e he => ih false (htyped e he) (h e he).2
      have hdefinite : ∀ e ∈ visible engine store relation r,
          evaluate engine store body e ≠ .unknown :=
        fun e he => hbody e he ▸ filtered_ne_unknown (htyped e he) (h e he).1
      rw [evaluate, any_eq_ofBool hdefinite, filtered]
      cases negated with
      | false =>
          simp only [Bool.false_eq_true, if_false, Truth.polarised_false]
          congr 1
          rw [Bool.eq_iff_iff]
          simp only [List.any_eq_true]
          refine exists_congr fun e => and_congr_right fun he => ?_
          rw [hbody e he]
      | true =>
          simp only [if_true, Truth.polarised_true, Truth.not_ofBool]
          congr 1
          rw [Bool.eq_iff_iff]
          simp only [List.all_eq_true, Bool.not_eq_true', List.any_eq_false, decide_eq_true_eq]
          refine forall₂_congr fun e he => ?_
          simp [hbody e he, recorded_of_complete (h e he).2, (h e he).1]
  | all relation body ih =>
      have hbody : ∀ e ∈ visible engine store relation r,
          filtered engine store body false e = evaluate engine store body e :=
        fun e he => ih false (htyped e he) (h e he).2
      have hdefinite : ∀ e ∈ visible engine store relation r,
          evaluate engine store body e ≠ .unknown :=
        fun e he => hbody e he ▸ filtered_ne_unknown (htyped e he) (h e he).1
      rw [evaluate, all_eq_ofBool hdefinite, filtered]
      cases negated with
      | false =>
          simp only [Bool.false_eq_true, if_false, Truth.polarised_false]
          congr 1
          rw [Bool.eq_iff_iff]
          simp only [List.all_eq_true]
          refine forall₂_congr fun e he => ?_
          simp [hbody e he, (h e he).1]
      | true =>
          simp only [if_true, Truth.polarised_true, Truth.not_ofBool]
          congr 1
          rw [Bool.eq_iff_iff]
          simp only [List.any_eq_true, Bool.not_eq_true', List.all_eq_false]
          refine exists_congr fun e => and_congr_right fun he => ?_
          simp [hbody e he]

/-- Where a filter reads no NULL, it is exact as soon as its macros read none either. -/
theorem exact_of_definite (htyped : typed engine store c r)
    (hnull : readsNull store c r = false) (hfiltered : filtered engine store c false r ≠ .yes)
    (hcomplete : complete engine store c r) : evaluate engine store c r = .no := by
  have heq : filtered engine store c false r = evaluate engine store c r :=
    filtered_of_complete false htyped hcomplete
  have hdefinite : filtered engine store c false r ≠ .unknown := filtered_ne_unknown htyped hnull
  rw [← heq]
  cases h : filtered engine store c false r with
  | yes => exact absurd h hfiltered
  | no => rfl
  | unknown => exact absurd h hdefinite

/-- The body of a negated macro: what the filter does not hold of, and what is neither
recorded nor NULL, CEL evaluates to false. -/
theorem evaluate_of_not_filtered (htyped : typed engine store c r)
    (hdecided : decided engine store true c r) (hfiltered : filtered engine store c false r ≠ .yes)
    (hrecorded : recorded engine store c false r = false) (hnull : readsNull store c r = false) :
    evaluate engine store c r = .no := by
  have hcomplete := exact_of_definite htyped hnull hfiltered
  induction c generalizing r with
  | compared op field v => exact hcomplete trivial
  | empty isAnd => exact hcomplete trivial
  | junction isAnd first rest ihfirst ihrest =>
      rw [recorded, Bool.or_eq_false_iff] at hrecorded
      rw [readsNull_junction, Bool.or_eq_false_iff] at hnull
      have hfirst := fun h =>
        ihfirst htyped.1 hdecided.1 h hrecorded.1 hnull.1 (exact_of_definite htyped.1 hnull.1 h)
      have hrest := fun h =>
        ihrest htyped.2 hdecided.2 h hrecorded.2 hnull.2 (exact_of_definite htyped.2 hnull.2 h)
      rw [evaluate]
      cases isAnd with
      | true =>
          have hsome : filtered engine store first false r ≠ .yes ∨
              filtered engine store rest false r ≠ .yes := by
            rw [← not_and_or]
            simpa [filtered, joined] using hfiltered
          obtain h | h := hsome
          · simp [joined, hfirst h]
          · simp [joined, hrest h]
      | false =>
          have hboth : filtered engine store first false r ≠ .yes ∧
              filtered engine store rest false r ≠ .yes := by
            rw [← not_or]
            simpa [filtered, joined] using hfiltered
          simp [joined, hfirst hboth.1, hrest hboth.2]
  | not c _ => exact hcomplete hdecided
  | «exists» relation body ih =>
      have hnone : ∀ e ∈ visible engine store relation r,
          filtered engine store body false e ≠ .yes := by
        simpa [filtered] using hfiltered
      have hany : ((visible engine store relation r).any fun e =>
          filtered engine store body false e = .yes) = false := by
        simpa using hnone
      have hunknown : ∀ e ∈ visible engine store relation r,
          recorded engine store body false e = false ∧ readsNull store body e = false := by
        simpa [recorded, hany] using hrecorded
      rw [evaluate, Truth.any_eq_no_iff, List.forall_mem_map]
      intro e he
      exact ih (htyped e he) (hdecided e he) (hnone e he) (hunknown e he).1 (hunknown e he).2
        (exact_of_definite (htyped e he) (hunknown e he).2 (hnone e he))
  | all relation body _ => exact hcomplete hdecided

/-- The body of a negated `all`: what the filter is FALSE of, CEL evaluates to false. -/
theorem evaluate_of_filtered_no (htyped : typed engine store c r)
    (hdecided : decided engine store false c r) (hfiltered : filtered engine store c false r = .no) :
    evaluate engine store c r = .no := by
  have hcomplete : complete engine store c r → evaluate engine store c r = .no := by
    intro hcomplete
    have heq : filtered engine store c false r = evaluate engine store c r :=
      filtered_of_complete false htyped hcomplete
    rw [← heq, hfiltered]
  induction c generalizing r with
  | compared op field v => exact hfiltered
  | empty isAnd => simpa [filtered, evaluate] using hfiltered
  | junction isAnd first rest ihfirst ihrest =>
      have hfirst := fun h => ihfirst htyped.1 hdecided.1 h fun hcomplete =>
        (filtered_of_complete false htyped.1 hcomplete).symm.trans h
      have hrest := fun h => ihrest htyped.2 hdecided.2 h fun hcomplete =>
        (filtered_of_complete false htyped.2 hcomplete).symm.trans h
      rw [filtered] at hfiltered
      rw [evaluate]
      cases isAnd with
      | true =>
          obtain h | h := Truth.and_eq_no_iff.mp hfiltered
          · simp [joined, hfirst h]
          · simp [joined, hrest h]
      | false =>
          obtain ⟨h₁, h₂⟩ := Truth.or_eq_no_iff.mp hfiltered
          simp [joined, hfirst h₁, hrest h₂]
  | not c _ => exact hcomplete hdecided
  | «exists» relation body _ => exact hcomplete hdecided
  | all relation body _ => exact hcomplete hdecided

/-- Where the negated macros have their bodies decided, a filter holds only of records on
which CEL evaluates the condition, or its negation, to true. -/
theorem evaluate_of_filtered
    (htyped : typed engine store c r) (hguarded : guarded engine store c negated r)
    (hfiltered : filtered engine store c negated r = .yes) :
    (evaluate engine store c r).polarised negated = .yes := by
  induction c generalizing negated r with
  | compared op field v => exact hfiltered
  | empty isAnd =>
      rw [evaluate]
      cases isAnd <;> cases negated <;> simp_all [filtered]
  | junction isAnd first rest ihfirst ihrest =>
      have hfirst := @ihfirst negated r htyped.1 hguarded.1
      have hrest := @ihrest negated r htyped.2 hguarded.2
      rw [filtered] at hfiltered
      rw [evaluate]
      cases isAnd <;> cases negated <;> simp_all [joined]
      all_goals tauto
  | not c ih =>
      rw [evaluate, Truth.polarised_not]
      exact ih htyped hguarded hfiltered
  | «exists» relation body ih =>
      cases negated with
      | false =>
          simp only [filtered, Bool.false_eq_true, if_false, Truth.ofBool_eq_yes_iff,
            List.any_eq_true, decide_eq_true_eq] at hfiltered
          obtain ⟨e, he, hyes⟩ := hfiltered
          have hbody : evaluate engine store body e = .yes :=
            ih (htyped e he) (hguarded e he) hyes
          rw [Truth.polarised_false, evaluate, Truth.any_eq_yes_iff]
          exact hbody ▸ List.mem_map_of_mem he
      | true =>
          simp only [filtered, if_true, Truth.ofBool_eq_yes_iff, List.all_eq_true,
            Bool.and_eq_true, decide_eq_true_eq, Bool.not_eq_true', Bool.or_eq_false_iff] at hfiltered
          rw [Truth.polarised_true, Truth.not_eq_yes_iff, evaluate, Truth.any_eq_no_iff,
            List.forall_mem_map]
          intro e he
          obtain ⟨hyes, hrecorded, hnull⟩ := hfiltered e he
          exact evaluate_of_not_filtered (htyped e he) (hguarded e he) hyes hrecorded hnull
  | all relation body ih =>
      cases negated with
      | false =>
          simp only [filtered, Bool.false_eq_true, if_false, Truth.ofBool_eq_yes_iff,
            List.all_eq_true, Bool.and_eq_true, decide_eq_true_eq, Bool.not_eq_true'] at hfiltered
          rw [Truth.polarised_false, evaluate, Truth.all_eq_yes_iff, List.forall_mem_map]
          intro e he
          obtain ⟨hno, hnull⟩ := hfiltered e he
          have hdefinite : filtered engine store body false e ≠ .unknown :=
            filtered_ne_unknown (htyped e he) hnull
          apply ih (htyped e he) (hguarded e he)
          cases h : filtered engine store body false e with
          | yes => rfl
          | no => exact absurd h hno
          | unknown => exact absurd h hdefinite
      | true =>
          simp only [filtered, if_true, Truth.ofBool_eq_yes_iff, List.any_eq_true,
            decide_eq_true_eq] at hfiltered
          obtain ⟨e, he, hno⟩ := hfiltered
          rw [Truth.polarised_true, Truth.not_eq_yes_iff, evaluate, Truth.all_eq_no_iff]
          exact evaluate_of_filtered_no (htyped e he) (hguarded e he) hno ▸ List.mem_map_of_mem he

/-- Where no column holds a NULL, no macro reads one. -/
theorem complete_of_noNull (h : ∀ r field, (store.column r field).isNull = false) (c : Condition)
    (r : ρ) : complete engine store c r := by
  have hnull : ∀ (c : Condition) r, readsNull store c r = false := by
    intro c r
    rw [readsNull, List.any_eq_false]
    intro field _
    simp [h r field]
  induction c generalizing r with
  | compared op field v => trivial
  | empty isAnd => trivial
  | junction isAnd first rest ihfirst ihrest => exact ⟨ihfirst r, ihrest r⟩
  | not c ih => exact ih r
  | «exists» relation body ih => exact fun e _ => ⟨hnull body e, ih e⟩
  | all relation body ih => exact fun e _ => ⟨hnull body e, ih e⟩

end Soundness

end Condition

end QueryPlanAdapters.Prisma
