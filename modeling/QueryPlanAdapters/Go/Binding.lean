import QueryPlanAdapters.Go.Meaning

/-!
# Go: binding by substitution

A macro over known elements is unrolled by replacing the variable in its body. The
replacement means what the bound body means, as long as no lambda inside the body binds a
name that the element reads.
-/

namespace QueryPlanAdapters.Go

/-! ## Bound variables -/

/-- The variable that the lambda of a macro binds. -/
def boundName (operator : PlanOperator) (operands : List Node) : Option String :=
  match operands with
  | [_, .expression .lambda [_, .var name]] => if lambdaBinding operator then some name else none
  | _ => none

theorem boundName_eq_some_iff {operator : PlanOperator} {operands : List Node} {name : String} :
    boundName operator operands = some name ↔ lambdaBinding operator = true ∧
      ∃ collection body, operands = [collection, .expression .lambda [body, .var name]] := by
  constructor
  · intro h
    unfold boundName at h
    split at h
    next collection body inner =>
      split at h
      next hbinding =>
        obtain rfl := Option.some.inj h
        exact ⟨hbinding, collection, body, rfl⟩
      next => cases h
    next => cases h
  · rintro ⟨hbinding, collection, body, rfl⟩
    exact if_pos hbinding

theorem rebindsVariable_iff {operator : PlanOperator} {operands : List Node} {name : String} :
    rebindsVariable operator operands name = true ↔ boundName operator operands = some name := by
  rw [boundName_eq_some_iff]
  unfold rebindsVariable
  rw [Bool.and_eq_true]
  refine and_congr_right fun _ => ⟨fun h => ?_, ?_⟩
  · split at h
    next collection body inner =>
      obtain rfl : inner = name := by simpa using h
      exact ⟨collection, body, rfl⟩
    next => cases h
  · rintro ⟨collection, body, rfl⟩
    exact decide_eq_true rfl

/-- The references of a node that no lambda inside it binds. -/
def freeReferences : Node → List String :=
  Operand.fold (fun _ => []) (fun reference => [reference]) fun operator operands each inner =>
    match boundName operator operands, each, inner with
    | some name, [collection, _], [_, [body, _]] =>
        collection ++ body.filter fun reference => !readsVariable name reference
    | _, each, _ => each.flatten

theorem freeReferences_unbound {operator : PlanOperator} {operands : List Node}
    (h : boundName operator operands = none) :
    freeReferences (.expression operator operands) = operands.flatMap freeReferences := by
  rw [freeReferences, Operand.fold_expression]
  simp only [h]
  exact List.flatMap_def.symm

theorem freeReferences_bound {operator : PlanOperator} (h : lambdaBinding operator = true)
    (collection body : Node) (name : String) :
    freeReferences (.expression operator [collection, .expression .lambda [body, .var name]]) =
      freeReferences collection ++
        (freeReferences body).filter fun reference => !readsVariable name reference := by
  have hbound : boundName operator [collection, .expression .lambda [body, .var name]] = some name :=
    if_pos h
  rw [freeReferences, Operand.fold_expression]
  simp only [hbound]
  rfl

section Meanings

variable {functions : Functions} {env env' : Valuation}

/-- What an operator that binds no variable makes of what its operands are. -/
def applied (functions : Functions) (operator : PlanOperator) (outcomes : List Outcome) : Outcome :=
  match operator, outcomes with
  | .and, outcomes => .ofTruth (Truth.all (outcomes.map Outcome.asBoolean))
  | .or, outcomes => .ofTruth (Truth.any (outcomes.map Outcome.asBoolean))
  | .not, [x] => .ofTruth x.asBoolean.not
  | .if, [cond, whenTrue, whenFalse] => chosenOutcome cond.asBoolean whenTrue whenFalse
  | .not, _ | .if, _ | .lambda, _ => .error
  | operator, outcomes =>
      if lambdaBinding operator then .error
      else (outcomes.mapM Outcome.toValue).elim .error (functions.apply operator)

theorem meaning_unbound {operator : PlanOperator} {operands : List Node}
    (h : boundName operator operands = none) :
    meaning functions (.expression operator operands) env =
      applied functions operator (operands.map fun o => meaning functions o env) := by
  cases hstrict : isStrict operator with
  | true =>
      have happlied : ∀ outcomes, applied functions operator outcomes =
          (outcomes.mapM Outcome.toValue).elim .error (functions.apply operator) := by
        intro outcomes
        cases operator <;> first | rfl | cases hstrict
      rw [meaning_strict hstrict, happlied, List.mapM_map]
      rfl
  | false =>
      -- A macro without a lambda of one variable errs.
      have herror : lambdaBinding operator = true → ∀ each inner,
          macroMeaning operator operands each inner env = .error := by
        intro hbinding each inner
        unfold macroMeaning
        split
        next =>
          rw [boundName_eq_some_iff.mpr ⟨hbinding, _, _, rfl⟩] at h
          cases h
        next => rfl
      rw [meaning_expression]
      cases operator with
      | and | or => simp only [expressionMeaning, applied, List.map_map]; rfl
      | not => rcases operands with _ | ⟨_, _ | ⟨_, _⟩⟩ <;> rfl
      | «if» =>
          rcases operands with _ | ⟨_, _ | ⟨_, _ | ⟨_, _ | ⟨_, _⟩⟩⟩⟩ <;> rfl
      | lambda => rfl
      | «exists» | existsOne | all | filter | map => exact herror rfl _ _
      | _ => cases hstrict

/-- What a node means depends on its free references only. -/
theorem meaning_congr {n : Node} (h : ∀ reference ∈ freeReferences n, env reference = env' reference) :
    meaning functions n env = meaning functions n env' := by
  induction n using Operand.inductionTwo generalizing env env' with
  | value v => rfl
  | var reference => exact h reference List.mem_cons_self
  | expression operator operands ih ihInner =>
      cases hbound : boundName operator operands with
      | none =>
          rw [freeReferences_unbound hbound] at h
          rw [meaning_unbound hbound, meaning_unbound hbound]
          congr 1
          apply List.map_congr_left
          intro o ho
          exact ih o ho fun reference hr => h reference (List.mem_flatMap_of_mem ho hr)
      | some name =>
          obtain ⟨hbinding, collection, body, rfl⟩ := boundName_eq_some_iff.mp hbound
          rw [freeReferences_bound hbinding] at h
          have hbody : ∀ v, meaning functions body (env.bind name v) =
              meaning functions body (env'.bind name v) := by
            intro v
            apply ihInner (.expression .lambda [body, .var name])
              (List.mem_cons_of_mem _ List.mem_cons_self) body List.mem_cons_self
            intro reference hr
            cases hreads : readsVariable name reference with
            | true => exact Valuation.bind_of_reads hreads
            | false =>
                rw [Valuation.bind_of_not_reads hreads, Valuation.bind_of_not_reads hreads]
                apply h reference
                apply List.mem_append_right
                simpa [hreads] using hr
          rw [meaning_overElements hbinding, meaning_overElements hbinding, ih collection List.mem_cons_self
            fun reference hr => h reference (List.mem_append_left _ hr)]
          simp only [hbody]

end Meanings

/-! ## Substitution -/

def isLambda : Node → Bool
  | .expression .lambda _ => true
  | _ => false

/-- No reference is a path through both variables. -/
def Apart (name inner : String) : Prop :=
  ∀ reference, readsVariable inner reference = true → readsVariable name reference = false

/-- No lambda in a node captures one of the references that replace a variable: where the
variable occurs in the lambda's body, the lambda binds none of them. -/
inductive CaptureFree (name : String) (refs : List String) : Node → Prop
  | value (v : Literal) : CaptureFree name refs (.value v)
  | var (reference : String) : CaptureFree name refs (.var reference)
  | unbound {operator : PlanOperator} {operands : List Node}
      (h : boundName operator operands = none) (hoperands : ∀ o ∈ operands, CaptureFree name refs o) :
      CaptureFree name refs (.expression operator operands)
  | rebound {operator : PlanOperator} {collection body : Node} (h : lambdaBinding operator = true)
      (hcollection : CaptureFree name refs collection) :
      CaptureFree name refs
        (.expression operator [collection, .expression .lambda [body, .var name]])
  | bound {operator : PlanOperator} {collection body : Node} {inner : String}
      (h : lambdaBinding operator = true) (hapart : Apart name inner)
      (hcollection : CaptureFree name refs collection) (hbody : CaptureFree name refs body)
      (hfree : (∃ reference ∈ freeReferences body, readsVariable name reference = true) →
        ∀ reference ∈ refs, readsVariable inner reference = false) :
      CaptureFree name refs
        (.expression operator [collection, .expression .lambda [body, .var inner]])

section Substitution

variable {functions : Functions} {onReference : String → Except Failure Node} {name : String}
  {refs : List String} {n n' : Node} {operator : PlanOperator} {operands operands' : List Node}
  {env env' : Valuation}

theorem CaptureFree.mono {refs' : List String} (h : CaptureFree name refs n)
    (hsub : ∀ reference ∈ refs', reference ∈ refs) : CaptureFree name refs' n := by
  induction h with
  | value v => exact .value v
  | var reference => exact .var reference
  | unbound h hoperands ih => exact .unbound h ih
  | rebound h hcollection ih => exact .rebound h ih
  | bound h hapart hcollection hbody hfree ihc ihb =>
      exact .bound h hapart ihc ihb fun hoccurs reference hr => hfree hoccurs reference (hsub _ hr)

theorem substituteEach_forall₂ (h : substituteEach onReference name operands = .ok operands') :
    List.Forall₂ (fun o o' => substituteReferences onReference name o = .ok o') operands operands' := by
  induction operands generalizing operands' with
  | nil =>
      obtain rfl := Except.ok.inj h
      exact .nil
  | cons o operands ih =>
      rw [substituteEach] at h
      obtain ⟨o', ho, h⟩ := Except.bind_eq_ok_iff.mp h
      obtain ⟨os, hos, h⟩ := Except.bind_eq_ok_iff.mp h
      obtain rfl := Except.ok.inj h
      exact .cons ho (ih hos)

theorem map_eq_of_forall₂ {α β γ : Type} {f : α → γ} {g : β → γ} {as : List α} {bs : List β}
    (h : List.Forall₂ (fun a b => g b = f a) as bs) : bs.map g = as.map f := by
  induction h with
  | nil => rfl
  | cons hab _ ih => rw [List.map_cons, List.map_cons, hab, ih]

/-- An expression that does not bind the variable again is replaced operand by operand. -/
theorem substituteReferences_expression
    (hrebinds : boundName operator operands ≠ some name)
    (h : substituteReferences onReference name (.expression operator operands) = .ok n') :
    ∃ operands', n' = .expression operator operands' ∧
      List.Forall₂ (fun o o' => substituteReferences onReference name o = .ok o')
        operands operands' := by
  have hnot : rebindsVariable operator operands name = false := by
    rw [← Bool.not_eq_true, rebindsVariable_iff]
    exact hrebinds
  rw [substituteReferences, hnot, if_neg Bool.false_ne_true] at h
  obtain ⟨operands', hoperands, h⟩ := Except.bind_eq_ok_iff.mp h
  obtain rfl := Except.ok.inj h
  exact ⟨operands', rfl, substituteEach_forall₂ hoperands⟩

/-- A replacement that is an expression replaces an expression, unless a variable is. -/
theorem substituteReferences_eq_expression
    (h : substituteReferences onReference name n = .ok (.expression operator operands')) :
    (∃ reference, n = .var reference ∧ onReference reference = .ok (.expression operator operands')) ∨
      ∃ operands, n = .expression operator operands := by
  cases n with
  | value v => cases h
  | var reference => exact .inl ⟨reference, rfl, h⟩
  | expression operator' operands =>
      rw [substituteReferences] at h
      split at h
      · obtain ⟨collection, -, h⟩ := Except.bind_eq_ok_iff.mp h
        obtain ⟨rfl, -⟩ := Operand.expression.inj (Except.ok.inj h)
        exact .inr ⟨operands, rfl⟩
      · obtain ⟨each, -, h⟩ := Except.bind_eq_ok_iff.mp h
        obtain ⟨rfl, -⟩ := Operand.expression.inj (Except.ok.inj h)
        exact .inr ⟨operands, rfl⟩

/-- No lambda of one variable arises where there was none. -/
theorem boundName_substituted
    (hlambda : ∀ reference n', onReference reference = .ok n' → isLambda n' = false)
    (hoperands : List.Forall₂ (fun o o' => substituteReferences onReference name o = .ok o')
      operands operands')
    (hbound : boundName operator operands = none) : boundName operator operands' = none := by
  cases hbound' : boundName operator operands' with
  | none => rfl
  | some inner =>
      obtain ⟨hbinding, collection', body', rfl⟩ := boundName_eq_some_iff.mp hbound'
      obtain _ | ⟨hcollection, _ | ⟨hlambdaNode, _ | _⟩⟩ := hoperands
      obtain ⟨reference, -, hreference⟩ | ⟨parts, rfl⟩ :=
        substituteReferences_eq_expression hlambdaNode
      · cases hlambda _ _ hreference
      · have hnone : boundName .lambda parts ≠ some name := by
          intro hname
          cases (boundName_eq_some_iff.mp hname).1
        obtain ⟨parts', heq, hparts⟩ := substituteReferences_expression hnone hlambdaNode
        obtain ⟨-, rfl⟩ := Operand.expression.inj heq
        obtain _ | ⟨hbody, _ | ⟨hvar, _ | _⟩⟩ := hparts
        -- Only a variable is replaced by one.
        rename_i collection body variableNode
        cases variableNode with
        | value v => cases hvar
        | var outer =>
            rw [boundName_eq_some_iff.mpr ⟨hbinding, collection, body, rfl⟩] at hbound
            cases hbound
        | expression operator' operands' =>
            rw [substituteReferences] at hvar
            split at hvar
            · obtain ⟨_, -, hvar⟩ := Except.bind_eq_ok_iff.mp hvar
              cases hvar
            · obtain ⟨_, -, hvar⟩ := Except.bind_eq_ok_iff.mp hvar
              cases hvar

/-- What replaces a variable: a reference that does not read it stays itself, no lambda is put
in its place, and what is put there reads the given references only. -/
structure Replaces (onReference : String → Except Failure Node) (name : String)
    (refs : List String) : Prop where
  keeps : ∀ {reference n'}, readsVariable name reference = false →
    onReference reference = .ok n' → n' = .var reference
  isLambda_eq : ∀ {reference n'}, onReference reference = .ok n' → isLambda n' = false
  mem_refs : ∀ {reference n'}, readsVariable name reference = true →
    onReference reference = .ok n' → ∀ r ∈ freeReferences n', r ∈ refs

/-- A node in which a variable is replaced means what the node means where the variable is
bound, if no lambda captures what replaces it. -/
theorem meaning_substituted (hreplaces : Replaces onReference name refs)
    (hcapture : CaptureFree name refs n)
    (h : substituteReferences onReference name n = .ok n')
    (hsame : ∀ reference, readsVariable name reference = false → env' reference = env reference)
    (hreads : ∀ reference ∈ freeReferences n, readsVariable name reference = true →
      ∀ r', onReference reference = .ok r' → meaning functions r' env = env' reference) :
    meaning functions n' env = meaning functions n env' := by
  induction hcapture generalizing n' env env' with
  | value v =>
      obtain rfl := Except.ok.inj h
      rfl
  | var reference =>
      cases hname : readsVariable name reference with
      | true => exact hreads reference List.mem_cons_self hname n' h
      | false =>
          obtain rfl := hreplaces.keeps hname h
          exact (hsame reference hname).symm
  | @unbound operator operands hbound hoperands ih =>
      obtain ⟨operands', rfl, hsubstituted⟩ := substituteReferences_expression
        (by rw [hbound]; nofun) h
      rw [freeReferences_unbound hbound] at hreads
      rw [meaning_unbound hbound, meaning_unbound (boundName_substituted
        (fun _ _ => hreplaces.isLambda_eq) hsubstituted hbound)]
      have heach : List.Forall₂ (fun o o' => meaning functions o' env = meaning functions o env')
          operands operands' := by
        refine ((List.forall₂_and_left operands operands').mpr
          ⟨fun _ h => h, hsubstituted⟩).imp fun o o' h => ?_
        exact ih o h.1 h.2 hsame fun reference hr =>
          hreads reference (List.mem_flatMap_of_mem h.1 hr)
      congr 1
      exact map_eq_of_forall₂ heach
  | @rebound operator collection body hbinding hcollection ih =>
      have hrebinds : rebindsVariable operator
          [collection, .expression .lambda [body, .var name]] name = true :=
        rebindsVariable_iff.mpr (if_pos hbinding)
      rw [substituteReferences, hrebinds, if_pos rfl, substituteCollection] at h
      obtain ⟨collections, hcollections, h⟩ := Except.bind_eq_ok_iff.mp h
      obtain ⟨collection', hsubstituted, hcollections⟩ := Except.bind_eq_ok_iff.mp hcollections
      obtain rfl := Except.ok.inj hcollections
      obtain rfl := Except.ok.inj h
      rw [freeReferences_bound hbinding] at hreads
      have hbody : ∀ v, meaning functions body (env.bind name v) =
          meaning functions body (env'.bind name v) := by
        intro v
        apply meaning_congr
        intro reference _
        cases hname : readsVariable name reference with
        | true => exact Valuation.bind_of_reads hname
        | false =>
            rw [Valuation.bind_of_not_reads hname, Valuation.bind_of_not_reads hname,
              hsame reference hname]
      show meaning functions
        (.expression operator [collection', .expression .lambda [body, .var name]]) env = _
      rw [meaning_overElements hbinding, meaning_overElements hbinding, ih hsubstituted hsame fun reference hr =>
        hreads reference (List.mem_append_left _ hr)]
      simp only [hbody]
  | @bound operator collection body inner hbinding hapart hcollection hbody hfree ihc ihb =>
      have hinner : readsVariable name inner = false :=
        hapart inner (by simp [readsVariable])
      have hne : boundName operator [collection, .expression .lambda [body, .var inner]] ≠
          some name := by
        intro hname
        obtain rfl : inner = name := Option.some.inj ((if_pos hbinding).symm.trans hname)
        simp [readsVariable] at hinner
      have hlambda : boundName .lambda [body, .var inner] ≠ some name := by
        intro hname
        cases (boundName_eq_some_iff.mp hname).1
      obtain ⟨operands', rfl, hsubstituted⟩ := substituteReferences_expression hne h
      obtain _ | ⟨hcollection', _ | ⟨hlambda', _ | _⟩⟩ := hsubstituted
      obtain ⟨parts, rfl, hparts⟩ := substituteReferences_expression hlambda hlambda'
      obtain _ | ⟨hbody', _ | ⟨hvar, _ | _⟩⟩ := hparts
      obtain rfl := hreplaces.keeps hinner hvar
      rename_i collection' body'
      rw [freeReferences_bound hbinding] at hreads
      have hbodies : ∀ v, meaning functions body' (env.bind inner v) =
          meaning functions body (env'.bind inner v) := by
        intro v
        apply ihb hbody'
        · intro reference hname
          cases hreads' : readsVariable inner reference with
          | true => exact Valuation.bind_of_reads hreads'
          | false =>
              rw [Valuation.bind_of_not_reads hreads', Valuation.bind_of_not_reads hreads',
                hsame reference hname]
        · intro reference hr hname r' hr'
          have hreads' : readsVariable inner reference = false := by
            rw [← Bool.not_eq_true]
            intro hinner'
            rw [hapart reference hinner'] at hname
            cases hname
          -- What replaces the variable reads the same outside of the inner lambda.
          have houter : meaning functions r' (env.bind inner v) = meaning functions r' env := by
            apply meaning_congr
            intro free hfree'
            exact Valuation.bind_of_not_reads
              (hfree ⟨reference, hr, hname⟩ free (hreplaces.mem_refs hname hr' free hfree'))
          rw [houter, Valuation.bind_of_not_reads hreads']
          refine hreads reference (List.mem_append_right _ ?_) hname r' hr'
          simpa [hreads'] using hr
      rw [meaning_overElements hbinding, meaning_overElements hbinding, ihc hcollection' hsame fun reference hr =>
        hreads reference (List.mem_append_left _ hr)]
      simp only [hbodies]

end Substitution

end QueryPlanAdapters.Go
