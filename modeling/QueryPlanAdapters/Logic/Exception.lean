import Mathlib.Logic.Basic

/-!
# Computations that may throw

Inversion of a successful run, and the rules for computations whose exceptions
all satisfy a given predicate. A computation that throws nothing is one whose
exceptions satisfy `fun _ => False`.
-/

namespace Except

variable {ε α β : Type}

variable {b : β} {x : Except ε α}

/-- A sequence of two computations succeeds exactly when both do. -/
theorem bind_eq_ok_iff {f : α → Except ε β} : (x >>= f) = .ok b ↔ ∃ a, x = .ok a ∧ f a = .ok b := by
  cases x <;> simp [bind, Except.bind]

/-- A check followed by a computation succeeds exactly when both do. -/
theorem bind_unit_eq_ok_iff {x : Except ε Unit} {f : Unit → Except ε β} :
    (x >>= f) = .ok b ↔ x = .ok () ∧ f () = .ok b := by
  cases x <;> simp [bind, Except.bind]

theorem map_eq_ok_iff {f : α → β} : f <$> x = .ok b ↔ ∃ a, x = .ok a ∧ f a = b := by
  cases x <;> simp [Functor.map, Except.map]

/-- Two computations with one mapped result throw alike, or both return. -/
theorem map_eq_map {γ : Type} {y : Except ε β} {f : α → γ} {g : β → γ} (h : x.map f = y.map g) :
    (∃ e, x = .error e ∧ y = .error e) ∨ ∃ a b, x = .ok a ∧ y = .ok b ∧ f a = g b := by
  cases x with
  | error e =>
      cases y with
      | error e' =>
          obtain rfl := Except.error.inj h
          exact .inl ⟨e, rfl, rfl⟩
      | ok b => cases h
  | ok a =>
      cases y with
      | error e' => cases h
      | ok b => exact .inr ⟨a, b, rfl, rfl, Except.ok.inj h⟩

/-- Throw when a condition holds. -/
def throwWhen (condition : Bool) (e : ε) : Except ε Unit :=
  if condition then .error e else .ok ()

@[simp] theorem throwWhen_eq_ok_iff {condition : Bool} {e : ε} :
    throwWhen condition e = .ok () ↔ condition = false := by
  cases condition <;> simp [throwWhen]

/-- Every exception the computation may throw is an allowed one. -/
def OnlyThrows (allowed : ε → Prop) (x : Except ε α) : Prop :=
  ∀ e, x = .error e → allowed e

section OnlyThrows

variable {allowed : ε → Prop}

@[simp] theorem onlyThrows_ok (a : α) : OnlyThrows allowed (.ok a) := by
  intro e h
  cases h

@[simp] theorem onlyThrows_error {e : ε} :
    OnlyThrows allowed (.error e : Except ε α) ↔ allowed e := by
  simp [OnlyThrows]

/-- Run a second computation after a first. -/
theorem OnlyThrows.bind {x : Except ε α} {f : α → Except ε β} (hx : OnlyThrows allowed x)
    (hf : ∀ a, x = .ok a → OnlyThrows allowed (f a)) : OnlyThrows allowed (x >>= f) := by
  cases x with
  | ok a => exact hf a rfl
  | error e => exact fun e' h => hx e' (congrArg _ (Except.error.inj h))

theorem OnlyThrows.map {x : Except ε α} (hx : OnlyThrows allowed x) (f : α → β) :
    OnlyThrows allowed (f <$> x) := by
  cases x with
  | ok a => exact onlyThrows_ok (f a)
  | error e => exact fun e' h => hx e' (congrArg _ (Except.error.inj h))

end OnlyThrows

end Except
