import QueryPlanAdapters.Logic.Exception
import Mathlib.Data.List.Forall2

/-!
# Contracts of computations that return or throw

`Returns` says what an exception computation returns when it returns at all, and
`Yields` what a computation with a state returns, and in which state, when it is
started in a given one. Nothing is said of a run that throws.
-/

variable {σ ε α β γ : Type}

namespace Except

/-- Whatever the computation returns satisfies the postcondition. -/
def Returns (x : Except ε α) (Q : α → Prop) : Prop :=
  ∀ a, x = .ok a → Q a

section Returns

variable {x : Except ε α} {Q R : α → Prop}

@[simp] theorem returns_ok {a : α} : Returns (.ok a : Except ε α) Q ↔ Q a := by
  simp [Returns]

@[simp] theorem returns_pure {a : α} : Returns (pure a : Except ε α) Q ↔ Q a :=
  returns_ok

@[simp] theorem returns_error (e : ε) : Returns (.error e : Except ε α) Q := by
  intro a h
  cases h

@[simp] theorem returns_throw (e : ε) : Returns (throw e : Except ε α) Q :=
  returns_error e

theorem Returns.imp (h : Returns x Q) (hQ : ∀ a, Q a → R a) : Returns x R :=
  fun a ha => hQ a (h a ha)

/-- Run a second computation after a first. -/
theorem Returns.bind {f : α → Except ε β} {P : β → Prop} (hx : Returns x Q)
    (hf : ∀ a, Q a → Returns (f a) P) : Returns (x >>= f) P := by
  intro b hb
  obtain ⟨a, ha, hb⟩ := bind_eq_ok_iff.mp hb
  exact hf a (hx a ha) b hb

/-- Each element is carried to one that satisfies the postcondition. -/
theorem Returns.mapM {f : α → Except ε β} {P : β → Prop} {xs : List α}
    (hf : ∀ a ∈ xs, Returns (f a) P) : Returns (xs.mapM f) fun bs => ∀ b ∈ bs, P b := by
  induction xs with
  | nil => simp [Returns, Pure.pure, Except.pure]
  | cons a xs ih =>
      obtain ⟨ha, hxs⟩ := List.forall_mem_cons.mp hf
      rw [List.mapM_cons]
      refine ha.bind fun b hb => (ih hxs).bind fun bs hbs => ?_
      simpa using ⟨hb, hbs⟩

end Returns

end Except

/-- Started in `s`, whatever the computation returns satisfies the postcondition. -/
def Yields (x : StateT σ (Except ε) α) (s : σ) (Q : α → σ → Prop) : Prop :=
  Except.Returns (x s) fun r => Q r.1 r.2

namespace Yields

variable {x : StateT σ (Except ε) α} {s : σ} {Q R : α → σ → Prop}

theorem of_run (h : Yields x s Q) {a : α} {s' : σ} (hrun : x s = .ok (a, s')) : Q a s' :=
  h _ hrun

theorem imp (h : Yields x s Q) (hQ : ∀ a s', Q a s' → R a s') : Yields x s R :=
  Except.Returns.imp h fun r => hQ r.1 r.2

theorem trivial (x : StateT σ (Except ε) α) (s : σ) : Yields x s fun _ _ => True :=
  fun _ _ => True.intro

theorem pure {a : α} (h : Q a s) : Yields (Pure.pure a : StateT σ (Except ε) α) s Q :=
  Except.returns_ok.mpr h

theorem throw (e : ε) : Yields (MonadExcept.throw e : StateT σ (Except ε) α) s Q := by
  intro r h
  cases h

/-- Run a second computation after a first. -/
theorem bind {f : α → StateT σ (Except ε) β} {P : β → σ → Prop} (hx : Yields x s Q)
    (hf : ∀ a s', Q a s' → Yields (f a) s' P) : Yields (x >>= f) s P :=
  Except.Returns.bind hx fun r hr => hf r.1 r.2 hr

/-- A stateless computation leaves the state as it is. -/
theorem lift {x : Except ε α} {P : α → Prop} (h : x.Returns P) :
    Yields (liftM x : StateT σ (Except ε) α) s fun a s' => P a ∧ s' = s := by
  intro r hr
  cases x with
  | error e => cases hr
  | ok a =>
      obtain rfl := Except.ok.inj hr
      exact ⟨h a rfl, rfl⟩

theorem modifyGet {f : σ → α × σ} (h : Q (f s).1 (f s).2) :
    Yields (modifyGet f : StateT σ (Except ε) α) s Q := by
  intro r hr
  obtain rfl := Except.ok.inj hr
  exact h

/-- A loop that carries each element to one related to it, under an invariant of the state. -/
theorem mapM {f : α → StateT σ (Except ε) β} {P : α → β → Prop} {I : σ → Prop} {xs : List α}
    (hs : I s) (hf : ∀ a ∈ xs, ∀ s, I s → Yields (f a) s fun b s' => P a b ∧ I s') :
    Yields (xs.mapM f) s fun bs s' => List.Forall₂ P xs bs ∧ I s' := by
  induction xs generalizing s with
  | nil => exact pure ⟨.nil, hs⟩
  | cons a xs ih =>
      obtain ⟨ha, hxs⟩ := List.forall_mem_cons.mp hf
      rw [List.mapM_cons]
      refine (ha s hs).bind fun b s' hb => (ih hb.2 hxs).bind fun bs s'' hbs => ?_
      exact pure ⟨.cons hb.1 hbs.1, hbs.2⟩

end Yields
