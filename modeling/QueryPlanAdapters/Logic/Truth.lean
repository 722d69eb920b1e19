import Mathlib.Data.List.Basic

/-!
# Kleene's three truth values

A condition evaluates to yes, to no, or to neither. The third value is read by
one client as an evaluation error that conjunction and disjunction may absorb,
and by another as the UNKNOWN of a database engine. Both obey the same strong
Kleene tables, so the laws are stated once, here, over plain lists of values.
-/

inductive Truth where
  | yes
  | no
  | unknown
  deriving DecidableEq, Repr

namespace Truth

def ofBool : Bool → Truth
  | true => yes
  | false => no

def not : Truth → Truth
  | yes => no
  | no => yes
  | unknown => unknown

def and : Truth → Truth → Truth
  | no, _ => no
  | yes, t => t
  | unknown, no => no
  | unknown, _ => unknown

def or : Truth → Truth → Truth
  | yes, _ => yes
  | no, t => t
  | unknown, yes => yes
  | unknown, _ => unknown

/-- The conjunction of a list. An empty conjunction holds. -/
def all : List Truth → Truth
  | [] => yes
  | t :: ts => t.and (all ts)

/-- The disjunction of a list. An empty disjunction fails. -/
def any : List Truth → Truth
  | [] => no
  | t :: ts => t.or (any ts)

/-- Negate under an odd number of enclosing negations, and only then. -/
def polarised (negated : Bool) (t : Truth) : Truth :=
  if negated then t.not else t

variable {t s : Truth} {b negated : Bool} {ts : List Truth}

@[simp] theorem polarised_false (t : Truth) : t.polarised false = t := rfl

@[simp] theorem polarised_true (t : Truth) : t.polarised true = t.not := rfl

@[simp] theorem not_not (t : Truth) : t.not.not = t := by cases t <;> rfl

@[simp] theorem not_eq_yes_iff : t.not = yes ↔ t = no := by
  cases t <;> simp [Truth.not]

@[simp] theorem not_eq_unknown_iff : t.not = unknown ↔ t = unknown := by
  cases t <;> simp [Truth.not]

@[simp] theorem ofBool_eq_yes_iff : ofBool b = yes ↔ b = true := by
  cases b <;> simp [ofBool]

@[simp] theorem ofBool_eq_no_iff : ofBool b = no ↔ b = false := by
  cases b <;> simp [ofBool]

@[simp] theorem ofBool_ne_unknown (b : Bool) : ofBool b ≠ unknown := by
  cases b <;> simp [ofBool]

theorem ofBool_inj {a : Bool} : ofBool a = ofBool b ↔ a = b := by
  cases a <;> cases b <;> simp [ofBool]

@[simp] theorem ofBool_true : ofBool true = yes := rfl

@[simp] theorem ofBool_false : ofBool false = no := rfl

@[simp] theorem not_yes : yes.not = no := rfl

@[simp] theorem not_no : no.not = yes := rfl

@[simp] theorem not_unknown : unknown.not = unknown := rfl

@[simp] theorem not_ofBool (b : Bool) : (ofBool b).not = ofBool (!b) := by
  cases b <;> rfl

@[simp] theorem yes_and (t : Truth) : yes.and t = t := rfl

@[simp] theorem and_yes (t : Truth) : t.and yes = t := by cases t <;> rfl

@[simp] theorem or_no (t : Truth) : t.or no = t := by cases t <;> rfl

@[simp] theorem no_and (t : Truth) : no.and t = no := by cases t <;> rfl

@[simp] theorem and_no (t : Truth) : t.and no = no := by cases t <;> rfl

@[simp] theorem and_and_self (s t : Truth) : s.and (s.and t) = s.and t := by
  cases s <;> cases t <;> rfl

@[simp] theorem no_or (t : Truth) : no.or t = t := rfl

@[simp] theorem yes_or (t : Truth) : yes.or t = yes := by cases t <;> rfl

@[simp] theorem or_yes (t : Truth) : t.or yes = yes := by cases t <;> rfl

@[simp] theorem or_or_self (s t : Truth) : s.or (s.or t) = s.or t := by
  cases s <;> cases t <;> rfl

@[simp] theorem and_ofBool (a b : Bool) : (ofBool a).and (ofBool b) = ofBool (a && b) := by
  cases a <;> rfl

@[simp] theorem or_ofBool (a b : Bool) : (ofBool a).or (ofBool b) = ofBool (a || b) := by
  cases a <;> rfl

theorem not_and (s t : Truth) : (s.and t).not = s.not.or t.not := by
  cases s <;> cases t <;> rfl

theorem not_or (s t : Truth) : (s.or t).not = s.not.and t.not := by
  cases s <;> cases t <;> rfl

@[simp] theorem polarised_unknown (negated : Bool) : unknown.polarised negated = unknown := by
  cases negated <;> rfl

theorem polarised_eq_unknown_iff : t.polarised negated = unknown ↔ t = unknown := by
  cases negated <;> simp

@[simp] theorem polarised_ofBool_eq_yes_iff :
    (ofBool b).polarised negated = yes ↔ (negated ^^ b) = true := by
  cases negated <;> cases b <;> simp [polarised, ofBool, Truth.not]

/-- A negation below a polarity flips the polarity. -/
theorem polarised_inj : s.polarised negated = t.polarised negated ↔ s = t := by
  cases negated <;> cases s <;> cases t <;> decide

theorem polarised_not (negated : Bool) (t : Truth) :
    t.not.polarised negated = t.polarised (!negated) := by
  cases negated <;> simp

@[simp] theorem and_eq_yes_iff : s.and t = yes ↔ s = yes ∧ t = yes := by
  cases s <;> cases t <;> simp [Truth.and]

@[simp] theorem and_eq_no_iff : s.and t = no ↔ s = no ∨ t = no := by
  cases s <;> cases t <;> simp [Truth.and]

@[simp] theorem or_eq_yes_iff : s.or t = yes ↔ s = yes ∨ t = yes := by
  cases s <;> cases t <;> simp [Truth.or]

@[simp] theorem or_eq_no_iff : s.or t = no ↔ s = no ∧ t = no := by
  cases s <;> cases t <;> simp [Truth.or]

/-! ## Lists of truth values -/

@[simp] theorem all_nil : all [] = yes := rfl

@[simp] theorem any_nil : any [] = no := rfl

@[simp] theorem all_cons (t : Truth) (ts : List Truth) : all (t :: ts) = t.and (all ts) := rfl

@[simp] theorem any_cons (t : Truth) (ts : List Truth) : any (t :: ts) = t.or (any ts) := rfl

theorem or_assoc (s t u : Truth) : (s.or t).or u = s.or (t.or u) := by
  cases s <;> cases t <;> cases u <;> rfl

theorem any_append (ss ts : List Truth) : any (ss ++ ts) = (any ss).or (any ts) := by
  induction ss with
  | nil => rfl
  | cons s ss ih => rw [List.cons_append, any_cons, any_cons, ih, or_assoc]

theorem all_eq_yes_iff : all ts = yes ↔ ∀ t ∈ ts, t = yes := by
  induction ts with
  | nil => simp
  | cons t ts ih => simp [ih]

theorem all_eq_no_iff : all ts = no ↔ no ∈ ts := by
  induction ts with
  | nil => simp
  | cons t ts ih => simp [ih, @eq_comm _ _ t]

theorem any_eq_yes_iff : any ts = yes ↔ yes ∈ ts := by
  induction ts with
  | nil => simp
  | cons t ts ih => simp [ih, @eq_comm _ _ t]

theorem any_eq_no_iff : any ts = no ↔ ∀ t ∈ ts, t = no := by
  induction ts with
  | nil => simp
  | cons t ts ih => simp [ih]

/-- De Morgan over a whole list, errors included. -/
theorem not_all (ts : List Truth) : (all ts).not = any (ts.map Truth.not) := by
  induction ts with
  | nil => rfl
  | cons t ts ih => simp [not_and, ih]

theorem not_any (ts : List Truth) : (any ts).not = all (ts.map Truth.not) := by
  induction ts with
  | nil => rfl
  | cons t ts ih => simp [not_or, ih]

/-- Negation pushed inward: a polarised junction is the junction, possibly the
other one, of the polarised operands. -/
theorem polarised_any (negated : Bool) (ts : List Truth) :
    (any ts).polarised negated =
      if negated then all (ts.map (·.polarised negated)) else any (ts.map (·.polarised negated)) := by
  cases negated with
  | false => simp
  | true => simpa using not_any ts

theorem polarised_all (negated : Bool) (ts : List Truth) :
    (all ts).polarised negated =
      if negated then any (ts.map (·.polarised negated)) else all (ts.map (·.polarised negated)) := by
  cases negated with
  | false => simp
  | true => simpa using not_all ts

/-- A disjunction by its witnesses: one that holds, and else one that is unknown. -/
theorem any_eq_ite (ts : List Truth) :
    any ts = if yes ∈ ts then yes else if unknown ∈ ts then unknown else no := by
  induction ts with
  | nil => rfl
  | cons t ts ih =>
      rw [any_cons, ih]
      cases t <;> simp only [List.mem_cons, reduceCtorEq, false_or, true_or, if_true, no_or, yes_or]
      split
      · rfl
      · split <;> rfl

/-- A conjunction by its witnesses: one that fails, and else one that is unknown. -/
theorem all_eq_ite (ts : List Truth) :
    all ts = if no ∈ ts then no else if unknown ∈ ts then unknown else yes := by
  induction ts with
  | nil => rfl
  | cons t ts ih =>
      rw [all_cons, ih]
      cases t <;> simp only [List.mem_cons, reduceCtorEq, false_or, true_or, if_true, yes_and, no_and]
      split
      · rfl
      · split <;> rfl

/-- Whether exactly one of a list holds. An unknown one is never absorbed. -/
def exactlyOne (ts : List Truth) : Truth :=
  if unknown ∈ ts then unknown else ofBool (ts.count yes = 1)

end Truth
