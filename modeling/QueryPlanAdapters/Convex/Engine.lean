import QueryPlanAdapters.Convex.Pushdown

/-!
# Convex's filter engine

The filter builder of the database, evaluated on one document. Stored values are
ordered across types; the order inside arrays and inside objects plays no part
in an emitted filter and is a parameter.
-/

namespace QueryPlanAdapters.Convex

inductive StoredValue where
  | undefined
  | null
  | int64 (n : Int)
  | float64 (d : Double)
  | bool (b : Bool)
  | string (s : String)
  | bytes (contents : List UInt8)
  | array (items : List StoredValue)
  | object (fields : List (String × StoredValue))

namespace StoredValue

mutual

/-- The value a JSON value is stored as: every number is a float64. -/
def ofJson : Json → StoredValue
  | .null => null
  | .bool b => bool b
  | .number n => float64 n.value
  | .string s => string s
  | .array items => array (ofJsonList items)
  | .object fields => object (ofJsonFields fields)

def ofJsonList : List Json → List StoredValue
  | [] => []
  | item :: items => ofJson item :: ofJsonList items

def ofJsonFields : List (String × Json) → List (String × StoredValue)
  | [] => []
  | (key, field) :: fields => (key, ofJson field) :: ofJsonFields fields

end

/-- A value's place in the order of types. -/
def typeRank : StoredValue → Nat
  | undefined => 0
  | null => 1
  | int64 _ => 2
  | float64 _ => 3
  | bool _ => 4
  | string _ => 5
  | bytes _ => 6
  | array _ => 7
  | object _ => 8

def lexicographic : List UInt8 → List UInt8 → Bool
  | _, [] => false
  | [], _ :: _ => true
  | a :: as, b :: bs => a < b || (a == b && lexicographic as bs)

/-- The order of two values of one type. -/
def ltSameType (inner : StoredValue → StoredValue → Bool) : StoredValue → StoredValue → Bool
  | int64 a, int64 b => a < b
  | float64 a, float64 b => a.lt b
  | bool a, bool b => !a && b
  | string a, string b => compareCodePoints a.toList b.toList < 0
  | bytes a, bytes b => lexicographic a b
  | array as, array bs => inner (array as) (array bs)
  | object as, object bs => inner (object as) (object bs)
  | _, _ => false

/-- The total order: by type first. -/
def lt (inner : StoredValue → StoredValue → Bool) (a b : StoredValue) : Bool :=
  if a.typeRank = b.typeRank then ltSameType inner a b else a.typeRank < b.typeRank

mutual

/-- Structural equality. -/
def same : StoredValue → StoredValue → Bool
  | undefined, undefined => true
  | null, null => true
  | int64 a, int64 b => a = b
  | float64 a, float64 b => a.eq b
  | bool a, bool b => a = b
  | string a, string b => a = b
  | bytes a, bytes b => a = b
  | array as, array bs => sameItems as bs
  | object as, object bs =>
      (as.map Prod.fst).insertionSort (· ≤ ·) = (bs.map Prod.fst).insertionSort (· ≤ ·) &&
        sameFields as bs []
  | _, _ => false

def sameItems : List StoredValue → List StoredValue → Bool
  | [], [] => true
  | a :: as, b :: bs => same a b && sameItems as bs
  | _, _ => false

def sameFields : List (String × StoredValue) → List (String × StoredValue) →
    (seen : List String) → Bool
  | [], _, _ => true
  | (key, a) :: as, bs, seen =>
      (seen.contains key ||
        match bs.lookup key with
        | some b => same a b
        | none => false) && sameFields as bs (key :: seen)

end

def getPart (v : StoredValue) (part : String) : StoredValue :=
  match v with
  | object fields => (fields.lookup part).getD undefined
  | _ => undefined

/-- What a dotted path reads, `undefined` where a part of it is absent. -/
def getPath (v : StoredValue) (path : String) : StoredValue :=
  (pathParts path).foldl getPart v

/-- A filter's verdict on the document. -/
def holds : StoredValue → Bool
  | bool b => b
  | _ => false

end StoredValue

/-- What a comparison's argument denotes on a document. -/
def FilterArg.stored : FilterArg StoredValue → StoredValue
  | expr e => e
  | json literal => .ofJson literal
  | int64 n => .int64 n
  | bytes contents => .bytes contents

/-- The builder whose expressions are their values on one document. -/
def engine (inner : StoredValue → StoredValue → Bool) (doc : StoredValue) :
    FilterQ StoredValue where
  eq a b := .bool (a.stored.same b.stored)
  neq a b := .bool (!a.stored.same b.stored)
  lt a b := .bool (a.stored.lt inner b.stored)
  lte a b := .bool (!b.stored.lt inner a.stored)
  gt a b := .bool (b.stored.lt inner a.stored)
  gte a b := .bool (!a.stored.lt inner b.stored)
  and es := .bool (es.all (·.holds))
  or es := .bool (es.any (·.holds))
  not e := .bool (!e.holds)
  field path := doc.getPath path

section Verdicts

variable (inner : StoredValue → StoredValue → Bool) (doc : StoredValue)

@[simp] theorem holds_and (es : List StoredValue) :
    ((engine inner doc).and es).holds = es.all (·.holds) := rfl

@[simp] theorem holds_or (es : List StoredValue) :
    ((engine inner doc).or es).holds = es.any (·.holds) := rfl

@[simp] theorem holds_not (e : StoredValue) : ((engine inner doc).not e).holds = !e.holds := rfl

@[simp] theorem holds_polarised (negated : Bool) (e : StoredValue) :
    ((engine inner doc).polarised negated e).holds = (negated ^^ e.holds) := by
  cases negated <;> simp [FilterQ.polarised]

@[simp] theorem holds_constant (b : Bool) : ((engine inner doc).constant b).holds = b := by
  cases b <;> rfl

/-- A junction of emitted operands holds as the conjunction or the disjunction
of their verdicts, however many there are. -/
@[simp] theorem holds_emitJunction (disjunction : Bool) (emitted : List StoredValue) :
    (emitJunction (engine inner doc) disjunction emitted).holds =
      if disjunction then emitted.any (·.holds) else emitted.all (·.holds) := by
  match emitted with
  | [] => cases disjunction <;> simp [emitJunction]
  | [e] => simp [emitJunction]
  | e :: e' :: es => cases disjunction <;> simp [emitJunction]

end Verdicts

/-- A list of operands is emitted exactly when each of them is. -/
theorem emitEach_eq_ok_iff {ε : Type} {q : FilterQ ε} {mapper : Mapper} {negated : Bool}
    {operands : List Operand} {emitted : List ε} :
    emitEach q mapper operands negated = .ok emitted ↔
      List.Forall₂ (fun operand e => emitExpression q mapper operand negated = .ok e)
        operands emitted := by
  induction operands generalizing emitted with
  | nil => simp [emitEach, eq_comm]
  | cons operand operands ih =>
      rw [emitEach]
      cases hfirst : emitExpression q mapper operand negated with
      | error thrown =>
          refine iff_of_false (by simp [bind, Except.bind]) ?_
          rintro (_ | ⟨h, _⟩)
          simp [hfirst] at h
      | ok e =>
          cases hrest : emitEach q mapper operands negated with
          | error thrown =>
              refine iff_of_false (by simp [bind, Except.bind]) ?_
              rintro (_ | ⟨_, h⟩)
              simp [ih.mpr h] at hrest
          | ok es =>
              have hes := ih.mp hrest
              constructor
              · intro h
                obtain rfl : e :: es = emitted := by simpa [bind, Except.bind, pure, Except.pure] using h
                exact .cons hfirst hes
              · rintro (_ | ⟨h, h'⟩)
                obtain rfl := Except.ok.inj (hfirst.symm.trans h)
                obtain rfl := Except.ok.inj (hrest.symm.trans (ih.mpr h'))
                rfl

end QueryPlanAdapters.Convex
