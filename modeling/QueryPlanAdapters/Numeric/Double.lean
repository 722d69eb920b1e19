import Mathlib.Data.Rat.Floor
import Mathlib.Algebra.Order.Ring.Rat

/-!
# Double-precision numbers

A double is a finite rational, a negative zero, an infinity or a NaN. The
arithmetic is that of IEEE 754: the exact rational result is formed first and
rounded once. The rounding function is a parameter of the whole development.
`nearestEven` is the standard one, used wherever a value is computed; a result
proved for every `Rounding` also holds when finite arithmetic is taken as exact.
-/

inductive Double where
  | finite (value : ℚ)
  | negZero
  | posInf
  | negInf
  | nan
  deriving DecidableEq, Repr

namespace Double

instance : OfNat Double n := ⟨.finite n⟩

def isNaN : Double → Bool
  | nan => true
  | _ => false

def isFinite : Double → Bool
  | finite _ | negZero => true
  | _ => false

def isInfinite : Double → Bool
  | posInf | negInf => true
  | _ => false

/-- The rational a finite double denotes; both zeros denote zero. -/
def toRat : Double → ℚ
  | finite q => q
  | _ => 0

/-- The sign bit. -/
def signBit : Double → Bool
  | finite q => q < 0
  | negZero | negInf => true
  | posInf | nan => false

def isZero (d : Double) : Bool :=
  d.isFinite && d.toRat = 0

/-- A finite double without a fractional part, either zero included. -/
def isInteger (d : Double) : Bool :=
  d.isFinite && d.toRat.den = 1

/-- The integer toward zero from a finite double. -/
def trunc (d : Double) : Int :=
  Int.tdiv d.toRat.num d.toRat.den

/-- The greatest integer below. -/
def floor : Double → Double
  | finite q => finite ⌊q⌋
  | d => d

/-- The least integer above; that of a negative fraction can be a negative zero. -/
def ceil : Double → Double
  | finite q => if q < 0 ∧ ⌈q⌉ = 0 then negZero else finite ⌈q⌉
  | d => d

/-! ## Comparison -/

/-- IEEE `<`: false as soon as an operand is a NaN, and blind to a zero's sign. -/
def lt : Double → Double → Bool
  | nan, _ | _, nan => false
  | _, negInf => false
  | negInf, _ => true
  | posInf, _ => false
  | _, posInf => true
  | a, b => a.toRat < b.toRat

/-- IEEE `==`. -/
def eq : Double → Double → Bool
  | nan, _ | _, nan => false
  | posInf, posInf | negInf, negInf => true
  | posInf, _ | _, posInf | negInf, _ | _, negInf => false
  | a, b => a.toRat = b.toRat

def le (a b : Double) : Bool :=
  a.lt b || a.eq b

variable {a b : Double}

@[simp] theorem lt_finite (p q : ℚ) : (finite p).lt (finite q) = decide (p < q) := rfl

@[simp] theorem eq_finite (p q : ℚ) : (finite p).eq (finite q) = decide (p = q) := rfl

@[simp] theorem le_finite (p q : ℚ) : (finite p).le (finite q) = decide (p ≤ q) := by
  simp [le, le_iff_lt_or_eq]

theorem lt_of_isFinite (ha : a.isFinite) (hb : b.isFinite) :
    a.lt b = decide (a.toRat < b.toRat) := by
  cases a <;> cases b <;> simp_all [isFinite, lt]

theorem eq_of_isFinite (ha : a.isFinite) (hb : b.isFinite) :
    a.eq b = decide (a.toRat = b.toRat) := by
  cases a <;> cases b <;> simp_all [isFinite, eq]

theorem le_of_isFinite (ha : a.isFinite) (hb : b.isFinite) :
    a.le b = decide (a.toRat ≤ b.toRat) := by
  rw [le, lt_of_isFinite ha hb, eq_of_isFinite ha hb, Bool.eq_iff_iff]
  simp [le_iff_lt_or_eq]

theorem le_eq_not_lt (ha : a.isFinite) (hb : b.isFinite) : a.le b = !b.lt a := by
  rw [le_of_isFinite ha hb, lt_of_isFinite hb ha]
  simp [← not_lt]

theorem isNaN_eq_false_of_isFinite (ha : a.isFinite) : a.isNaN = false := by
  cases a <;> simp_all [isFinite, isNaN]

theorem eq_swap (a b : Double) : a.eq b = b.eq a := by
  cases a <;> cases b <;> simp [eq, eq_comm]

/-! ## Rounded arithmetic -/

/-- How an exact nonzero result becomes a double. -/
class Rounding where
  round : ℚ → Double

/-- The exponent of the leading binary digit of a positive rational. -/
def binaryExponent (a : ℚ) : Int :=
  let e := (a.num.natAbs.log2 : Int) - a.den.log2
  if a < (2 : ℚ) ^ e then e - 1 else e

/-- The nearest integer, a tie going to the even one. -/
def roundTiesToEven (a : ℚ) : Int :=
  let down := a.num / a.den
  let rest := a - down
  if rest < 1 / 2 then down
  else if 1 / 2 < rest then down + 1
  else if down % 2 = 0 then down else down + 1

/-- Round to 53 significant bits, with gradual underflow below `2 ^ (-1022)`
and an infinity from `2 ^ 1024` on. -/
def nearestEven (q : ℚ) : Double :=
  let exponent := max (binaryExponent |q|) (-1022)
  let ulp : ℚ := (2 : ℚ) ^ (exponent - 52)
  let magnitude : ℚ := roundTiesToEven (|q| / ulp) * ulp
  if magnitude = 0 then if q < 0 then negZero else finite 0
  else if (2 : ℚ) ^ (1024 : Nat) ≤ magnitude then if q < 0 then negInf else posInf
  else if q < 0 then finite (-magnitude) else finite magnitude

instance Rounding.nearestEven : Rounding := ⟨Double.nearestEven⟩

section Arithmetic

variable [Rounding]

/-- Round an exact result. An exact zero is the positive one. -/
def ofRat (q : ℚ) : Double :=
  if q = 0 then finite 0 else Rounding.round q

def ofInt (n : Int) : Double :=
  ofRat n

def neg : Double → Double
  | finite q => if q = 0 then negZero else finite (-q)
  | negZero => finite 0
  | posInf => negInf
  | negInf => posInf
  | nan => nan

def add : Double → Double → Double
  | nan, _ | _, nan => nan
  | posInf, negInf | negInf, posInf => nan
  | posInf, _ | _, posInf => posInf
  | negInf, _ | _, negInf => negInf
  | negZero, negZero => negZero
  | a, b => ofRat (a.toRat + b.toRat)

def sub (a b : Double) : Double :=
  a.add b.neg

/-- A zero or an infinity of the sign two operands give their product or quotient. -/
def signed (zeroOrInf : Double) (a b : Double) : Double :=
  if a.signBit = b.signBit then zeroOrInf else zeroOrInf.neg

def mul (a b : Double) : Double :=
  if a.isNaN || b.isNaN then nan
  else if a.isInfinite || b.isInfinite then
    if a.isZero || b.isZero then nan else signed posInf a b
  else if a.isZero || b.isZero then signed (finite 0) a b
  else ofRat (a.toRat * b.toRat)

/-- IEEE division: a zero divisor gives the infinity of the operands' signs,
and a zero or an infinity over its own kind gives NaN. -/
def div (a b : Double) : Double :=
  if a.isNaN || b.isNaN then nan
  else if a.isInfinite then if b.isInfinite then nan else signed posInf a b
  else if b.isInfinite then signed (finite 0) a b
  else if b.isZero then if a.isZero then nan else signed posInf a b
  else if a.isZero then signed (finite 0) a b
  else ofRat (a.toRat / b.toRat)

/-- The truncated remainder, with the sign of the dividend. -/
def rem (a b : Double) : Double :=
  if a.isNaN || b.isNaN || a.isInfinite || b.isZero then nan
  else if b.isInfinite || a.isZero then a
  else
    let quotient := a.toRat / b.toRat
    let r := a.toRat - b.toRat * Int.tdiv quotient.num quotient.den
    if r = 0 then if a.signBit then negZero else finite 0 else finite r

end Arithmetic

example : (finite (1 / 10)).add (finite (2 / 10)) ≠ finite 1 := by decide +kernel

end Double

/-- The numbers of a JSON text, once read: finite doubles. -/
structure FiniteDouble where
  value : Double
  isFinite : value.isFinite = true
  deriving DecidableEq, Repr

namespace FiniteDouble

def ofRat (q : ℚ) : FiniteDouble := ⟨.finite q, rfl⟩

instance : OfNat FiniteDouble n := ⟨ofRat n⟩

end FiniteDouble
