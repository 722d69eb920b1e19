import QueryPlanAdapters.Cel.Value
import Mathlib.Data.Int.Log

/-!
# Type conversions and int arithmetic

`string()`, `double()` and `int()` of the two in-memory evaluators, and CEL int
arithmetic over exact integers. An int is carried as a number while it is in
JavaScript's safe range and as a bigint past that.
-/

namespace QueryPlanAdapters

def int64Min : Int := -(2 ^ 63)

def int64Max : Int := 2 ^ 63 - 1

/-- `Number.isSafeInteger`. -/
def isSafeInteger (n : Int) : Bool :=
  -(2 ^ 53) < n && n < 2 ^ 53

/-- An int as the evaluators carry it; outside int64 it is CEL's overflow error. -/
def celInt (n : Int) : Outcome :=
  if n < int64Min ∨ int64Max < n then .error
  else if isSafeInteger n then .value (.number (.finite n))
  else .value (.bigint n)

/-- An operand of int arithmetic as an exact integer. -/
def toBigInt : Outcome → Option Int
  | .value (.bigint n) => some n
  | .value (.number d) => if d.isInteger then some d.trunc else none
  | _ => none

inductive ArithmeticOperator where
  | add | sub | mult | div | mod
  deriving DecidableEq, Repr

/-- CEL int arithmetic. Division and remainder truncate toward zero; a zero
divisor and an int64 overflow are errors. -/
def intArithmetic (operator : ArithmeticOperator) (left right : Outcome) : Outcome :=
  match toBigInt left, toBigInt right with
  | some a, some b =>
      match operator with
      | .add => celInt (a + b)
      | .sub => celInt (a - b)
      | .mult => celInt (a * b)
      | .div => if b = 0 then .error else celInt (Int.tdiv a b)
      | .mod => if b = 0 then .error else celInt (Int.tmod a b)
  | _, _ => .error

/-! ## Numbers from texts -/

/-- An optional sign in front of a number: whether it is negative, and the rest. -/
def takeSign : List Char → Bool × List Char
  | '-' :: cs => (true, cs)
  | '+' :: cs => (false, cs)
  | cs => (false, cs)

/-- An optional sign and decimal digits, and nothing else. -/
def parseCelInt (text : String) : Option Int :=
  let (negative, digits) := takeSign text.toList
  if digits.isEmpty || !digits.all isDigit then none
  else some (if negative then -decimalValue digits else decimalValue digits)

/-- The exponent part of a decimal number: absent, or a letter `e` and an int. -/
def parseExponent : List Char → Option Int
  | [] => some 0
  | c :: cs => if c = 'e' ∨ c = 'E' then parseCelInt (String.ofList cs) else none

/-- A decimal number: the sign and the magnitude it spells. -/
def parseDecimal (text : String) : Option (Bool × ℚ) :=
  let (negative, cs) := takeSign text.toList
  let whole := cs.takeWhile isDigit
  let rest := cs.dropWhile isDigit
  let fraction := if rest.head? = some '.' then rest.tail.takeWhile isDigit else []
  let rest := if rest.head? = some '.' then rest.tail.dropWhile isDigit else rest
  if whole.isEmpty && fraction.isEmpty then none
  else match parseExponent rest with
    | none => none
    | some exponent =>
        some (negative, decimalValue (whole ++ fraction) * 10 ^ (exponent - fraction.length))

section Doubles

variable [Double.Rounding]

/-- `Number(text)` for a decimal number. -/
def doubleOfDecimal (negative : Bool) (magnitude : ℚ) : Double :=
  if negative then (Double.ofRat magnitude).neg else Double.ofRat magnitude

/-! ## Texts from numbers -/

/-- The last place of a decimal of so many significant digits. -/
def lastPlace (q : ℚ) (count : Nat) : ℚ :=
  10 ^ (Int.log 10 q + 1 - (count : Int))

/-- The decimal of so many significant digits, in units of its last place: the nearer one of
the two around the number that round back to it, a tie going to the even digit. -/
def nearestDecimal (q : ℚ) (count : Nat) : Int :=
  let place := lastPlace q count
  let down := ⌊q / place⌋
  let up := ⌈q / place⌉
  let roundsBack := fun n : Int => Double.ofRat (n * place) = Double.finite q
  if roundsBack down ∧ (roundsBack up → q - down * place < up * place - q ∨
      q - down * place = up * place - q ∧ down % 2 = 0) then down
  else up

/-- The fewest significant digits that round back to the double, as
`toExponential()` prints them: the digits and the exponent of the first one. -/
def toExponential (q : ℚ) : String × Int :=
  let roundsBack := fun count : Nat =>
    Double.ofRat (nearestDecimal q count * lastPlace q count) = Double.finite q
  let count := ((List.range' 1 16).find? roundsBack).getD 17
  let n := (nearestDecimal q count).toNat
  if n = 10 ^ count then ("1", Int.log 10 q + 1) else (toString n, Int.log 10 q)

def zeros (count : Int) : List Char :=
  List.replicate count.toNat '0'

/-- Go's `'g'` layout of significant digits: exponent form when the decimal
exponent is below -4 or at least 6, and plain otherwise. -/
def layoutGoDouble (digits : List Char) (exponent : Int) : List Char :=
  let pointAt := exponent + 1
  if exponent < -4 ∨ 6 ≤ exponent then
    let fraction := if 1 < digits.length then '.' :: digits.drop 1 else []
    let magnitude := (toString exponent.natAbs).toList
    digits.take 1 ++ fraction ++ ['e', if exponent < 0 then '-' else '+'] ++
      zeros (2 - magnitude.length) ++ magnitude
  else if pointAt ≤ 0 then ['0', '.'] ++ zeros (-pointAt) ++ digits
  else if digits.length ≤ pointAt then digits ++ zeros (pointAt - digits.length)
  else digits.take pointAt.toNat ++ ['.'] ++ digits.drop pointAt.toNat

/-- `strconv.FormatFloat(d, 'g', -1, 64)`, which CEL renders a double with. -/
def formatGoDouble (d : Double) : String :=
  match d with
  | .nan => "NaN"
  | .posInf => "+Inf"
  | .negInf => "-Inf"
  | .negZero => "-0"
  | .finite q =>
      if q = 0 then "0"
      else
        let (digits, exponent) := toExponential |q|
        String.ofList ((if q < 0 then ['-'] else []) ++ layoutGoDouble digits.toList exponent)

/-! ## The conversions -/

/-- `string()`. A number renders as a double unless `int` says the operand is
certainly a CEL int. -/
def convertToString (operand : Outcome) (int : Bool) : Outcome :=
  match operand with
  | .value (.string s) => .value (.string s)
  | .value (.bool b) => .value (.string (if b then "true" else "false"))
  | .value (.bigint n) => .value (.string (toString n))
  | .value (.number d) =>
      .value (.string (if int && d.isInteger then toString d.trunc else formatGoDouble d))
  | _ => .error

/-- `double()`. -/
def convertToDouble (operand : Outcome) : Outcome :=
  match operand with
  | .value (.number d) => if d.isFinite then .value (.number d) else .error
  | .value (.bigint n) => .value (.number (Double.ofInt n))
  | .value (.string s) =>
      match parseDecimal s with
      | none => .error
      | some (negative, magnitude) =>
          let converted := doubleOfDecimal negative magnitude
          if converted.isFinite then .value (.number converted) else .error
  | _ => .error

end Doubles

/-- `int()`. A double at or beyond either int64 bound is refused. -/
def convertToInt (operand : Outcome) : Outcome :=
  match operand with
  | .value (.bigint n) => celInt n
  | .value (.number d) =>
      if !d.isFinite || d.toRat ≤ -(2 ^ 63) || 2 ^ 63 ≤ d.toRat then .error
      else celInt d.trunc
  | .value (.string s) =>
      match parseCelInt s with
      | none => .error
      | some n => celInt n
  | _ => .error

example : formatGoDouble 1000000 = "1e+06" := by decide +kernel

example : formatGoDouble (.finite (-1 / 8)) = "-0.125" := by decide +kernel

-- The interval of a power of two is lopsided: the nearest decimal of so many digits is outside.
example : formatGoDouble (.finite (2 ^ (-44 : Int))) = "5.684341886080802e-14" := by decide +kernel

end QueryPlanAdapters
