import QueryPlanAdapters.Go.Comparison
import QueryPlanAdapters.Cel.GoTime

/-!
# Go: folding and lowering operands

Membership in a known list, string matches, arithmetic with its IEEE cases,
timestamps, hierarchies and conversions. Whatever two constants decide is folded
here rather than left to the database.
-/

namespace QueryPlanAdapters.Go

/-! ## Membership -/

/-- Whether a member's kind differs from the known kind of what is looked up. -/
def isForeignMember (xKind : Option ScalarKind) (m : Val) : Bool :=
  xKind.isSome && m.scalarKind.isSome && m.scalarKind ≠ xKind

/-- The arms of a membership: the list of the members SQL can compare, definite for
an explicit-null column, and a NULL test for a null member. -/
def membershipArms (xExpr : Expr) (nonNull : List Expr) (hasNull : Bool) : List Expr :=
  let list := Expr.inList xExpr nonNull
  let listArm :=
    if nonNull.isEmpty then []
    else match explicitNullColumn xExpr with
      | some col => if hasNull then [list] else [.and [.isNull (.column col) true, list]]
      | none => [list]
  listArm ++ if hasNull then [.isNull xExpr false] else []

/-- CEL `in` over known members, explicit nulls included. A member of another type
than the declared one is dropped. -/
def membership (x values : Val) : Except Failure Expr := do
  if isListLiteral x then
    errorf "membership with a list-valued element cannot be represented by scalar SQL IN" []
  else
    let members :=
      match values with
      | .constant (.array items) => items.map Val.constant
      | v => [v]
    let xExpr ← asExpr x
    let xKind := x.scalarKind
    let present := members.filter (!isNil ·)
    let nonNull := (present.filter (!isForeignMember xKind ·)).map Expr.lit
    let arms := membershipArms xExpr nonNull (members.any isNil)
    if arms.isEmpty then
      if present.any (isForeignMember xKind) && (explicitNullColumn xExpr).isNone then
        return .case [(.isNull xExpr true, .boolConst false)] none
      else return .boolConst false
    else return .or arms

/-! ## String matches -/

def likeEscape : Char := '\\'

/-- Escape the LIKE metacharacters of a constant needle. -/
def escapeLikeLiteral (needle : String) : String :=
  String.ofList <| needle.toList.flatMap fun c =>
    if c = likeEscape ∨ c = '%' ∨ c = '_' ∨ c = '[' then [likeEscape, c] else [c]

def replaceCall (x : Expr) (source target : String) : Expr :=
  .call .replace [x, .lit (.string source), .lit (.string target)]

/-- Escape the LIKE metacharacters of a column-valued needle at query time. -/
def escapeLikeColumn (needle : Expr) : Expr :=
  let out := replaceCall needle "\\" "\\\\"
  let out := replaceCall out "%" "\\%"
  let out := replaceCall out "_" "\\_"
  replaceCall out "[" "\\["

/-- Where the needle of a string match may stand: a `%` on a side leaves it open. -/
structure MatchSides where
  openStart : Bool
  openEnd : Bool

def MatchSides.contains : MatchSides := { openStart := true, openEnd := true }

def MatchSides.startsWith : MatchSides := { openStart := false, openEnd := true }

def MatchSides.endsWith : MatchSides := { openStart := true, openEnd := false }

def likePattern (needle : Val) (sides : MatchSides) : Except Failure Expr :=
  match needle with
  | .constant (.string s) =>
      .ok (.lit (.string ((if sides.openStart then "%" else "") ++ escapeLikeLiteral s ++
        (if sides.openEnd then "%" else ""))))
  | needle => do
      let needleExpr ← asExpr needle
      let parts := (if sides.openStart then [Expr.lit (.string "%")] else []) ++
        [escapeLikeColumn needleExpr] ++ (if sides.openEnd then [.lit (.string "%")] else [])
      match parts with
      | [part] => return part
      | parts => return .call .concat parts

/-- Fold a string match of two constants. -/
def foldStringMatch (receiver needle : String) (sides : MatchSides) : Option Bool :=
  if sides.openStart && sides.openEnd then some (includesText receiver needle)
  else if sides.openEnd then some (startsWithText receiver needle)
  else if sides.openStart then some (endsWithText receiver needle)
  else none

def foldedMatch (receiver needle : Val) (sides : MatchSides) : Option Bool :=
  match receiver, needle with
  | .constant (.string receiver), .constant (.string needle) =>
      foldStringMatch receiver needle sides
  | _, _ => none

/-- `contains`, `startsWith` and `endsWith` as an escaped LIKE. -/
def stringMatch (sides : MatchSides) (receiver needle : Val) : Except Failure Expr :=
  if knownNonString receiver || knownNonString needle then .ok .null
  else match foldedMatch receiver needle sides with
    | some b => .ok (.boolConst b)
    | none => do
        let recvExpr ← asExpr receiver
        let pattern ← likePattern needle sides
        return .like recvExpr pattern

/-! ## Arithmetic -/

section Arithmetic

variable [Double.Rounding]

/-- Lift an operand to a float-typed expression. -/
def asFloatExpr (v : Val) : Except Failure Expr :=
  match asFloat v with
  | some d => .ok (.lit (.number d))
  | none => do return .cast (← asExpr v) .float

/-- An infinity of a sign. -/
def infinity (negative : Bool) : Double :=
  if negative then .negInf else .posInf

/-- Division of two constants, whose zero denominator stays symbolic. -/
def divideConstants (l r : Double) : Val :=
  if r.isZero then
    if l.isZero || l.isNaN then .ieeeConst .nan false
    else .ieeeConst (infinity (l.signBit ^^ r.signBit)) false
  else .number (l.div r)

/-- CEL division. A zero denominator is no error: its three IEEE cases stay symbolic
for the enclosing comparison to fold. -/
def floatDiv (l r : Val) : Except Failure Val :=
  match asFloat l, asFloat r with
  | some ln, some rn => .ok (divideConstants ln rn)
  | _, rn => do
      let numerator ← asFloatExpr l
      let denominator ← asFloatExpr r
      let zero := Expr.lit (.number 0)
      let finite := Expr.arith .div numerator (.call .nullIf [denominator, zero])
      -- A self-division has no infinite arm: a zero denominator is a zero numerator.
      if numerator == denominator then
        return .condValue (.cmp .eq denominator zero) (.ieeeConst .nan false) (.expr finite)
      else
        let negative := rn.any Double.signBit
        let signUnknown := rn.isNone
        return .condValue (.cmp .eq denominator zero)
          (.condValue (.cmp .eq numerator zero) (.ieeeConst .nan false)
            (.condValue (.cmp .gt numerator zero)
              (.ieeeConst (infinity negative) signUnknown)
              (.ieeeConst (infinity !negative) signUnknown)))
          (.expr finite)

/-- `int64(d)` of an integral double; one beyond int64 is the least of them. -/
def truncInt64 (d : Double) : Int :=
  if d.isFinite && int64Min ≤ d.trunc && d.trunc ≤ int64Max then d.trunc else int64Min

/-- Evaluate an operator over two constants. Division has no fold of its own. -/
def foldArithmetic (op : ArithOp) (l r : Double) : Except Failure (Option Double) :=
  match op with
  | .add => .ok (some (l.add r))
  | .sub => .ok (some (l.sub r))
  | .mult => .ok (some (l.mul r))
  | .mod =>
      if !(l.isInteger || l.isInfinite) || !(r.isInteger || r.isInfinite) then
        errorf "modulus requires integer operands, got %v %% %v" [.float l, .float r]
      else if r.isZero then errorf "modulus by zero in query plan" []
      else .ok (some (.finite (Int.tmod (truncInt64 l) (truncInt64 r))))
  | .div => .ok none

/-- An operator in IEEE double space. -/
def applyIEEE (op : ArithOp) (l r : Double) : Double :=
  match op with
  | .add => l.add r
  | .sub => l.sub r
  | .mult => l.mul r
  | .div => l.div r
  | .mod => .nan

/-- Apply a function to a non-finite constant. An unknown sign survives only as a pair
of opposite infinities. -/
def foldIEEE (v : Double) (signUnknown : Bool) (f : Double → Double) : Except Failure Val :=
  let out := f v
  let alt := f v.neg
  if !signUnknown then .ok (.ieeeConst out false)
  else if out = alt then .ok (.ieeeConst out false)
  else if out.isInfinite && alt = out.neg then .ok (.ieeeConst out true)
  else errorf unknownZeroSignMessage []

def nonFiniteWithColumnMessage : String :=
  "arithmetic combines a non-finite value with a column, which SQL cannot carry"

/-- The constant fold of an arithmetic operator, when both operands are constants. -/
def foldNumbers (op : ArithOp) (l r : Val) : Except Failure (Option Val) :=
  match asFloat l, asFloat r with
  | some lf, some rf => do return (← foldArithmetic op lf rf).map Val.number
  | _, _ => .ok none

def modulusOverDivisionMessage : String :=
  "modulus over a division whose denominator may be zero is not supported: CEL's %% is " ++
    "integer-only and attribute values are always doubles, so the condition can never be " ++
    "satisfied by the PDP"

/-- Combine two operands neither of which is a ternary held back. -/
def combineLeaf (op : ArithOp) (l r : Val) : Except Failure Val := do
  match ← foldNumbers op l r with
  | some folded => return folded
  | none =>
      if op = .mod then errorf modulusOverDivisionMessage []
      else match l, r with
        | .ieeeConst v signUnknown, r =>
            match asFloat r with
            | some rf => foldIEEE v signUnknown fun v => applyIEEE op v rf
            | none => errorf nonFiniteWithColumnMessage []
        | l, .ieeeConst v signUnknown =>
            match asFloat l with
            | some lf => foldIEEE v signUnknown fun v => applyIEEE op lf v
            | none => errorf nonFiniteWithColumnMessage []
        | l, r => return .expr (.arith op (← asExpr l) (← asExpr r))

/-- Combine a left operand that is no ternary with a right one that may be. -/
def combineRight (op : ArithOp) (l : Val) : Val → Except Failure Val
  | .condValue cond whenTrue whenFalse =>
      if op = .mod then errorf modulusOverDivisionMessage []
      else do
        let whenTrue ← combineRight op l whenTrue
        let whenFalse ← combineRight op l whenFalse
        return .condValue cond whenTrue whenFalse
  | r => combineLeaf op l r

/-- Combine two operands that may be ternaries, the left one first. -/
def combineLeft (op : ArithOp) (r : Val) : Val → Except Failure Val
  | .condValue cond whenTrue whenFalse =>
      if op = .mod then errorf modulusOverDivisionMessage []
      else do
        let whenTrue ← combineLeft op r whenTrue
        let whenFalse ← combineLeft op r whenFalse
        return .condValue cond whenTrue whenFalse
  | l => combineRight op l r

/-- Distribute an operator across a ternary held back, if an operand is one. -/
def arithOverConditional (op : ArithOp) (l r : Val) : Except Failure (Option Val) :=
  match l, r with
  | .condValue cond whenTrue whenFalse, r => do
      return some (.condValue cond (← combineLeft op r whenTrue) (← combineLeft op r whenFalse))
  | l, .condValue cond whenTrue whenFalse => do
      return some (.condValue cond (← combineRight op l whenTrue) (← combineRight op l whenFalse))
  | _, _ => .ok none

/-- Whether an operand is an attribute read straight from storage. -/
def isAttribute : Val → Bool
  | .expr (.column _) | .expr (.subquery .scalar _ _ _ _) => true
  | _ => false

/-- The numeric reading of a binary operator. -/
def numericArith (op : ArithOp) (l r : Val) : Except Failure Val := do
  match ← arithOverConditional op l r with
  | some out => return out
  | none =>
      match ← foldNumbers op l r with
      | some folded => return folded
      | none =>
          if op = .mod && (isAttribute l || isAttribute r) then
            errorf ("modulus over an attribute is a CEL no-overload error: Cerbos sends every " ++
              "attribute number as a double and CEL's % is integer-only, so the PDP denies " ++
              "every row") []
          else return .expr (.arith op (← asExpr l) (← asExpr r))

def isStringOperand : Val → Bool
  | .constant (.string _) => true
  | .expr (.column c) => c.type = .string
  | _ => false

def isUntypedColumn : Val → Bool
  | .expr (.column c) => c.type ≠ .string && c.type ≠ .bool
  | _ => false

/-- CEL's `+`: two list literals fold, a known string makes it a concatenation, and
two columns that reveal nothing are refused. -/
def addValue (l r : Val) : Except Failure Val :=
  match l, r with
  | .constant (.array as), .constant (.array bs) => .ok (.constant (.array (as ++ bs)))
  | l, r =>
      if isStringOperand l || isStringOperand r then do
        return .expr (.concat (← asExpr l) (← asExpr r))
      else if isUntypedColumn l && isUntypedColumn r then
        errorf ("cannot tell numeric addition from string concatenation in `+` between two " ++
          "columns: CEL overloads `+` on strings and the query plan carries no operand types, " ++
          "so declare the string column's ValueType as ValueString") []
      else numericArith .add l r

/-- What becomes of a sum whose left operand is no list. -/
theorem addValue_of_not_array {l : Val} (r : Val)
    (hl : ∀ values, l ≠ .constant (.array values)) :
    addValue l r =
      if isStringOperand l || isStringOperand r then do
        return .expr (.concat (← asExpr l) (← asExpr r))
      else if isUntypedColumn l && isUntypedColumn r then
        errorf ("cannot tell numeric addition from string concatenation in `+` between two " ++
          "columns: CEL overloads `+` on strings and the query plan carries no operand types, " ++
          "so declare the string column's ValueType as ValueString") []
      else numericArith .add l r := by
  rw [addValue.eq_def]
  split
  next values other => exact absurd rfl (hl values)
  next => rfl

end Arithmetic

/-! ## Temporal values -/

section Temporal

variable [Double.Rounding] (now : Int)

/-- `duration("…")`. -/
def parseDurationValue (v : Val) : Except Failure Val :=
  match v with
  | .constant (.string s) =>
      match GoTime.parseDuration s with
      | some nanos => .ok (.durationConst nanos)
      | none => errorf "invalid duration literal %q: %w" [.string s]
  | _ => errorf "duration() translates only over a string literal" []

/-- `x.timeSince()` over a timestamp() value. -/
def timeSince (operand : Node) (v : Val) : Except Failure Val :=
  match v, operand with
  | .time nanos, _ => .ok (.durationConst (saturatedSince now nanos))
  | .expr x, .expression .timestamp _ => .ok (.timeSince x)
  | _, _ => errorf "timeSince() translates only over a timestamp() value" []

def temporalArithMessage : String :=
  "timestamp arithmetic translates only as a timestamp() value plus or minus a constant duration"

/-- A timestamp-typed attribute: a column, or one read through a to-one hop. -/
def isTimestampAttribute : Expr → Bool
  | .column c => c.type = .timestamp
  | .subquery .scalar _ _ _ (some (.column c)) => c.type = .timestamp
  | _ => false

/-- Shift a temporal value by a duration. -/
def shiftBy (d : Int) : Val → Except Failure Val
  | .durationConst a => .ok (.durationConst (int64 (a + d)))
  | .time nanos =>
      if inTimestampRange (nanos + d) then .ok (.time (nanos + d))
      else errorf "timestamp arithmetic leaves CEL's supported instant range" []
  | .timestampShift x a => .ok (.timestampShift x (int64 (a + d)))
  | .expr x =>
      if isTimestampAttribute x then .ok (.timestampShift x d) else errorf temporalArithMessage []
  | _ => errorf temporalArithMessage []

/-- `+` and `-` between timestamps and durations, if an operand is temporal. -/
def temporalArith (op : ArithOp) (l r : Val) : Option (Except Failure Val) :=
  if !isTemporal l && !isTemporal r then none
  else some <|
    match op, l, r with
    | .sub, l, .durationConst d => shiftBy (int64 (-d)) l
    | .add, l, .durationConst d => shiftBy d l
    | .add, .durationConst d, r => shiftBy d r
    | _, _, _ => errorf temporalArithMessage []

/-- Unwrap a temporal column, or parse an RFC 3339 constant. -/
def parseTimestamp (v : Val) (entryIsTemporal : Bool) : Except Failure Val :=
  if entryIsTemporal then .ok v
  else match v with
    | .constant (.string s) =>
        let upper := upperAscii (String.ofList s.toList.dropLast) ++
          String.ofList s.toList.getLast?.toList
        match parseRfc3339Instant upper with
        | none => errorf "invalid RFC-3339 timestamp literal: %s" [.string s]
        | some nanos =>
            if inTimestampRange nanos then .ok (.time nanos)
            else errorf "timestamp literal is outside CEL's supported instant range: %s" [.string s]
    | .expr _ =>
        errorf ("timestamp() over a column requires that column to be mapped with a timestamp " ++
          "value type") []
    | _ => errorf "timestamp() requires an RFC-3339 literal or a temporal column" []

end Temporal

/-! ## Hierarchies -/

def newHierarchy (v : Val) (delimiter : Option Val) : Except Failure Val :=
  match v with
  | .constant (.array _) | .listValue _ _ _ =>
      errorf ("hierarchy() over a list of segments has no lowering: it compares segment by " ++
        "segment, and this translator lowers only a delimited string") []
  | v =>
      match delimiter with
      | none | some (.constant .null) => .ok (.hierarchy v ".")
      | some (.constant (.string s)) =>
          if s = "" then errorf "hierarchy() delimiter must be a non-empty string" []
          else .ok (.hierarchy v s)
      | some _ => errorf "hierarchy() delimiter must be a non-empty string" []

/-- The values of two hierarchies, and the delimiter they share. -/
def matchingHierarchies (l r : Val) : Except Failure (Val × Val × String) :=
  match l, r with
  | .hierarchy lv ld, .hierarchy rv rd =>
      if ld = rd then .ok (lv, rv, ld)
      else errorf "hierarchy operands must use the same delimiter" []
  | _, _ => errorf "hierarchy operator requires hierarchy() operands" []

/-- The proper beginnings of a delimited text, at its delimiters. -/
def properPrefixes (s delimiter : String) : List String :=
  let parts := splitDelimited s delimiter
  (List.range' 1 (parts.length - 1)).map fun count => delimiter.intercalate (parts.take count)

/-- Whether the left hierarchy is a strict beginning of the right one at a delimiter. -/
def ancestorOf (l r : Val) : Except Failure Expr := do
  let (ancestor, descendent, delimiter) ← matchingHierarchies l r
  match ancestor, descendent with
  | .constant (.string a), .constant (.string d) =>
      return .boolConst (startsWithText d (a ++ delimiter))
  | ancestor, .constant (.string d) =>
      membership ancestor (.constant (.array ((properPrefixes d delimiter).map .string)))
  | .constant (.string a), descendent =>
      stringMatch .startsWith descendent (.string (a ++ delimiter))
  | _, _ => errorf "hierarchy comparison between two columns is not supported" []

def descendentOf (l r : Val) : Except Failure Expr :=
  ancestorOf r l

section Overlaps

variable [Double.Rounding] (now : Int)

/-- Whether either hierarchy begins the other, or they are equal. -/
def hierarchyOverlaps (l r : Val) : Except Failure Expr := do
  let (lv, rv, delimiter) ← matchingHierarchies l r
  let eq ← compare now .eq lv rv
  let lAnc ← ancestorOf (.hierarchy lv delimiter) (.hierarchy rv delimiter)
  let rAnc ← ancestorOf (.hierarchy rv delimiter) (.hierarchy lv delimiter)
  return .or [eq, lAnc, rAnc]

end Overlaps

/-! ## Conversions -/

def lowerLetters : List Char :=
  (List.range 26).map fun i => Char.ofNat ('a'.toNat + i)

/-- `upperAscii()`: a column is folded letter by letter. -/
def upperASCII (v : Val) : Except Failure Val :=
  match v with
  | .constant (.string s) => .ok (.string (upperAscii s))
  | v =>
      if isNil v || knownNonString v then .ok (.expr .null)
      else do
        let x ← asExpr v
        return .expr <| lowerLetters.foldl (fun x letter =>
          replaceCall x (String.ofList [letter]) (upperAscii (String.ofList [letter]))) x

mutual

/-- Whether an expression is known to be boolean. -/
def boolOperand : Expr → Bool
  | .column c => c.type = .bool
  | .subquery .exists _ _ _ _ => true
  | .subquery .scalar _ _ _ (some (.column c)) => c.type = .bool
  | .case whens els => boolWhens whens && boolElse els
  | .cmp _ _ _ | .logic _ _ | .not _ | .isNull _ _ | .truthTest _ _ | .like _ _
  | .notDistinct _ _ | .inList _ _ | .boolConst _ => true
  | _ => false

/-- Whether an arm of a CASE is boolean-valued, a constant included. -/
def boolArm : Expr → Bool
  | .lit v =>
      match v with
      | .constant (.bool _) => true
      | _ => false
  | e => boolOperand e

def boolWhens : List (Expr × Expr) → Bool
  | [] => true
  | (_, whenTrue) :: whens => boolArm whenTrue && boolWhens whens

def boolElse : Option Expr → Bool
  | none => true
  | some els => boolArm els

end

/-- Spell a boolean operand the way CEL's `string()` does. -/
def boolText (x : Expr) : Expr :=
  .case [(.isNull x false, .null), (x, .lit (.string "true"))] (some (.lit (.string "false")))

/-- CEL's `string()`. -/
def castValue (v : Val) : Except Failure Val := do
  let e ← asExpr v
  if (asFloat v).isNone && v.scalarKind = some .number then return .numberText e
  else return .expr (.cast (if boolOperand e then boolText e else e) .text)

end QueryPlanAdapters.Go
