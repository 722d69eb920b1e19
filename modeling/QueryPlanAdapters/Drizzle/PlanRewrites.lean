import QueryPlanAdapters.Drizzle.InstantTexts
import QueryPlanAdapters.Go.Lists
import QueryPlanAdapters.Prisma.Translate

/-!
# Drizzle: plan-to-plan rewrites

A condition is rewritten, bottom up, into shapes that the translators handle. Each rewrite
is `none` on a node that it leaves as it is.
-/

namespace QueryPlanAdapters.Drizzle

open Go (Node Literal comparisonOps)
open Elasticsearch (yearOf)

/-- `ELEMENT`, a fresh lambda variable. -/
def elementName : String := "__cerbos_element"

def isScalar : Literal → Bool
  | .string _ | .number _ | .bool _ => true
  | _ => false

/-! ## Constant evaluation -/

/-- `typeof left === typeof right`, of two scalars. -/
def sameTypeof : Literal → Literal → Bool
  | .string _, .string _ | .number _, .number _ | .bool _, .bool _ => true
  | _, _ => false

mutual

/-- CEL equality over the scalars and the scalar lists that are evaluated. -/
def constantEquals : Literal → Literal → Bool
  | .array left, .array right => left.length = right.length && constantsEqual left right
  | .string left, .string right => left = right
  | .number left, .number right => left.eq right
  | .bool left, .bool right => left = right
  | _, _ => false

def constantsEqual : List Literal → List Literal → Bool
  | left :: lefts, right :: rights => constantEquals left right && constantsEqual lefts rights
  | _, _ => true

end

/-- Whether both are lists, or scalars of one type. -/
def comparableConstants : Literal → Literal → Bool
  | .array _, .array _ => true
  | left, right => sameTypeof left right

/-- An operator applied to two constants. -/
def applyConstants : PlanOperator → Literal → Literal → Option Literal
  | .add, .array left, .array right => some (.array (left ++ right))
  | .eq, left, right =>
      if comparableConstants left right then some (.bool (constantEquals left right)) else none
  | .ne, left, right =>
      if comparableConstants left right then some (.bool (!constantEquals left right)) else none
  | .in, left, .array right =>
      if isScalar left && right.all (sameTypeof left) then
        some (.bool (right.any (constantEquals left)))
      else none
  | _, _, _ => none

/-- The constant of an operand built from constants, none where it holds anything else. -/
def evaluateConstant : Node → Option Literal
  | .value (.array items) => if items.all isScalar then some (.array items) else none
  | .value v => if isScalar v then some v else none
  | .expression operator [left, right] =>
      (evaluateConstant left).bind fun left =>
        (evaluateConstant right).bind fun right => applyConstants operator left right
  | _ => none

/-! ## Ternaries in list comparisons -/

mutual

/-- The first ternary reachable through list concatenation alone. -/
def findLiftableTernary : Node → Option Node
  | .expression .if operands => some (.expression .if operands)
  | .expression .add operands => findTernary operands
  | _ => none

def findTernary : List Node → Option Node
  | [] => none
  | operand :: operands => (findLiftableTernary operand).or (findTernary operands)

end

mutual

/-- An operand with the ternary that is found in it replaced. -/
def replaceNode (replacement : Node) : Node → Node
  | .expression .if _ => replacement
  | .expression .add operands => .expression .add (replaceIn replacement operands)
  | operand => operand

def replaceIn (replacement : Node) : List Node → List Node
  | [] => []
  | operand :: operands =>
      if (findLiftableTernary operand).isSome then replaceNode replacement operand :: operands
      else operand :: replaceIn replacement operands

end

/-- The ternary of one side lifted above the comparison, whose arms are folded. -/
def liftSide (side : Node) (comparison : Node → Node) : Option Node :=
  match findLiftableTernary side with
  | some (.expression .if [condition, thenOperand, elseOperand]) =>
      match evaluateConstant (comparison (replaceNode thenOperand side)),
        evaluateConstant (comparison (replaceNode elseOperand side)) with
      | some (.bool thenValue), some (.bool elseValue) =>
          some (.expression .if [condition, .value (.bool thenValue), .value (.bool elseValue)])
      | _, _ => none
  | _ => none

def isLiftableComparison : PlanOperator → Bool
  | .eq | .ne | .in => true
  | _ => false

def liftConstantTernary : Node → Option Node
  | .expression operator [left, right] =>
      if isLiftableComparison operator then
        (liftSide left fun side => .expression operator [side, right]).or
          (liftSide right fun side => .expression operator [left, side])
      else none
  | _ => none

/-! ## List functions compared with an empty list -/

/-- A list and the constants that its elements are, or are not, all among. -/
structure ListMembership where
  list : Node
  constants : List Literal
  negate : Bool

namespace ListMembership

/-- An or of equalities, not `in`. -/
def equalities (m : ListMembership) : Node :=
  if m.constants.isEmpty then .value (.bool false)
  else .expression .or
    (m.constants.map fun constant => .expression .eq [.var elementName, .value constant])

/-- `list.all(e, e in constants)`, or of the negation. -/
def all (m : ListMembership) : Node :=
  .expression .all
    [m.list, .expression .lambda
      [if m.negate then .expression .not [m.equalities] else m.equalities, .var elementName]]

end ListMembership

/-- An `except` or an `intersect` with scalar constants, which is empty when every element of
its list is, or is not, one of them. -/
def listFunctionAll : Node → Option ListMembership
  | .expression .except [list, .value (.array constants)] =>
      if constants.all isScalar then some ⟨list, constants, false⟩ else none
  | .expression .intersect [list, .value (.array constants)] =>
      if constants.all isScalar then some ⟨list, constants, true⟩ else none
  | _ => none

def isEmptyList : Node → Bool
  | .value (.array []) => true
  | _ => false

/-- The list that a node says a set function leaves nothing of. -/
def listMembership : Node → Option ListMembership
  | .expression .isSubset [list, .value (.array constants)] =>
      if constants.all isScalar then some ⟨list, constants, false⟩ else none
  | .expression .eq [left, right] | .expression .ne [left, right] =>
      if isEmptyList right then listFunctionAll left
      else if isEmptyList left then listFunctionAll right
      else none
  | _ => none

def isInequality : Node → Bool
  | .expression .ne _ => true
  | _ => false

/-- Only a list that is named is rewritten. -/
def rewriteListFunction (node : Node) : Option Node :=
  (listMembership node).bind fun m =>
    if m.list.isVariable then
      some (if isInequality node then .expression .not [m.all] else m.all)
    else none

/-! ## Membership in a derived list -/

/-- `element in list + constants` -/
structure ConcatenatedMembership where
  element : Node
  list : Node
  constants : List Literal

/-- `element in list || element in constants`, the second disjunct only where `list` is read. -/
def ConcatenatedMembership.disjunction (m : ConcatenatedMembership) : Node :=
  .expression .or
    [.expression .in [m.element, m.list],
      .expression .and
        [.expression .in [m.element, .value (.array m.constants)],
          .expression .ge [.expression .size [m.list], .value (.number 0)]]]

def concatenatedMembership : Node → Option ConcatenatedMembership
  | .expression .in [element, .expression .add [list, .value (.array constants)]] =>
      if constants.all isScalar then some ⟨element, list, constants⟩ else none
  | _ => none

/-- `x in L.map(t, t.f)` for a scalar `x` -/
def projectedMembership : Node → Option Node
  | .expression .in [.value element,
      .expression .map (list :: .expression .lambda operands :: rest)] =>
      if isScalar element && operands.all Operand.isVariable then
        some (.expression .hasIntersection
          [.expression .map (list :: .expression .lambda operands :: rest),
            .value (.array [element])])
      else none
  | _ => none

/-- Only a list that is named is read apart from the constants. -/
def rewriteMembership (node : Node) : Option Node :=
  match concatenatedMembership node with
  | some m => if m.list.isVariable then some m.disjunction else none
  | none => projectedMembership node

/-! ## Map access by a constant key -/

/-- `^[A-Za-z_][A-Za-z0-9_]*$` -/
def isIdentifier (key : String) : Bool :=
  match key.toList with
  | [] => false
  | c :: cs => (c.isAlpha || c = '_') && cs.all fun c => c.isAlphanum || c = '_'

section Mapped

-- The references with an entry in the mapper.
variable (mapped : String → Bool)

/-- The reference that a constant key selects, when it is mapped and its receiver is not. -/
def selectedReference (receiver key : String) : Option String :=
  if isIdentifier key && !mapped receiver && mapped (receiver ++ "." ++ key) then
    some (receiver ++ "." ++ key)
  else none

def rewriteConstantKeyIndex : Node → Option Node
  | .expression .index [.var receiver, .value (.string key)] =>
      (selectedReference mapped receiver key).map Operand.var
  | _ => none

end Mapped

/-! ## Timestamps shifted by a constant duration -/

/-- The milliseconds of a spelled duration, `^(-?)(\d+)(?:\.(\d{1,3}))?s$`. -/
def spelledMilliseconds (spelling : String) : Option Double :=
  match matchSeconds spelling with
  | some (negative, seconds, nanos) =>
      -- The point, at most three digits, and the `s`.
      if 5 < (spelling.toList.dropWhile (· ≠ '.')).length then none
      else
        let milliseconds := ((Double.ofInt (decimalValue seconds)).mul 1000).add
          (Double.ofInt (nanos / 1000000 : ℕ))
        some (if negative then milliseconds.neg else milliseconds)
  | none => none

def durationMilliseconds : Node → Option Double
  | .expression .duration [.value (.string spelling)] => spelledMilliseconds spelling
  | _ => none

/-- The digits behind the first point that has some, `/\.(\d+)/`. -/
def fractionDigits : List Char → List Char
  | [] => []
  | c :: cs =>
      if c = '.' && !(cs.takeWhile isDigit).isEmpty then cs.takeWhile isDigit
      else fractionDigits cs

/-- Whether a text has a digit but zero past its milliseconds. -/
def hasFinerDigits (text : String) : Bool :=
  ((fractionDigits text.toList).drop 3).any (· ≠ '0')

/-- `new Date(milliseconds).toISOString()`: a year before the first is `0000`, or has a sign
and six digits. -/
def isoText (milliseconds : Int) : String :=
  if -62135596800000 ≤ milliseconds then String.ofList (toISOString milliseconds)
  else
    let cycles := (-62135596800001 - milliseconds) / 12622780800000 + 1
    let late := milliseconds + cycles * 12622780800000
    let year := 400 * cycles.toNat - yearOf (late / 86400000)
    String.ofList ((if year = 0 then "0000".toList else '-' :: paddedDigits 6 year) ++
      (Prisma.toISOString late).toList.drop 4)

/-- The milliseconds that a `Date` holds, on either side of the epoch. -/
def maxDateMilliseconds : ℚ := 8640000000000000

def isDate (milliseconds : Double) : Bool :=
  milliseconds.isFinite && |milliseconds.toRat| ≤ maxDateMilliseconds

def timestampCall (text : String) : Node :=
  .expression .timestamp [.value (.string text)]

/-- `timestampLiteral`, none where `toISOString` throws a `RangeError`. -/
def timestampLiteral (milliseconds : Double) : Option Node :=
  if isDate milliseconds then some (timestampCall (isoText milliseconds.trunc)) else none

def isTimestampCall : Node → Bool
  | .expression .timestamp _ => true
  | _ => false

/-- Arithmetic on a bare `timestamp(...)`, what it is compared with, and the comparison of the
bare timestamp with milliseconds that replaces them. -/
structure InstantComparison where
  arithmetic : Node
  literal : Node
  operator : ComparisonOperator
  conversion : Node
  bound : Double

section Dates

-- `Date.parse`, none for `NaN`.
variable (dateParse : String → Option Int)

def timestampLiteralMilliseconds : Node → Option Double
  | .expression .timestamp [.value (.string text)] =>
      if hasFinerDigits text then none else (dateParse text).map Double.ofInt
  | _ => none

def isConversion (candidate : Node) : Bool :=
  isTimestampCall candidate && (timestampLiteralMilliseconds dateParse candidate).isNone

/-- A conversion and a duration, in this order. -/
def conversionAndDuration (conversion duration : Node) : Option (Node × Double) :=
  if isConversion dateParse conversion then (durationMilliseconds duration).map (conversion, ·)
  else none

/-- `timestamp(x) + d`, `d + timestamp(x)` or `timestamp(x) - d`, as the timestamp and the shift. -/
def shiftedTimestamp : Node → Option (Node × Double)
  | .expression .add [left, right] =>
      (conversionAndDuration dateParse left right).or (conversionAndDuration dateParse right left)
  | .expression .sub [left, right] =>
      (conversionAndDuration dateParse left right).map fun (timestamp, shift) =>
        (timestamp, shift.neg)
  | _ => none

/-- A shifted timestamp and a literal. -/
def shiftedSide (operator : ComparisonOperator) (side other : Node) : Option InstantComparison :=
  (shiftedTimestamp dateParse side).bind fun (timestamp, shift) =>
    (timestampLiteralMilliseconds dateParse other).map fun bound =>
      ⟨side, other, operator, timestamp, bound.sub shift⟩

/-- The time since a timestamp and a duration, by the milliseconds of the clock. -/
def sinceSide (clock : Int) (operator : ComparisonOperator) (side other : Node) :
    Option InstantComparison :=
  match side with
  | .expression .timeSince [conversion] =>
      if isTimestampCall conversion then
        (durationMilliseconds other).map fun window =>
          ⟨side, other, operator.mirrored, conversion, (Double.ofInt clock).sub window⟩
      else none
  | _ => none

def instantSide (clock : Int) (operator : ComparisonOperator) (side other : Node) :
    Option InstantComparison :=
  (shiftedSide dateParse operator side other).or (sinceSide clock operator side other)

/-- The comparison that a node is rewritten to, its arithmetic on either side. -/
def instantComparison (clock : Int) : Node → Option InstantComparison
  | .expression operator [left, right] =>
      (comparisonOps operator).bind fun operator =>
        (instantSide dateParse clock operator left right).or
          (instantSide dateParse clock operator.mirrored right left)
  | _ => none

end Dates

/-- The spelling of a comparison in the plan. -/
def InstantComparison.node (c : InstantComparison) (literal : Node) : Node :=
  .expression (Prisma.comparisonNode c.operator) [c.conversion, literal]

/-! ## The pass -/

section Pass

variable (mapped : String → Bool) (dateParse : String → Option Int) (clock : Int)

/-- A comparison that is left as it is, or moved to the bare timestamp. -/
def rewriteShiftedTimestamp (node : Node) : Option Node :=
  match instantComparison dateParse clock node with
  | some comparison => (timestampLiteral comparison.bound).map comparison.node
  | none => some node

/-- Every rewrite of one node, in turn; none where one throws. -/
def rewriteNode (node : Node) : Option Node :=
  let node := (rewriteConstantKeyIndex mapped node).getD node
  let node := (liftConstantTernary node).getD node
  let node := (rewriteListFunction node).getD node
  let node := (rewriteMembership node).getD node
  rewriteShiftedTimestamp dateParse clock node

mutual

/-- Every rewrite, bottom up. -/
def rewritePlan : Node → Option Node
  | .value v => some (.value v)
  | .var name => some (.var name)
  | .expression operator operands =>
      (rewriteOperands operands).bind fun operands =>
        rewriteNode mapped dateParse clock (.expression operator operands)

def rewriteOperands : List Node → Option (List Node)
  | [] => some []
  | operand :: operands =>
      (rewritePlan operand).bind fun operand =>
        (rewriteOperands operands).map (operand :: ·)

end

end Pass

end QueryPlanAdapters.Drizzle
