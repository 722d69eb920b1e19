import QueryPlanAdapters.Go.ScalarTypes
import QueryPlanAdapters.Cel.Temporal

/-!
# Go: lowering comparisons

A comparison folds where both operands are constants, distributes over a ternary
that was held back, answers a mixed-type or a null comparison as CEL does, and
otherwise becomes a SQL comparison.
-/

namespace QueryPlanAdapters.Go

/-! ## Operands -/

/-- Whether a ternary with this arm has to stay symbolic. -/
def isSymbolic : Val → Bool
  | .ieeeConst _ _ | .condValue _ _ _ => true
  | _ => false

/-- The macro a deferred collection came from. -/
def macroName (isMap : Bool) : String :=
  if isMap then "map" else "filter"

def numberTextMessage : String :=
  "string() over a ValueNumber column translates only as == or != against a string constant: " ++
    "CEL spells a double with Go's %g (\"1e+06\", \"-0\") and no SQL CAST prints that spelling"

/-- Lift a resolved operand into the expression tree. -/
def asExpr : Val → Except Failure Expr
  | .expr e => .ok e
  | .ieeeConst _ _ => errorf "non-finite numeric value has no SQL representation" []
  | .condValue _ _ _ => errorf "conditional value used where a plain expression is required" []
  | .hierarchy _ _ => errorf "hierarchy() value used outside a hierarchy operator" []
  | .numberText _ => errorf numberTextMessage []
  | .deferredCollection _ _ _ _ _ _ isMap =>
      errorf ("'%s' produces a collection rather than a plain value; it only translates inside " ++
        "size() or hasIntersection(), which give the collection a scalar meaning")
        [.string (macroName isMap)]
  | .constant (.array _) | .constant (.object _) =>
      errorf "a list or map literal has no SQL representation as a plain value" []
  | .listValue _ _ _ => errorf "symbolic value %T has no SQL representation" [.string "listValue"]
  | .durationConst _ =>
      errorf "symbolic value %T has no SQL representation" [.string "durationConst"]
  | .timestampShift _ _ =>
      errorf "symbolic value %T has no SQL representation" [.string "timestampShift"]
  | .timeSince _ => errorf "symbolic value %T has no SQL representation" [.string "timeSinceValue"]
  | v => .ok (.lit v)

/-- The double of a numeric constant. -/
def asFloat : Val → Option Double
  | .constant (.number d) => some d
  | _ => none

def isNil : Val → Bool
  | .constant .null => true
  | _ => false

def isListLiteral : Val → Bool
  | .constant (.array _) => true
  | _ => false

/-! ## Constants -/

mutual

/-- CEL equality between two constants, where it folds. -/
def constantsEqual : Literal → Literal → Except Failure Bool
  | .null, r => .ok (match r with | .null => true | _ => false)
  | .string a, r => .ok (match r with | .string b => a = b | _ => false)
  | .bool a, r => .ok (match r with | .bool b => a = b | _ => false)
  | .number a, r => .ok (match r with | .number b => a.eq b | _ => false)
  | .array as, r => match r with | .array bs => constantListsEqual as bs | _ => .ok false
  | .object _, _ =>
      errorf "list equality over a %T element has no constant folding"
        [.string "map[string]interface {}"]

/-- CEL equality between two list literals. -/
def constantListsEqual (as bs : List Literal) : Except Failure Bool :=
  if as.length ≠ bs.length then .ok false else constantElementsEqual as bs

def constantElementsEqual : List Literal → List Literal → Except Failure Bool
  | a :: as, b :: bs => do
      if ← constantsEqual a b then constantElementsEqual as bs else return false
  | _, _ => .ok true

end

/-- A comparison of two strings, by code point. -/
def compareStrings (op : CmpOp) (a b : String) : Bool :=
  op.test (.finite (compareCodePoints a.toList b.toList)) (.finite 0)

/-! ## `string()` over a number -/

section NumberText

variable [Double.Rounding]

/-- `strconv.ParseFloat` on the spellings that `%g` prints. -/
def parseFloat (s : String) : Option Double :=
  if s = "NaN" then some .nan
  else if s = "+Inf" then some .posInf
  else if s = "-Inf" then some .negInf
  else (parseDecimal s).map fun (negative, magnitude) => doubleOfDecimal negative magnitude

/-- The double CEL's `string()` spells as `s`, if there is one. -/
def celDoubleSpelling (s : String) : Option Double :=
  (parseFloat s).filter fun d => formatGoDouble d = s

/-- `string(number) == "…"` and `!=`: a comparison with the one double that prints
as the constant. -/
def compareSpelling (op : CmpOp) (x : Expr) (s : String) : Except Failure Expr :=
  match celDoubleSpelling s with
  | none => .ok (.case [(.isNull x true, .boolConst (op = .ne))] none)
  | some d =>
      if d.isZero then
        errorf ("string() over a number compared with %q: CEL spells 0.0 \"0\" and -0.0 \"-0\", " ++
          "and SQL cannot read the sign of a stored zero") [.string s]
      else if !d.isFinite then
        errorf "string() over a number compared with %q: a non-finite value has no SQL literal"
          [.string s]
      else .ok (.cmp op x (.lit (.number d)))

def compareNumberTextWith (op : CmpOp) (x : Expr) (other : Val) : Except Failure Expr :=
  match other with
  | .constant (.string s) =>
      if op.isOrdering then errorf numberTextMessage [] else compareSpelling op x s
  | _ => errorf numberTextMessage []

/-- A comparison with the text of a number, when either operand is one. -/
def compareNumberText (op : CmpOp) : Val → Val → Option (Except Failure Expr)
  | .numberText x, r => some (compareNumberTextWith op x r)
  | l, .numberText x => some (compareNumberTextWith op x l)
  | _, _ => none

end NumberText

/-! ## Null conventions -/

/-- `x == null` and `x != null` become a NULL test. -/
def nullComparison (op : CmpOp) (l r : Val) : Except Failure (Option Expr) :=
  if op.isOrdering || (!isNil l && !isNil r) then .ok none
  else
    let other := if isNil r then l else r
    if isNil other then .ok (some (.boolConst (op = .eq)))
    else do
      let otherExpr ← asExpr other
      return some (.isNull otherExpr (op = .ne))

/-- `x == null` and `x != null` for an attribute whose NULL is a missing attribute. -/
def omittedNullComparison (op : CmpOp) (x : Expr) : Expr :=
  .case [(.isNull x false, .null)] (some (.boolConst (op = .ne)))

/-- Refuse an equality between two columns where only one declares the
explicit-null convention. -/
def assertNoMixedNullConventions (op : CmpOp) (l r : Expr) : Except Failure Unit :=
  match l, r with
  | .column lCol, .column rCol =>
      if op.isOrdering || lCol.explicitNull = rCol.explicitNull then .ok ()
      else
        errorf ("cannot compare %q and %q under mixed null conventions: one declares the " ++
          "explicit-null convention and the other does not, so the omitted side is UNKNOWN for " ++
          "a NULL column while the declared side is definite, and no single predicate is both. " ++
          "Declare NullConvention on both mapper entries, or on neither")
          [.string lCol.name, .string rCol.name]
  | _, _ => .ok ()

def isColumn : Expr → Bool
  | .column _ => true
  | _ => false

/-- An equality involving an explicit-null column, rewritten so that it is never
UNKNOWN: a null value is unequal to every other one, and two nulls are equal. -/
def definiteEquality (op : CmpOp) (l r : Expr) : Option Expr :=
  if op.isOrdering then none
  else
    let lCol := explicitNullColumn l
    let rCol := explicitNullColumn r
    if lCol.isNone && rCol.isNone then none
    else if isColumn l && isColumn r && (lCol.isNone || rCol.isNone) then none
    else
      let present := (lCol.toList ++ rCol.toList).map fun c => Expr.isNull (.column c) true
      let equality := Expr.and (present ++ [.cmp .eq l r])
      let equality :=
        match lCol, rCol with
        | some lCol, some rCol =>
            Expr.or [.and [.isNull (.column lCol) false, .isNull (.column rCol) false], equality]
        | _, _ => equality
      some (if op = .ne then .not equality else equality)

/-! ## Comparisons -/

def listOperandMessage : String :=
  "a list literal compares only against an operand with a declared scalar ValueType, which it " ++
    "never equals; SQL has no list operand to compare an undeclared column with"

/-- The fold of a comparison whose operands are constants of one scalar type. CEL's
ordering of booleans is not folded. -/
def foldComparison (op : CmpOp) : Val → Val → Option Bool
  | .constant (.number a), .constant (.number b) => some (op.test a b)
  | .constant (.string a), .constant (.string b) => some (compareStrings op a b)
  | .constant (.bool a), .constant (.bool b) =>
      match op with
      | .eq => some (a = b)
      | .ne => some (a ≠ b)
      | _ => none
  | _, _ => none

/-- `applyComparison`, once no operand is the text of a number and no CASE is left to
distribute over. -/
def comparePlain (op : CmpOp) (l r : Val) : Except Failure Expr :=
  match compareMixedTypes op l r with
  | some mixed => .ok mixed
  | none =>
      match l, r with
      | .constant (.array as), .constant (.array bs) =>
          if op.isOrdering then errorf listOperandMessage []
          else do return .boolConst ((← constantListsEqual as bs) = (op = .eq : Bool))
      | l, r =>
          if isListLiteral l || isListLiteral r then errorf listOperandMessage []
          else do
            match ← nullComparison op l r with
            | some nullTest => return nullTest
            | none =>
                match foldComparison op l r with
                | some b => return .boolConst b
                | none =>
                    let lExpr ← asExpr l
                    let rExpr ← asExpr r
                    assertNoMixedNullConventions op lExpr rExpr
                    return (definiteEquality op lExpr rExpr).getD (.cmp op lExpr rExpr)

mutual

/-- Lower a comparison against a CASE arm by arm, where its arms have known,
different kinds. -/
def distributeMixedCase (leaf : Expr → Except Failure Expr) : Expr → Except Failure Expr
  | .case whens els =>
      if (caseArmKinds whens els).length ≤ 1 then leaf (.case whens els)
      else do
        let whens ← distributeWhens leaf whens
        let els ← distributeElse leaf els
        return if caseIsAllNull whens els then .null else .case whens els
  | e => leaf e

def distributeWhens (leaf : Expr → Except Failure Expr) :
    List (Expr × Expr) → Except Failure (List (Expr × Expr))
  | [] => .ok []
  | (cond, whenTrue) :: whens => do
      let whenTrue ← distributeMixedCase leaf whenTrue
      let whens ← distributeWhens leaf whens
      return (cond, whenTrue) :: whens

def distributeElse (leaf : Expr → Except Failure Expr) :
    Option Expr → Except Failure (Option Expr)
  | none => .ok none
  | some els => do return some (← distributeMixedCase leaf els)

end

def isCase : Expr → Bool
  | .case _ _ => true
  | _ => false

/-- A comparison whose left operand is not distributed over. -/
def compareRight (op : CmpOp) (l : Val) : Val → Except Failure Expr
  | .expr r => distributeMixedCase (fun arm => comparePlain op l (.expr arm)) r
  | r => comparePlain op l r

section Comparisons

variable [Double.Rounding]

/-- A comparison whose operands are ordinary constants or expressions. A CASE on the
left that is not distributed over is compared whole. -/
def applyComparison (op : CmpOp) (l r : Val) : Except Failure Expr :=
  match compareNumberText op l r with
  | some result => result
  | none =>
      match l with
      | .expr e =>
          distributeMixedCase (fun arm =>
            if isCase arm then comparePlain op (.expr arm) r else compareRight op (.expr arm) r) e
      | l => compareRight op l r

def unknownZeroSignMessage : String :=
  "the sign of a zero column denominator decides this result: CEL's x / -0.0 is the opposite " ++
    "infinity from x / 0.0, and SQL cannot read the sign of a stored zero"

/-- The double of a numeric operand, a non-finite one included, and whether its sign
is unknown. -/
def ieeeOperand : Val → Option (Double × Bool)
  | .ieeeConst v signUnknown => some (v, signUnknown)
  | .constant (.number d) => some (d, false)
  | _ => none

def isNaNConst : Val → Bool
  | .ieeeConst v _ => v.isNaN
  | _ => false

/-- A comparison of a NaN: only `!=` holds, wherever the other operand is present. -/
def compareNaN (op : CmpOp) (other : Val) : Except Failure Expr :=
  let result := Expr.boolConst (op = .ne)
  if (asFloat other).isSome || isNil other then .ok result
  else match other with
    | .expr e => .ok (.case [(.isNull e false, .null), (.isNull e true, result)] none)
    | _ => errorf "NaN can only be compared with numeric constants or column expressions" []

/-- A comparison of an infinity, refused where an unknown sign decides it. -/
def compareInfinite (op : CmpOp) (l r : Val) : Except Failure Expr :=
  match ieeeOperand l, ieeeOperand r with
  | some (lv, lUnknown), some (rv, rUnknown) =>
      let result := op.test lv rv
      if (lUnknown && op.test lv.neg rv ≠ result) || (rUnknown && op.test lv rv.neg ≠ result) ||
          (lUnknown && rUnknown && op.test lv.neg rv.neg ≠ result) then
        errorf unknownZeroSignMessage []
      else .ok (.boolConst result)
  | _, _ =>
      errorf "non-finite numeric constants can only be compared with numeric constants" []

def isIeee : Val → Bool
  | .ieeeConst _ _ => true
  | _ => false

def compareLeaf (op : CmpOp) (l r : Val) : Except Failure Expr :=
  if !isIeee l && !isIeee r then applyComparison op l r
  else if isNaNConst l || isNaNConst r then
    compareNaN op (if isNaNConst l && isNaNConst r then .nil else if isNaNConst r then l else r)
  else compareInfinite op l r

/-! ## Temporal comparisons -/

def isTemporal : Val → Bool
  | .durationConst _ | .timestampShift _ _ | .timeSince _ => true
  | _ => false

/-- An int64 result, wrapped around as Go wraps it. -/
def int64 (n : Int) : Int :=
  Int.bmod n (2 ^ 64)

/-- A comparison whose left operand is temporal. The instants it leads to are
compared as they stand. -/
def compareTemporalLeft (now : Int) (op : CmpOp) (l r : Val) : Except Failure Expr :=
  match l, r with
  | .durationConst a, .durationConst b => .ok (.boolConst (op.test (.finite a) (.finite b)))
  -- now - x op d is x op' now - d, with op mirrored because x enters negated.
  | .durationConst d, .timeSince x =>
      compareLeaf op.mirrored.mirrored (.expr x) (.time (now + int64 (-d)))
  | .timestampShift x d, .time c => compareLeaf op (.expr x) (.time (c + int64 (-d)))
  | .timeSince x, .durationConst d =>
      compareLeaf op.mirrored (.expr x) (.time (now + int64 (-d)))
  | _, _ =>
      errorf ("a duration compares only with a duration, and a shifted timestamp() only with a " ++
        "timestamp constant") []

def compareTemporal (now : Int) (op : CmpOp) (l r : Val) : Except Failure Expr :=
  if isTemporal r && !isTemporal l then compareTemporalLeft now op.mirrored r l
  else compareTemporalLeft now op l r

/-! ## Ternaries held back -/

/-- Both arms are guarded, so that an UNKNOWN condition yields NULL. -/
def guardedCase (cond whenTrue whenFalse : Expr) : Expr :=
  .case [(cond, whenTrue), (.not cond, whenFalse)] none

/-- Distribute over a ternary held back, down to the arms that are none. -/
def distribute (leaf : Val → Except Failure Expr) : Val → Except Failure Expr
  | .condValue cond whenTrue whenFalse => do
      let whenTrue ← distribute leaf whenTrue
      let whenFalse ← distribute leaf whenFalse
      return guardedCase cond whenTrue whenFalse
  | v => leaf v

/-- A comparison of two operands neither of which is a ternary held back. -/
def compareArms (now : Int) (op : CmpOp) (l r : Val) : Except Failure Expr :=
  if isTemporal l || isTemporal r then compareTemporal now op l r else compareLeaf op l r

/-- Build a comparison. A temporal operand is compared with the whole of the other
one, never with the arms of a ternary. -/
def compare (now : Int) (op : CmpOp) (l r : Val) : Except Failure Expr :=
  if isTemporal l || isTemporal r then compareTemporal now op l r
  else distribute (fun l =>
    if isTemporal l then compareTemporal now op l r
    else distribute (fun r => compareArms now op l r) r) l

end Comparisons

end QueryPlanAdapters.Go
