import QueryPlanAdapters.Go.Scopes

/-!
# Go: the translator

A node is lowered in boolean position, where the polarity is threaded down to it,
or in value position. The two call each other, and a rewritten condition goes
through them again, so each method here takes them as a builder's fields and the
recursion is closed over a bound on its depth.
-/

namespace QueryPlanAdapters.Go

inductive NullRepresentation where
  | explicit | omitted
  deriving DecidableEq, Repr

structure Options where
  rootTable : String
  nullRepresentation : NullRepresentation

/-- The translation in progress: its options, its clock, and the two methods that
lower an operand. -/
structure Builder where
  opts : Options
  now : Int
  predicate : Node → Mapper → (negated : Bool) → Translation Expr
  value : Node → Mapper → Translation Val

def arithmeticOps : PlanOperator → Option ArithOp
  | .add => some .add
  | .sub => some .sub
  | .mult => some .mult
  | .div => some .div
  | .mod => some .mod
  | _ => none

/-- The macros that fold over a literal list, by how they combine their bodies. -/
def foldable : PlanOperator → Option Bool
  | .exists => some false
  | .all => some true
  | _ => none

/-- Whether a reference resolves to an attribute stored as an instant. -/
def isTemporalEntry (m : Mapper) : Node → Bool
  | .var reference => (m.resolve reference).any (·.valueType = .timestamp)
  | _ => false

/-- Whether two references are compared of which one is stored as an instant. -/
def comparesBareTemporals (m : Mapper) : Node → Node → Bool
  | .var l, .var r =>
      match m.resolve l, m.resolve r with
      | some l, some r => l.valueType = .timestamp || r.valueType = .timestamp
      | _, _ => false
  | _, _ => false

def Val.literal : Val → Option Literal
  | .constant v => some v
  | _ => none

/-- The list of constants, when every element is one. -/
def constantList (elements : List Val) : Option (List Literal) :=
  elements.mapM Val.literal

/-- That every computed element evaluates, an explicit null included. -/
def elementsDefined : List Val → Except Failure (List Expr)
  | [] => .ok []
  | .constant _ :: elements => elementsDefined elements
  | element :: elements => do
      let x ← asExpr element
      let defined ← elementsDefined elements
      return if (explicitNullColumn x).isSome then defined else .isNull x true :: defined

/-- UNKNOWN unless the whole list evaluates. -/
def listWhenDefined (defined : Option Expr) (e : Expr) : Expr :=
  match defined with
  | none => e
  | some defined => .case [(defined, e)] none

section Comparisons

variable [Double.Rounding] (now : Int)

/-- `needle in list(e1, …)`, as the disjunction of its equalities. -/
def membershipInList (needle : Val) (defined : Option Expr) (elements : List Val) :
    Except Failure Expr := do
  let parts ← elements.mapM fun element => compare now .eq needle element
  return listWhenDefined defined (.or parts)

/-- The predicate on one element of a stored collection that equals the needle. -/
def elementMatches (element : Column) (needle : Val) (nullSafe : Bool) : Except Failure Expr :=
  match needle with
  | .constant (.array _) =>
      errorf "membership with a list-valued element cannot be represented by scalar SQL equality" []
  | .constant .null => .ok (.isNull (.column element) false)
  | .expr (.column c) =>
      .ok <| if nullSafe then .notDistinct (.column element) (.column c)
        else .cmp .eq (.column element) (.column c)
  | needle => compare now .eq (.expr (.column element)) needle

/-- The non-comparison binary operators over operands that are resolved. -/
def binaryOperators : PlanOperator → Option (Val → Val → Except Failure Expr)
  | .in => some membership
  | .contains => some (stringMatch .contains)
  | .startsWith => some (stringMatch .startsWith)
  | .endsWith => some (stringMatch .endsWith)
  | .ancestorOf => some ancestorOf
  | .descendentOf => some descendentOf
  | .overlaps => some (hierarchyOverlaps now)
  | _ => none

end Comparisons

/-! ## Null operands -/

def isNullLiteral : Literal → Bool
  | .null => true
  | _ => false

mutual

/-- Whether a literal contains a null anywhere inside it. -/
def carriesNull : Literal → Bool
  | .null => true
  | .array items => carriesNullItems items
  | .object fields => carriesNullFields fields
  | _ => false

def carriesNullItems : List Literal → Bool
  | [] => false
  | item :: items => carriesNull item || carriesNullItems items

def carriesNullFields : List (String × Literal) → Bool
  | [] => false
  | (_, field) :: fields => carriesNull field || carriesNullFields fields

end

/-- A binary comparison between a reference and a literal, in either order. -/
def comparedAttributeAndLiteral (operator : PlanOperator) : List Node → Option (String × Literal)
  | [left, right] =>
      if (comparisonOps operator).isNone && operator ≠ .in then none
      else match left, right with
        | .value v, .var reference | .var reference, .value v => some (reference, v)
        | _, _ => none
  | _ => none

def nullOperandMessage : String :=
  "cannot translate a null operand under NullOmitted: a NULL column sends no attribute, so " ++
    "Cerbos evaluates the comparison as a missing-attribute error (deny) while a " ++
    "NULL-selecting filter would return those rows. Send NULL columns as explicit nulls and " ++
    "use NullExplicit, or keep this shape out of the policy"

section NullOperands

variable (m : Mapper) (fallback : NullRepresentation)

/-- The check of a comparison whose attribute declares its own convention. -/
def assertDeclaredNull (operator : PlanOperator) (operands : List Node) :
    Option (Except Failure Unit) := do
  let (reference, literal) ← comparedAttributeAndLiteral operator operands
  let entry ← m.resolve reference
  if entry.nullConvention = .unset then none
  else
    let rendersUnknown := isNullLiteral literal && (operator = .eq || operator = .ne)
    if carriesNull literal && entry.nullConvention = .omitted && !rendersUnknown then
      some (errorf nullOperandMessage [])
    else some (.ok ())

mutual

/-- Reject the null literals that the caller's convention gives no predicate for. -/
def assertNoNullOperands : Node → Except Failure Unit
  | .value v =>
      if carriesNull v && fallback = .omitted then errorf nullOperandMessage [] else .ok ()
  | .var _ => .ok ()
  | .expression operator operands =>
      (assertDeclaredNull m operator operands).getD (assertNoNullEach operands)

def assertNoNullEach : List Node → Except Failure Unit
  | [] => .ok ()
  | operand :: operands => do
      assertNoNullOperands operand
      assertNoNullEach operands

end

end NullOperands

/-- Whether a column-first comparison is with null, over an attribute whose NULL is a
missing attribute. -/
def omittedNullOperand (op : CmpOp) (left right : Node) (m : Mapper) : Bool :=
  !op.isOrdering &&
    match left, right with
    | .var reference, .value .null =>
        (m.resolve reference).any (·.nullConvention = .omitted)
    | _, _ => false

/-- Whether the needle of a membership sends no attribute for a NULL. -/
def needleOmitted (opts : Options) (needle : Node) (m : Mapper) : Bool :=
  let declared :=
    match needle with
    | .var reference => (m.resolve reference).elim NullConvention.unset Entry.nullConvention
    | _ => .unset
  match declared with
  | .unset => opts.nullRepresentation = NullRepresentation.omitted
  | .explicit => false
  | .omitted => true

namespace Builder

variable [Double.Rounding] (b : Builder)

/-! ## Predicates -/

/-- Both branches are guarded, so that an UNKNOWN condition yields NULL. -/
def ternaryPredicate (operands : List Node) (m : Mapper) (negated : Bool) : Translation Expr :=
  match operands with
  | [cond, whenTrue, whenFalse] => do
      let cond ← b.predicate cond m false
      let whenTrue ← b.predicate whenTrue m negated
      let whenFalse ← b.predicate whenFalse m negated
      return guardedCase cond whenTrue whenFalse
  | _ => errorf "'if' requires exactly three operands" []

/-- `{k: v, …}[x] == c`, for a map literal: a comparison of its key. -/
def mapLiteralLookup (op : CmpOp) (left right : Node) (m : Mapper) :
    Translation (Option Expr) :=
  let (lookup, other) := if right.isValue then (left, right) else (right, left)
  match lookup, other with
  | .expression .index [.expression .struct fields, key], .value other => do
      let entries ← structLiteral fields []
      let key ← b.value key m
      let sorted := entries.insertionSort (·.1 ≤ ·.1)
      let matching ← sorted.filterM fun entry => (constantsEqual entry.2 other : Except _ _)
      let keys := fun (entries : List (String × Literal)) =>
        Val.constant (.array (entries.map fun entry => .string entry.1))
      let isKey ← membership key (keys sorted)
      let hit ← membership key (keys matching)
      return some (.case [(isKey, negate hit (op = .ne))] none)
  | _, _ => return none

/-- A comparison between an attribute stored as an instant but read bare, as its text,
and a timestamp() value. -/
def bareTemporalAgainstTimestamp (op : CmpOp) (left right : Node) (m : Mapper) :
    Translation (Option Expr) :=
  let (bare, other) := if left.isVariable then (left, right) else (right, left)
  match bare with
  | .var reference =>
      if !yieldsTimestamp other then return none
      else if (m.resolve reference).all fun entry =>
          entry.relation.isSome || entry.valueType ≠ .timestamp then return none
      else if op.isOrdering then return some .null
      else do
        let v ← resolveVariable reference m
        let result := Expr.boolConst (op = .ne)
        if v.explicitNullColumn.isSome then return some result
        else return some (.case [(.isNull (← asExpr v) true, result)] none)
  | _ => return none

/-- A comparison whose column, if one operand is a literal, comes first. -/
def columnFirstComparison (op : CmpOp) (left right : Node) (m : Mapper) (negated : Bool) :
    Translation Expr := do
  match ← bareTemporalAgainstTimestamp op left right m with
  | some out => return negate out negated
  | none =>
      if omittedNullOperand op left right m then
        let x ← asExpr (← b.value left m)
        return negate (omittedNullComparison op x) negated
      else
        let l ← b.value left m
        let r ← b.value right m
        return negate (← compare b.now op l r) negated

/-- Lower a comparison. The planner keeps the policy's order, so a value-first one is
mirrored to be column-first. -/
def comparisonPredicate (op : CmpOp) (left right : Node) (m : Mapper) (negated : Bool) :
    Translation Expr := do
  match ← b.mapLiteralLookup op left right m with
  | some out => return negate out negated
  | none =>
      if comparesBareTemporals m left right then
        errorf ("bare temporal attributes compare RFC 3339 strings in CEL; stored timestamps " ++
          "lose the original spelling; use timestamp() on both operands") []
      else if left.isValue && right.isVariable then
        b.columnFirstComparison op.mirrored right left m negated
      else b.columnFirstComparison op left right m negated

/-- `<value> in R.attr.<collection>`, for a collection stored in a related table. -/
def membershipOverRelation (needle : Node) (rel : Relation) (parent : String) (m : Mapper)
    (negated : Bool) : Translation Expr :=
  match rel.field with
  | none =>
      errorf ("membership against a relation requires the relation to map its element column " ++
        "(set Field on the relation)") []
  | some field => do
      let needleValue ← b.value needle m
      let aliasName ← newAlias
      let omitted := needleOmitted b.opts needle m
      let nullSafe := !omitted || field.nullConvention = .explicit
      let body ← elementMatches b.now (elementColumn aliasName field) needleValue nullSafe
      let result ← triStateExists rel aliasName parent body existsSemantics negated
      match needleValue with
      | .expr needleExpr =>
          return if omitted then .case [(.isNull needleExpr true, result)] none else result
      | _ => return result

/-- `needle in <filter()/map() result>`, for a constant needle. -/
def membershipInDeferred (needle : Val) (s : Scope) (body : Expr) (element : Option Expr)
    (rel : Relation) (parent : String) (isMap : Bool) : Translation Expr :=
  match needle with
  | .constant (.string _) | .constant (.number _) | .constant (.bool _) =>
      if isMap then do
        let equal ← compare b.now .eq (.expr body) needle
        requireHops rel parent
          (deferredWitness s (.isNull body false) (.truthTest equal .true))
      else match element with
        | none =>
            errorf ("membership in a filter() result requires the relation to map its element " ++
              "column") []
        | some element => do
            let equal ← compare b.now .eq (.expr element) needle
            requireHops rel parent
              (deferredWitness s (.truthTest body .unknown)
                (.and [.truthTest body .true, .truthTest equal .true]))
  | _ =>
      errorf ("membership in a %s() result translates only for a constant string, number or " ++
        "boolean needle") [.string (macroName isMap)]

/-- `in` a collection that is not stored. -/
def membershipInValue (left right : Node) (m : Mapper) (negated : Bool) : Translation Expr := do
  let l ← b.value left m
  let r ← b.value right m
  match r with
  | .deferredCollection source correlate body element rel parent isMap =>
      let out ← b.membershipInDeferred l { source, correlate } body element rel parent isMap
      return negate out negated
  | .listValue defined elements _ =>
      return negate (← membershipInList b.now l defined elements) negated
  | r => return negate (← membership l r) negated

/-- `in`. A collection stored in another table is recognised before the value-first
order is normalised. -/
def membershipPredicate (left right : Node) (m : Mapper) (negated : Bool) : Translation Expr :=
  match concatenatedHaystack m right with
  | some parts =>
      b.predicate (.expression .or (parts.map fun part => .expression .in [left, part])) m negated
  | none =>
      match relationFor m right, relationFor m left with
      | some (rel, parent), _ => b.membershipOverRelation left rel parent m negated
      | none, some (rel, parent) => b.membershipOverRelation right rel parent m negated
      | none, none =>
          if left.isValue && right.isVariable then b.membershipInValue right left m negated
          else b.membershipInValue left right m negated

/-- Lower the comparisons and the other binary operators. -/
def binaryPredicate (operator : PlanOperator) (operands : List Node) (m : Mapper)
    (negated : Bool) : Translation Expr :=
  match operands with
  | [left, right] =>
      match liftListTernary (.expression operator operands) with
      | some lifted => b.ternaryPredicate lifted.operands m negated
      | none =>
          match emptyListComparison operator left right, comparisonOps operator, operator with
          | some rewritten, _, _ => b.predicate rewritten m negated
          | none, some op, _ => b.comparisonPredicate op left right m negated
          | none, none, .in => b.membershipPredicate left right m negated
          | none, none, operator =>
              match binaryOperators b.now operator with
              | none => errorf "unsupported operator: %s" [.string operator.name]
              | some lower => do
                  let l ← b.value left m
                  let r ← b.value right m
                  return negate (← lower l r) negated
  | _ =>
      errorf "expected a binary operation: op = %q, # of operands = %d"
        [.string operator.name, .int operands.length]

/-! ## Collection macros -/

/-- A macro over a literal list, folded into the flat combination of its bodies. -/
def foldValueListMacro (operator : PlanOperator) (elements : Val) (lambda : Node) (m : Mapper)
    (negated : Bool) : Translation Expr :=
  match foldable operator, elements with
  | none, _ =>
      errorf ("%s over a literal collection value is not supported; only exists() and all() " ++
        "can be folded into a flat filter") [.string operator.name]
  | some isAnd, .constant (.array items) => do
      let (body, name) ← lambdaParts lambda operator
      let parts ← items.mapM fun element => do
        let body ← substituteLambdaVariable body name element
        b.predicate body m negated
      return .combine (isAnd ^^ negated) parts
  | some _, _ =>
      errorf "%s over a literal collection requires a list value" [.string operator.name]

/-- A macro over `list(e1, …)`, each body with the variable bound to one element. -/
def foldListConstructorMacro (operator : PlanOperator) (defined : Option Expr)
    (nodes : List Node) (lambda : Node) (m : Mapper) (negated : Bool) : Translation Expr :=
  match foldable operator with
  | none =>
      errorf ("%s over a list() of computed elements is not supported; only exists() and all() " ++
        "can be folded into a flat filter") [.string operator.name]
  | some isAnd => do
      let (body, name) ← lambdaParts lambda operator
      let parts ← nodes.mapM fun element => do
        let body ← substituteLambdaNode body name element
        b.predicate body m negated
      return listWhenDefined defined (.combine (isAnd ^^ negated) parts)

/-- `list(e1, …)`: a literal when every element is a constant. -/
def listConstructor (operands : List Node) (m : Mapper) : Translation Val := do
  let elements ← operands.mapM fun operand => b.value operand m
  match constantList elements with
  | some items => return .constant (.array items)
  | none =>
      let defined ← elementsDefined elements
      return .listValue (if defined.isEmpty then none else some (.and defined)) elements operands

/-- The macro over a relation whose body is lowered. -/
def macroOverScope (operator : PlanOperator) (s : Scope) (rel : Relation)
    (aliasName parent : String) (body : Expr) (negated : Bool) : Translation Expr :=
  match operator with
  | .exists => triStateExists rel aliasName parent body existsSemantics negated
  | .all => triStateExists rel aliasName parent body allSemantics negated
  | .existsOne => do return negate (← requireHops rel parent (exactlyOne s body)) negated
  | operator =>
      errorf ("'%s' produces a collection rather than a boolean; it only translates inside " ++
        "size() or hasIntersection(), which give the collection a scalar meaning")
        [.string operator.name]

/-- A macro over a stored collection, whose body sees the elements under a new alias.
Its scope is built first, which numbers the hops of a chain, whatever the macro. -/
def relationMacro (operator : PlanOperator) (collection : String) (lambda : Node) (m : Mapper)
    (negated : Bool) : Translation Expr := do
  let (body, name) ← lambdaParts lambda operator
  let (rel, parent) ← requireRelation m collection
  let aliasName ← newAlias
  let body ← b.predicate body (scopedMapper m rel name aliasName) false
  let s ← relationScope rel aliasName parent
  macroOverScope operator s rel aliasName parent body negated

/-- Lower exists, all and exists_one, and reject filter and map. -/
def collectionMacro (operator : PlanOperator) (operands : List Node) (m : Mapper)
    (negated : Bool) : Translation Expr :=
  match operands with
  | [.value elements, lambda] => b.foldValueListMacro operator (.constant elements) lambda m negated
  | [.expression .list elements, lambda] => do
      match ← b.listConstructor elements m with
      | .listValue defined _ nodes =>
          b.foldListConstructorMacro operator defined nodes lambda m negated
      | literal => b.foldValueListMacro operator literal lambda m negated
  | [.var collection, lambda] => b.relationMacro operator collection lambda m negated
  | [_, _] =>
      errorf "'%s' requires a collection attribute or a literal list" [.string operator.name]
  | _ => errorf "'%s' requires exactly two operands" [.string operator.name]

/-! ## Set functions -/

/-- `hasIntersection`, of a literal list and a stored, projected or scalar operand. -/
def hasIntersection (operands : List Node) (m : Mapper) (negated : Bool) : Translation Expr :=
  match operands with
  | [left, right] =>
      let (listNode, otherNode) := if left.isValue then (left, right) else (right, left)
      match listNode with
      | .value (.array items) =>
          match relationFor m otherNode with
          | some (rel, parent) =>
              match rel.field with
              | none =>
                  errorf ("hasIntersection against a relation requires the relation to map its " ++
                    "element column") []
              | some field => do
                  let aliasName ← newAlias
                  let element := Expr.column (elementColumn aliasName field)
                  let body ← membership (.expr element) (.constant (.array items))
                  triStateExists rel aliasName parent body existsSemantics negated
          | none => do
              match ← b.value otherNode m with
              | .deferredCollection source correlate body _ _ _ isMap =>
                  if !isMap then
                    errorf ("hasIntersection() over filter() is not supported; project with " ++
                      "map() instead") []
                  else
                    let member ← membership (.expr body) (.constant (.array items))
                    return negate (deferredWitness { source, correlate } (.isNull body false)
                      (.truthTest member .true)) negated
              | otherValue =>
                  return negate (← membership otherValue (.constant (.array items))) negated
      | .value _ => errorf "hasIntersection requires a list value" []
      | _ =>
          errorf ("hasIntersection between two stored collections requires a set-valued join " ++
            "that SQL cannot express as a row filter; one side must be a literal list") []
  | _ => errorf "'hasIntersection' requires exactly two operands" []

/-- `isSubset`, of a stored list in a literal one. -/
def isSubset (operands : List Node) (m : Mapper) (negated : Bool) : Translation Expr :=
  match operands with
  | [sub, super] =>
      match relationFor m sub, super with
      | some (rel, parent), .value (.array items) =>
          match rel.field with
          | none =>
              errorf ("isSubset against a relation requires the relation to map its element " ++
                "column") []
          | some field => do
              let aliasName ← newAlias
              let element := Expr.column (elementColumn aliasName field)
              let body ← membership (.expr element) (.constant (.array items))
              triStateExists rel aliasName parent body allSemantics negated
      | some _, .value _ => errorf "isSubset requires a list value" []
      | _, _ =>
          errorf ("isSubset translates only a stored list against a literal list: SQL has no set " ++
            "containment between two stored collections or over a computed list") []
  | _ => errorf "'isSubset' requires exactly two operands" []

/-- Lower a node in boolean position. -/
def predicateStep (n : Node) (m : Mapper) (negated : Bool) : Translation Expr :=
  match n with
  | .var reference => do
      let v ← resolveVariable reference m
      return negate (← asExpr v) negated
  | .value (.bool truthy) => return .boolConst (truthy ^^ negated)
  | .value v => errorf "non-boolean constant %v in a boolean position" [.value v]
  | .expression operator operands =>
      match operator with
      | .and | .or =>
          if operands.isEmpty then
            errorf "'%s' requires at least one operand" [.string operator.name]
          else do
            let parts ← operands.mapM fun operand => b.predicate operand m negated
            return .combine ((operator = .and : Bool) ^^ negated) parts
      | .not =>
          match operands with
          | [operand] => b.predicate operand m !negated
          | _ => errorf "'not' requires exactly one operand" []
      | .if => b.ternaryPredicate operands m negated
      | .exists | .existsOne | .all | .filter | .map =>
          b.collectionMacro operator operands m negated
      | .eq | .ne | .lt | .le | .gt | .ge | .in | .contains | .startsWith | .endsWith
      | .ancestorOf | .descendentOf | .overlaps => b.binaryPredicate operator operands m negated
      | .hasIntersection => b.hasIntersection operands m negated
      | .isSubset => isSubset operands m negated
      | .matches =>
          errorf ("unsupported operator: matches. CEL's regex dialect (RE2) is not the dialect " ++
            "any SQL engine implements, so a translated pattern would accept or reject different " ++
            "strings than the PDP") []
      | .lambda => errorf "lambda expression outside a collection macro" []
      | operator => errorf "unsupported operator: %s" [.string operator.name]

/-! ## Values -/

/-- A `filter()` or `map()` over a stored collection, held back. -/
def deferredCollection (isMap : Bool) (operands : List Node) (m : Mapper) : Translation Val :=
  match operands with
  | [.var collection, lambda] => do
      let (rel, parent) ← requireRelation m collection
      let (body, name) ← lambdaParts lambda (if isMap then .map else .filter)
      let aliasName ← newAlias
      let inner := scopedMapper m rel name aliasName
      let body ← if isMap then do asExpr (← b.value body inner) else b.predicate body inner false
      let element := rel.field.map fun field => Expr.column (elementColumn aliasName field)
      let s ← relationScope rel aliasName parent
      return .deferredCollection s.source s.correlate body element rel parent isMap
  | [_, _] => errorf "'%s' requires a collection attribute" [.string (macroName isMap)]
  | _ => errorf "'%s' requires exactly two operands" [.string (macroName isMap)]

def ternaryValue (operands : List Node) (m : Mapper) : Translation Val :=
  match operands with
  | [cond, whenTrue, whenFalse] => do
      let cond ← b.predicate cond m false
      let whenTrue ← b.value whenTrue m
      let whenFalse ← b.value whenFalse m
      if isSymbolic whenTrue || isSymbolic whenFalse then
        return .condValue cond whenTrue whenFalse
      else return .expr (guardedCase cond (← asExpr whenTrue) (← asExpr whenFalse))
  | _ => errorf "'if' requires exactly three operands" []

/-- `m["key"]`, as the member `m.key` the mapper declares. -/
def index (operands : List Node) (m : Mapper) : Translation Val :=
  match operands with
  | [.var container, .value (.string key)] =>
      if key ≠ "" && isBareName key then resolveVariable (container ++ "." ++ key) m
      else errorf indexMessage []
  | [_, _] => errorf indexMessage []
  | _ => errorf "'index' requires exactly two operands" []
where
  indexMessage : String :=
    "index() translates only a constant string key into a map attribute whose member is " ++
      "mapped: a list position has no lowering, since a related table has no row order, and a " ++
      "map literal indexed by an attribute has no SQL lookup"

/-- The size of an operand that is not a stored collection. -/
def sizeOfValue (v : Val) : Except Failure Val :=
  match v with
  | .deferredCollection source correlate body _ _ _ isMap =>
      if isMap then errorf "size() over map() is not supported; project with filter() instead" []
      else
        let s : Scope := { source, correlate }
        .ok (.expr (.case [(s.exists (some (.truthTest body .unknown)), .null)]
          (some (s.count (some (.truthTest body .true))))))
  | .constant (.string s) => .ok (.number (.finite s.length))
  | .constant (.array items) => .ok (.number (.finite items.length))
  | v => do
      let e ← asExpr v
      return .expr (if knownNonString v then .null else .call .charLength [e])

/-- `size()`: a correlated count, or a length. -/
def size (operands : List Node) (m : Mapper) : Translation Val :=
  match operands with
  | [operand] =>
      match relationFor m operand with
      | some (rel, parent) => do
          let aliasName ← newAlias
          let s ← relationScope rel aliasName parent
          return .expr (← requireHops rel parent (s.count none))
      | none => do sizeOfValue (← b.value operand m)
  | _ => errorf "'size' requires exactly one operand" []

/-- The arithmetic operators, in their temporal, string and numeric readings. -/
def arithmetic (operator : PlanOperator) (op : ArithOp) (operands : List Node) (m : Mapper) :
    Translation Val :=
  match operands with
  | [left, right] => do
      let l ← b.value left m
      let r ← b.value right m
      match op, temporalArith op l r with
      | .div, _ => floatDiv l r
      | _, some shifted =>
          let shifted ← shifted
          if left.isVariable || right.isVariable then
            errorf ("a duration shifts only a timestamp() value, not a bare attribute, which CEL " ++
              "holds as a string") []
          else return shifted
      | .add, none => addValue l r
      | op, none => numericArith op l r
  | _ => errorf "'%s' requires exactly two operands" [.string operator.name]

/-- A function of one operand. -/
def unaryValue (operator : PlanOperator) (operands : List Node) (m : Mapper)
    (lower : Node → Val → Except Failure Val) : Translation Val :=
  match operands with
  | [operand] => do lower operand (← b.value operand m)
  | _ => errorf "'%s' requires exactly one operand" [.string operator.name]

def hierarchyValue (operands : List Node) (m : Mapper) : Translation Val :=
  match operands with
  | [target] => do newHierarchy (← b.value target m) none
  | [target, delimiter] => do
      let target ← b.value target m
      newHierarchy target (some (← b.value delimiter m))
  | _ => errorf "'hierarchy' requires one or two operands" []

/-- `string()`, refused over a numeric constant before its operand is lowered. -/
def stringValue (operands : List Node) (m : Mapper) : Translation Val :=
  if operands.length = 1 && operands.any rendersNumericConstant then
    errorf ("string() over a numeric constant cannot be lowered: the plan ships an int and a " ++
      "double constant as the same number, which CEL renders differently (\"1000000\" and " ++
      "\"1e+06\"), and a SQL CAST of the bound parameter spells neither reliably (SQLite says " ++
      "\"1000000.0\")") []
  else b.unaryValue .string operands m fun _ v => castValue v

/-- Lower a node in value position. What is no value form is a predicate. -/
def valueStep (n : Node) (m : Mapper) : Translation Val :=
  match n with
  | .value v => return .constant v
  | .var reference => resolveVariable reference m
  | .expression operator operands =>
      match operator with
      | .if => b.ternaryValue operands m
      | .hierarchy => b.hierarchyValue operands m
      | .size => b.size operands m
      | .index => index operands m
      | .list => b.listConstructor operands m
      | .struct => do return .constant (.object (← structLiteral operands []))
      | .upperAscii => b.unaryValue operator operands m fun _ v => upperASCII v
      | .duration => b.unaryValue operator operands m fun _ v => parseDurationValue v
      | .timeSince => b.unaryValue operator operands m fun operand v => timeSince b.now operand v
      | .filter => b.deferredCollection false operands m
      | .map => b.deferredCollection true operands m
      | .timestamp =>
          b.unaryValue operator operands m fun operand v =>
            parseTimestamp v (isTemporalEntry m operand)
      | .double | .int =>
          errorf ("'%s()' cannot be lowered to SQL CAST: CAST reads a numeric prefix where CEL " ++
            "requires the whole string and raises otherwise, and PostgreSQL and MySQL round " ++
            "where CEL truncates toward zero") [.string operator.name]
      | .string => b.stringValue operands m
      | operator =>
          match arithmeticOps operator with
          | some op => b.arithmetic operator op operands m
          | none => do
              if lambdaBinding operator then
                return .expr (← b.collectionMacro operator operands m false)
              else return .expr (← b.predicate n m false)

end Builder

/-! ## The translation -/

section Build

variable [Double.Rounding]

/-- The builder whose recursion is at most `fuel` deep. -/
def builder (opts : Options) (now : Int) : (fuel : Nat) → Builder
  | 0 =>
      { opts, now
        predicate := fun _ _ _ => throw .outOfFuel
        value := fun _ _ => throw .outOfFuel }
  | fuel + 1 =>
      { opts, now
        predicate := (builder opts now fuel).predicateStep
        value := (builder opts now fuel).valueStep }

/-- Lower a plan condition into the abstract expression tree. -/
def build (fuel : Nat) (now : Int) (cond : Node) (m : Mapper) (opts : Options) :
    Except Failure Expr :=
  if startsWithText opts.rootTable aliasPrefix then
    errorf ("resource table %q collides with the %q prefix reserved for generated subquery " ++
      "aliases") [.string opts.rootTable, .string aliasPrefix]
  else do
    assertNoNullOperands (guardedMapper m) opts.nullRepresentation cond
    let root := rootMapper (guardedMapper m) opts.rootTable
    let (e, _) ← (builder opts now fuel).predicate cond root false 0
    return e

end Build

end QueryPlanAdapters.Go
