import QueryPlanAdapters.Go.Mapper
import QueryPlanAdapters.Sql.Value

/-!
# Go: the expression tree and the operands on the way to it

`Expr` is the SQL expression tree the translator produces, without dialect
syntax. `Val` is a resolved operand: a constant folded out of the plan, an
expression, or a symbolic form that some enclosing operator has to consume. A
`lit` node binds any operand at all, as in the code: that only scalars are ever
bound is a property of the translation, not of the tree.
-/

namespace QueryPlanAdapters.Go

export Sql (FromItem)

abbrev CmpOp := ComparisonOperator

abbrev ArithOp := ArithmeticOperator

inductive TruthValue where
  | true | false | unknown
  deriving DecidableEq, Repr

inductive FuncName where
  | charLength | replace | concat | nullIf
  deriving DecidableEq, Repr

inductive CastType where
  | text | float
  deriving DecidableEq, Repr

inductive SubqueryKind where
  | «exists» | count | scalar
  deriving DecidableEq, Repr

structure Column where
  qualifier : String
  name : String
  /-- Whether a NULL is sent to `check()` as an explicit null. -/
  explicitNull : Bool
  type : ValueType
  deriving DecidableEq

mutual

inductive Expr where
  | column (c : Column)
  | lit (v : Val)
  | boolConst (v : Bool)
  | cmp (op : CmpOp) (l r : Expr)
  | arith (op : ArithOp) (l r : Expr)
  | concat (l r : Expr)
  | logic (isAnd : Bool) (xs : List Expr)
  | not (x : Expr)
  | isNull (x : Expr) (negate : Bool)
  | truthTest (x : Expr) (want : TruthValue)
  | like (receiver pattern : Expr)
  | notDistinct (l r : Expr)
  | inList (x : Expr) (vs : List Expr)
  | case (whens : List (Expr × Expr)) (els : Option Expr)
  | call (name : FuncName) (args : List Expr)
  | cast (x : Expr) (target : CastType)
  | subquery (kind : SubqueryKind) (source : List FromItem) (correlate : Expr)
      (filter select : Option Expr)

inductive Val where
  | constant (v : Literal)
  | time (nanos : Int)
  | expr (e : Expr)
  /-- A non-finite double; with `signUnknown` it or its negation. -/
  | ieeeConst (v : Double) (signUnknown : Bool)
  | condValue (cond : Expr) (whenTrue whenFalse : Val)
  | hierarchy (value : Val) (delimiter : String)
  | numberText (x : Expr)
  | deferredCollection (source : List FromItem) (correlate body : Expr) (element : Option Expr)
      (rel : Relation) (parent : String) (isMap : Bool)
  | listValue (defined : Option Expr) (elements : List Val) (nodes : List Node)
  | durationConst (nanos : Int)
  | timestampShift (x : Expr) (nanos : Int)
  | timeSince (x : Expr)

end

/-! ## `reflect.DeepEqual`

Doubles are equal as Go's `==` has them: a NaN differs from itself, and the two zeros are
equal. A map is compared key by key, in no order. -/

mutual

def deepEqualLiterals : Literal → Literal → Bool
  | .null, .null => true
  | .bool a, .bool b => a = b
  | .number a, .number b => a.eq b
  | .string a, .string b => a = b
  | .array as, .array bs => deepEqualItems as bs
  | .object as, .object bs => as.length = bs.length && deepEqualFields as bs
  | _, _ => false

def deepEqualItems : List Literal → List Literal → Bool
  | [], [] => true
  | a :: as, b :: bs => deepEqualLiterals a b && deepEqualItems as bs
  | _, _ => false

def deepEqualFields : List (String × Literal) → List (String × Literal) → Bool
  | [], _ => true
  | (key, a) :: as, bs => (bs.lookup key).any (deepEqualLiterals a) && deepEqualFields as bs

end

mutual

def deepEqualNodes : Node → Node → Bool
  | .value a, .value b => deepEqualLiterals a b
  | .var a, .var b => a = b
  | .expression f as, .expression g bs => f = g && deepEqualOperands as bs
  | _, _ => false

def deepEqualOperands : List Node → List Node → Bool
  | [], [] => true
  | a :: as, b :: bs => deepEqualNodes a b && deepEqualOperands as bs
  | _, _ => false

end

def Declared.deepEqual : Declared → Declared → Bool
  | literal a, literal b => deepEqualLiterals a b
  | time a, time b => a = b
  | _, _ => false

/-- Two lists of one length whose elements are equal in turn. -/
def deepEqualLists {α : Type} (equal : α → α → Bool) (as bs : List α) : Bool :=
  as.length = bs.length && (as.zip bs).all fun pair => equal pair.1 pair.2

def Restriction.deepEqual (a b : Restriction) : Bool :=
  a.value.deepEqual b.value && a.column = b.column &&
    deepEqualLists Declared.deepEqual a.values b.values && a.op = b.op

def Hop.deepEqual (a b : Hop) : Bool :=
  a.table = b.table && a.childColumn = b.childColumn && a.joinColumn = b.joinColumn &&
    deepEqualLists Restriction.deepEqual a.subqueryFilter b.subqueryFilter

mutual

def Relation.deepEqual : Relation → Relation → Bool
  | ⟨field, fields, table, sourceColumn, targetColumn, via, subqueryFilter⟩, b =>
      deepEqualField field b.field && fields.length = b.fields.length &&
        deepEqualEntries fields b.fields && table = b.table && sourceColumn = b.sourceColumn &&
        targetColumn = b.targetColumn && deepEqualLists Hop.deepEqual via b.via &&
        deepEqualLists Restriction.deepEqual subqueryFilter b.subqueryFilter
termination_by structural r => r

def Entry.deepEqual : Entry → Entry → Bool
  | ⟨relation, scalarRelation, column, qualifier, valueType, nullConvention⟩, b =>
      deepEqualRelation relation b.relation && deepEqualRelation scalarRelation b.scalarRelation &&
        column = b.column && qualifier = b.qualifier && valueType = b.valueType &&
        nullConvention = b.nullConvention
termination_by structural e => e

def deepEqualField : Option Entry → Option Entry → Bool
  | none, none => true
  | some a, some b => a.deepEqual b
  | _, _ => false
termination_by structural r => r

def deepEqualRelation : Option Relation → Option Relation → Bool
  | none, none => true
  | some a, some b => a.deepEqual b
  | _, _ => false
termination_by structural r => r

def deepEqualEntries : List (String × Entry) → List (String × Entry) → Bool
  | [], _ => true
  | (key, a) :: as, bs => (bs.lookup key).any a.deepEqual && deepEqualEntries as bs
termination_by structural as => as

end

mutual

def Expr.deepEqual : Expr → Expr → Bool
  | .column c, .column d => c = d
  | .lit v, .lit w => v.deepEqual w
  | .boolConst v, .boolConst w => v = w
  | .cmp op l r, .cmp op' l' r' => op = op' && l.deepEqual l' && r.deepEqual r'
  | .arith op l r, .arith op' l' r' => op = op' && l.deepEqual l' && r.deepEqual r'
  | .concat l r, .concat l' r' => l.deepEqual l' && r.deepEqual r'
  | .logic isAnd xs, .logic isAnd' ys => isAnd = isAnd' && deepEqualExprs xs ys
  | .not x, .not y => x.deepEqual y
  | .isNull x negate, .isNull y negate' => negate = negate' && x.deepEqual y
  | .truthTest x want, .truthTest y want' => want = want' && x.deepEqual y
  | .like x pattern, .like y pattern' => x.deepEqual y && pattern.deepEqual pattern'
  | .notDistinct l r, .notDistinct l' r' => l.deepEqual l' && r.deepEqual r'
  | .inList x vs, .inList y ws => x.deepEqual y && deepEqualExprs vs ws
  | .case whens els, .case whens' els' => deepEqualWhens whens whens' && deepEqualOption els els'
  | .call name args, .call name' args' => name = name' && deepEqualExprs args args'
  | .cast x target, .cast y target' => target = target' && x.deepEqual y
  | .subquery kind source correlate filter select,
      .subquery kind' source' correlate' filter' select' =>
      kind = kind' && source = source' && correlate.deepEqual correlate' &&
        deepEqualOption filter filter' && deepEqualOption select select'
  | _, _ => false
termination_by structural v => v

def Val.deepEqual : Val → Val → Bool
  | .constant a, .constant b => deepEqualLiterals a b
  | .time a, .time b => a = b
  | .expr x, .expr y => x.deepEqual y
  | .ieeeConst v signUnknown, .ieeeConst w signUnknown' => v.eq w && signUnknown = signUnknown'
  | .condValue cond t f, .condValue cond' t' f' =>
      cond.deepEqual cond' && t.deepEqual t' && f.deepEqual f'
  | .hierarchy v delimiter, .hierarchy w delimiter' => v.deepEqual w && delimiter = delimiter'
  | .numberText x, .numberText y => x.deepEqual y
  | .deferredCollection source correlate body element rel parent isMap,
      .deferredCollection source' correlate' body' element' rel' parent' isMap' =>
      source = source' && correlate.deepEqual correlate' && body.deepEqual body' &&
        deepEqualOption element element' && rel.deepEqual rel' && parent = parent' &&
        isMap = isMap'
  | .listValue defined elements nodes, .listValue defined' elements' nodes' =>
      deepEqualOption defined defined' && deepEqualVals elements elements' &&
        deepEqualOperands nodes nodes'
  | .durationConst a, .durationConst b => a = b
  | .timestampShift x a, .timestampShift y b => x.deepEqual y && a = b
  | .timeSince x, .timeSince y => x.deepEqual y
  | _, _ => false
termination_by structural v => v

def deepEqualExprs : List Expr → List Expr → Bool
  | [], [] => true
  | x :: xs, y :: ys => x.deepEqual y && deepEqualExprs xs ys
  | _, _ => false
termination_by structural v => v

def deepEqualVals : List Val → List Val → Bool
  | [], [] => true
  | v :: vs, w :: ws => v.deepEqual w && deepEqualVals vs ws
  | _, _ => false
termination_by structural v => v

def deepEqualWhens : List (Expr × Expr) → List (Expr × Expr) → Bool
  | [], [] => true
  | (cond, x) :: xs, (cond', y) :: ys =>
      cond.deepEqual cond' && x.deepEqual y && deepEqualWhens xs ys
  | _, _ => false
termination_by structural v => v

def deepEqualOption : Option Expr → Option Expr → Bool
  | none, none => true
  | some x, some y => x.deepEqual y
  | _, _ => false
termination_by structural v => v

end

instance : BEq Expr := ⟨Expr.deepEqual⟩

namespace Val

/-- Go's `nil`. -/
abbrev nil : Val := .constant .null

abbrev string (s : String) : Val := .constant (.string s)

abbrev number (d : Double) : Val := .constant (.number d)

abbrev bool (b : Bool) : Val := .constant (.bool b)

end Val

def Declared.toVal : Declared → Val
  | .literal v => .constant v
  | .time nanos => .time nanos

namespace Expr

/-- A NULL, bound as a parameter. -/
abbrev null : Expr := .lit .nil

/-- Combine predicates. A single one stands alone, and none is CEL's identity. -/
def combine (isAnd : Bool) : List Expr → Expr
  | [] => .boolConst isAnd
  | [x] => x
  | xs => .logic isAnd xs

abbrev and (xs : List Expr) : Expr := combine true xs

abbrev or (xs : List Expr) : Expr := combine false xs

end Expr

def negate (e : Expr) (negated : Bool) : Expr :=
  if negated then
    match e with
    | .boolConst v => .boolConst (!v)
    | e => .not e
  else e

/-- The FROM list and correlation of a subquery over a relation. -/
structure Scope where
  source : List FromItem
  correlate : Expr

namespace Scope

/-- `EXISTS (SELECT 1 FROM … WHERE correlate AND filter)`. -/
def «exists» (s : Scope) (filter : Option Expr) : Expr :=
  .subquery .exists s.source s.correlate filter none

/-- `(SELECT COUNT(*) FROM … WHERE correlate AND filter)`. -/
def count (s : Scope) (filter : Option Expr) : Expr :=
  .subquery .count s.source s.correlate filter none

end Scope

/-- A bare column of a generated subquery. -/
def joinColumn (qualifier name : String) : Expr :=
  .column { qualifier, name, explicitNull := false, type := .default }

/-- A relation's element column as seen from inside its subquery. -/
def elementColumn (aliasName : String) (field : Entry) : Column where
  qualifier := aliasName
  name := field.column
  type := field.valueType
  explicitNull := field.nullConvention = .explicit

/-- A store-side predicate on the rows of a table. Membership in no value is false. -/
def Restriction.lower (aliasName : String) (r : Restriction) : Expr :=
  let col := joinColumn aliasName r.column
  let isOneOf := Expr.inList col (r.values.map fun v => .lit v.toVal)
  match r.op with
  | .eq => .cmp .eq col (.lit r.value.toVal)
  | .ne => .cmp .ne col (.lit r.value.toVal)
  | .isNull => .isNull col false
  | .isNotNull => .isNull col true
  | .in => if r.values.isEmpty then .boolConst false else isOneOf
  | .notIn => if r.values.isEmpty then .boolConst true else .not isOneOf

/-- The store-side predicates on one table, in the conjunction that correlates its
subquery. -/
def appendRestrictions (preds : List Expr) (aliasName : String) (restrictions : List Restriction) :
    List Expr :=
  preds ++ restrictions.map (·.lower aliasName)

end QueryPlanAdapters.Go
