import QueryPlanAdapters.Drizzle.StringTests
import QueryPlanAdapters.Numeric.NearestEven

/-!
# Drizzle: `int()` of a column

A text is validated before it is cast, by lengths and by the order of what is left of it. The
result can reach the ends of int64, where two of the stores compare an integer with a double
inexactly, so it is only compared with constants of smaller magnitude than `2 ^ 53`.
-/

namespace QueryPlanAdapters.Drizzle

/-! ## Columns and constants -/

inductive DataType where
  | number | string | boolean | date | other
  deriving DecidableEq, Repr

/-- The Drizzle column types that can only hold whole numbers inside int64's range. -/
def integerColumnTypes : List String :=
  ["SQLiteInteger", "PgInteger", "PgSmallInt", "PgBigInt53", "PgSerial", "PgSmallSerial",
    "PgBigSerial53", "MySqlInt", "MySqlTinyInt", "MySqlSmallInt", "MySqlMediumInt",
    "MySqlBigInt53", "MySqlSerial"]

structure Column where
  name : String
  /-- The store, where the column is of the class of one of the three. -/
  dialect : Option Dialect
  dataType : DataType
  columnType : String
  /-- Whole numbers are numbers. -/
  isNumber : columnType ∈ integerColumnTypes → dataType = .number

/-- The column that a reference names, where it names one. -/
abbrev Mapper := String → Option Column

def Mapper.columnForOperand (mapper : Mapper) : Operand FiniteDouble → Option Column
  | .var name => mapper name
  | _ => none

def withPolarity (filter : SQL) (negated : Bool) : SQL :=
  if negated then .not filter else filter

def int32Min : ℚ := -2147483648

def int32Max : ℚ := 2147483647

def requiresDoubleTyping (value : FiniteDouble) : Bool :=
  !value.value.isInteger || decide (value.value.toRat < int32Min) ||
    decide (int32Max < value.value.toRat)

/-- A number, typed so that the engine reads it as a double where it is no 32-bit integer. -/
def bindConstant (value : FiniteDouble) : SQL :=
  if requiresDoubleTyping value then .value (.double value.value)
  else .integer value.value.trunc

/-! ## The conversions -/

/-- The first double that `int()` refuses in either direction. -/
def int64Bound : FiniteDouble := .ofRat (2 ^ 63)

def int64BoundNegative : FiniteDouble := .ofRat (-2 ^ 63)

def buildDoubleToInt (column : Column) (expr : SQL) : Option SQL :=
  column.dialect.map fun _ =>
    .onlyWhen (.and (.compare .gt expr (bindConstant int64BoundNegative))
      (.compare .lt expr (bindConstant int64Bound))) (.truncate expr)

section Text

variable (expr : SQL)

def textSign : SQL := .substring expr (.integer 1) (.integer 1)

def unsignedText : SQL :=
  .caseWhen (.inList (textSign expr) [.text "+", .text "-"]) (.substr expr (.integer 2)) expr

def nonDigits : SQL :=
  "0123456789".toList.foldl
    (fun rest digit => SQL.replace rest (.text digit.toString) (.text "")) (unsignedText expr)

def significantDigits : SQL := .trimZeros (unsignedText expr)

/-- The greatest magnitude that the sign leaves in int64. -/
def magnitudeBound : SQL :=
  .caseWhen (.compare .eq (textSign expr) (.text "-")) (.text "9223372036854775808")
    (.text "9223372036854775807")

def spellsInt64 : SQL :=
  .allOf [.compare .gt (.length (unsignedText expr)) (.integer 0),
    .compare .eq (.length (nonDigits expr)) (.integer 0),
    .or (.compare .lt (.length (significantDigits expr)) (.integer 19))
      (.and (.compare .eq (.length (significantDigits expr)) (.integer 19))
        (.compare .le (significantDigits expr) (magnitudeBound expr)))]

end Text

def buildStringToInt (column : Column) (expr : SQL) : Option SQL :=
  column.dialect.map fun _ => .onlyWhen (spellsInt64 expr) (.castInteger expr)

/-- Below it a double holds every integer. -/
def exactDoubleIntegerBound : ℚ := 2 ^ 53

def buildCheckedIntComparison (mapper : Mapper) (operator : ComparisonOperator) :
    (conversion constant : Operand FiniteDouble) → Option SQL
  | .expression .int [inner], .value (.number value) =>
      if |value.value.toRat| < exactDoubleIntegerBound then
        match mapper.columnForOperand inner with
        | none => none
        | some column =>
            if column.columnType ∈ integerColumnTypes then none
            else
              let converted := match column.dataType with
                | .number => buildDoubleToInt column (.column column.name)
                | .string => buildStringToInt column (.column column.name)
                | _ => none
              converted.map fun converted => .compare operator converted (bindConstant value)
      else none
  | _, _ => none

/-- The conversion on either side of the comparison. -/
def buildCheckedIntFilter (mapper : Mapper) (operator : ComparisonOperator)
    (left right : Operand FiniteDouble) (negated : Bool) : Option SQL :=
  ((buildCheckedIntComparison mapper operator left right).or
    (buildCheckedIntComparison mapper operator.mirrored right left)).map (withPolarity · negated)

/-! ## What is left of a text -/

section Parts

variable {engine : Engine} {row : String → Scalar} {expr : SQL} {cs : List Char}

section Texts

variable (hexpr : expr.eval engine row = .chars cs)
include hexpr

theorem eval_textSign : (textSign expr).eval engine row = .chars (cs.take 1) := by
  simp [textSign, SQL.eval, hexpr, Dialect.substrCount]

theorem truth_textSign (sign : Char) :
    (SQL.compare .eq (textSign expr) (.text (String.ofList [sign]))).truth engine row =
      .ofBool (cs.head? = some sign) := by
  have htext : (SQL.text (String.ofList [sign])).eval engine row = .chars [sign] := rfl
  rw [SQL.truth_compare, eval_textSign hexpr, htext, Engine.compare_chars_eq]
  cases cs <;> simp

theorem eval_unsignedText : (unsignedText expr).eval engine row = .chars (takeSign cs).2 := by
  have hplus : (SQL.compare .eq (textSign expr) (.text "+")).truth engine row =
      .ofBool (cs.head? = some '+') := truth_textSign hexpr '+'
  have hminus : (SQL.compare .eq (textSign expr) (.text "-")).truth engine row =
      .ofBool (cs.head? = some '-') := truth_textSign hexpr '-'
  have hsigned : (SQL.inList (textSign expr) [.text "+", .text "-"]).truth engine row =
      .ofBool (cs.head? = some '+' || cs.head? = some '-') := by
    simp only [SQL.inList, List.map_cons, List.map_nil, SQL.anyOf, SQL.truth_or, hplus, hminus,
      Truth.or_ofBool]
  have htail : (SQL.substr expr (.integer 2)).eval engine row = .chars cs.tail := by
    simp [SQL.eval, hexpr, Dialect.substrFrom]
  have hcase : (unsignedText expr).eval engine row =
      if (SQL.inList (textSign expr) [.text "+", .text "-"]).truth engine row = .yes then
        (SQL.substr expr (.integer 2)).eval engine row else expr.eval engine row := rfl
  rw [hcase, hsigned, htail, hexpr]
  cases cs with
  | nil => rfl
  | cons c cs =>
      rw [takeSign_cons, List.head?_cons, List.tail_cons]
      by_cases hminus : c = '-'
      · simp [hminus]
      · by_cases hplus : c = '+'
        · simp [hplus]
        · simp [hminus, hplus]

theorem eval_nonDigits : (nonDigits expr).eval engine row =
      .chars ((takeSign cs).2.filter (· ∉ "0123456789".toList)) :=
  eval_deletions _ _ (eval_unsignedText hexpr)

theorem eval_significantDigits :
    (significantDigits expr).eval engine row = .chars ((takeSign cs).2.dropWhile (· = '0')) := by
  rw [significantDigits, SQL.eval, eval_unsignedText hexpr, Scalar.onText_chars]

theorem eval_magnitudeBound :
    (magnitudeBound expr).eval engine row = .chars (boundDigits (takeSign cs).1) := by
  have hminus : (SQL.compare .eq (textSign expr) (.text "-")).truth engine row =
      .ofBool (cs.head? = some '-') := truth_textSign hexpr '-'
  have hcase : (magnitudeBound expr).eval engine row =
      if (SQL.compare .eq (textSign expr) (.text "-")).truth engine row = .yes then
        .text "9223372036854775808" else .text "9223372036854775807" := rfl
  rw [hcase, hminus, takeSign_fst, boundDigits, Scalar.chars]
  cases decide (cs.head? = some '-') with
  | false => exact congrArg Scalar.text String.ofList_toList.symm
  | true => exact congrArg Scalar.text String.ofList_toList.symm

/-- The guard: digits, and at most the greatest magnitude. -/
theorem truth_spellsInt64 : (spellsInt64 expr).truth engine row =
      .ofBool (decide ((takeSign cs).2 ≠ [] ∧ (takeSign cs).2.all isDigit = true ∧
        decimalValue (takeSign cs).2 ≤ decimalValue (boundDigits (takeSign cs).1))) := by
  obtain ⟨hbound, hlength, hvalue⟩ := boundDigits_spec (takeSign cs).1
  have hfirst : 10 ^ ((boundDigits (takeSign cs).1).length - 1) ≤
      decimalValue (boundDigits (takeSign cs).1) := by
    rw [hlength, hvalue]
    split <;> decide
  have hunsigned := eval_unsignedText hexpr
  have hsignificant := eval_significantDigits hexpr
  rw [spellsInt64, SQL.truth_allOf]
  simp only [List.map_cons, List.map_nil, Truth.all_cons, Truth.all_nil, SQL.truth_or,
    SQL.truth_and, SQL.truth_compare, SQL.eval, hunsigned, hsignificant, eval_nonDigits hexpr,
    eval_magnitudeBound hexpr, Scalar.onText_chars, SQL.eval_integer, Engine.compare_integer,
    Engine.compare_chars, ComparisonOperator.test, Truth.and_ofBool, Truth.or_ofBool,
    Truth.and_yes, Double.lt_finite, Double.eq_finite, Double.le_finite]
  congr 1
  rw [Bool.eq_iff_iff]
  simp only [Bool.and_eq_true, Bool.or_eq_true, decide_eq_true_iff]
  norm_cast
  rw [length_nonDigits_eq_zero_iff, List.length_pos_iff, ← hlength]
  apply and_congr_right
  intro _
  apply and_congr_right
  intro hdigits
  exact (decimalValue_le_iff hdigits hbound hfirst).symm

end Texts

/-! ## The conversion of a text -/

variable {s : String}

theorem truth_spellsInt64_text (hexpr : expr.eval engine row = .text s) :
    (spellsInt64 expr).truth engine row = .ofBool (parseInt64 s).isSome := by
  have hchars : expr.eval engine row = .chars s.toList := by
    rw [hexpr, Scalar.chars, String.ofList_toList]
  rw [truth_spellsInt64 hchars, parseInt64_eq]
  split
  next h => rw [decide_eq_true h]; rfl
  next h => rw [decide_eq_false h]; rfl

/-- The integer that a text spells, or NULL. -/
theorem eval_stringToInt (hexpr : expr.eval engine row = .text s) :
    (SQL.onlyWhen (spellsInt64 expr) (.castInteger expr)).eval engine row =
      (parseInt64 s).elim .null .integer := by
  have hcase : (SQL.onlyWhen (spellsInt64 expr) (.castInteger expr)).eval engine row =
      if (spellsInt64 expr).truth engine row = .yes then
        (SQL.castInteger expr).eval engine row else .null := rfl
  rw [hcase, truth_spellsInt64_text hexpr]
  cases hparsed : parseInt64 s with
  | none => rfl
  | some n =>
      have hguard : Truth.ofBool (some n).isSome = .yes := rfl
      rw [if_pos hguard, SQL.eval, hexpr, Scalar.onText_text, String.ofList_toList, hparsed]
      rfl

/-- Of a NULL, nothing is cast. -/
theorem eval_stringToInt_null (hexpr : expr.eval engine row = .null) :
    (SQL.onlyWhen (spellsInt64 expr) (.castInteger expr)).eval engine row = .null := by
  have hcast : (SQL.castInteger expr).eval engine row = .null := by
    rw [SQL.eval, hexpr, Scalar.onText_null]
  have hcase : (SQL.onlyWhen (spellsInt64 expr) (.castInteger expr)).eval engine row =
      if (spellsInt64 expr).truth engine row = .yes then
        (SQL.castInteger expr).eval engine row else .null := rfl
  rw [hcase, hcast, ite_self]

end Parts

/-! ## The comparison with a constant -/

theorem test_ofInt (op : ComparisonOperator) {d : Double} (hd : d.isFinite = true)
    (hsmall : |d.toRat| < 2 ^ 53) (n : Int) : op.test (.ofInt n) d = op.test (.finite n) d := by
  obtain ⟨hlow, hhigh⟩ := abs_lt.mp hsmall
  obtain ⟨hlt, hgt, heq⟩ := Double.compare_ofInt hd hlow hhigh n
  cases op <;> simp [ComparisonOperator.test, Double.le, hlt, hgt, heq, Double.eq_swap d]

/-- An integer beside a constant, which no store rounds to the other side. -/
theorem compare_bindConstant {engine : Engine} {row : String → Scalar} (op : ComparisonOperator)
    (n : Int) {k : FiniteDouble} (hk : |k.value.toRat| < exactDoubleIntegerBound) :
    engine.compare op (.integer n) ((bindConstant k).eval engine row) =
      .ofBool (op.test (.finite n) k.value) := by
  rw [bindConstant]
  split
  · have hkeys : engine.compare op (.integer n) (.double k.value) =
        .ofBool (op.test (engine.dialect.widen n) k.value) := rfl
    rw [SQL.eval_value, hkeys]
    cases engine.dialect with
    | sqlite => rfl
    | postgresql => exact congrArg Truth.ofBool (test_ofInt op k.isFinite hk n)
    | mysql => exact congrArg Truth.ofBool (test_ofInt op k.isFinite hk n)
  next h =>
    have hinteger : k.value.isInteger = true := by
      rw [requiresDoubleTyping, Bool.or_eq_true, Bool.or_eq_true, not_or, not_or,
        Bool.not_eq_true', Bool.not_eq_false] at h
      exact h.1.1
    have hn : (Double.finite n).isFinite = true := rfl
    rw [SQL.eval_integer, Engine.compare_integer, test_of_isFinite op hn k.isFinite,
      Double.toRat_of_isInteger hinteger]
    rfl

theorem truth_withPolarity {engine : Engine} {row : String → Scalar} (filter : SQL)
    (negated : Bool) :
    (withPolarity filter negated).truth engine row =
      Truth.polarised negated (filter.truth engine row) := by
  cases negated with
  | false => rfl
  | true => exact SQL.truth_not filter

/-- What is compared with the constant. -/
def convertedColumn (column : Column) : SQL :=
  .onlyWhen (spellsInt64 (.column column.name)) (.castInteger (.column column.name))

theorem buildCheckedIntComparison_text {engine : Engine} {mapper : Mapper} {name : String}
    {column : Column} (hcolumn : mapper name = some column)
    (hdialect : column.dialect = some engine.dialect) (htype : column.dataType = .string)
    (op : ComparisonOperator) {k : FiniteDouble}
    (hk : |k.value.toRat| < exactDoubleIntegerBound) :
    buildCheckedIntComparison mapper op (.expression .int [.var name]) (.value (.number k)) =
      some (.compare op (convertedColumn column) (bindConstant k)) := by
  have hnotInteger : column.columnType ∉ integerColumnTypes := by
    intro h
    have hnumber := column.isNumber h
    rw [htype] at hnumber
    cases hnumber
  simp only [buildCheckedIntComparison, if_pos hk, Mapper.columnForOperand, hcolumn,
    if_neg hnotInteger, htype, buildStringToInt, hdialect, Option.map_some, convertedColumn]

theorem truth_checkedIntComparison {engine : Engine} {row : String → Scalar} {column : Column}
    {value : Option String} (hstored : row column.name = value.elim .null .text)
    (op : ComparisonOperator) {k : FiniteDouble}
    (hk : |k.value.toRat| < exactDoubleIntegerBound) :
    (SQL.compare op (convertedColumn column) (bindConstant k)).truth engine row =
      (value.bind parseInt64).elim .unknown fun n => .ofBool (op.test (.finite n) k.value) := by
  have hconverted : (convertedColumn column).eval engine row =
      (value.bind parseInt64).elim .null .integer := by
    cases value with
    | none => exact eval_stringToInt_null hstored
    | some s => exact eval_stringToInt hstored
  rw [SQL.truth_compare, hconverted]
  cases value.bind parseInt64 with
  | none => exact Engine.compare_null_left _
  | some n => exact compare_bindConstant op n hk

/-- `int()` of a column of texts is what Go parses, and every comparison of it with a constant of
smaller magnitude than `2 ^ 53`, on either side, is CEL's; it is UNKNOWN where the text spells no
int64 or is missing. -/
theorem checkedInt_decides (engine : Engine) (row : String → Scalar) (mapper : Mapper)
    (name : String) (column : Column) (hcolumn : mapper name = some column)
    (hdialect : column.dialect = some engine.dialect) (htype : column.dataType = .string) :
    (∀ s, row column.name = .text s →
      (spellsInt64 (.column column.name)).truth engine row = .ofBool (parseInt64 s).isSome ∧
      (buildStringToInt column (.column column.name)).map (·.eval engine row) =
        some ((parseInt64 s).elim .null .integer)) ∧
    ∀ value : Option String, row column.name = value.elim .null .text →
      ∀ (op : ComparisonOperator) (k : FiniteDouble), |k.value.toRat| < exactDoubleIntegerBound →
      ∀ negated : Bool,
        (buildCheckedIntFilter mapper op (.expression .int [.var name]) (.value (.number k))
            negated).map (·.truth engine row) =
          some (Truth.polarised negated ((value.bind parseInt64).elim .unknown fun n =>
            .ofBool (op.test (.finite n) k.value))) ∧
        (buildCheckedIntFilter mapper op (.value (.number k)) (.expression .int [.var name])
            negated).map (·.truth engine row) =
          some (Truth.polarised negated ((value.bind parseInt64).elim .unknown fun n =>
            .ofBool (op.test k.value (.finite n)))) := by
  refine ⟨?_, ?_⟩
  · intro s hs
    have hexpr : (SQL.column column.name).eval engine row = .text s := hs
    refine ⟨truth_spellsInt64_text hexpr, ?_⟩
    rw [buildStringToInt, hdialect, Option.map_some, Option.map_some, eval_stringToInt hexpr]
  · intro value hstored op k hk negated
    refine ⟨?_, ?_⟩
    · rw [buildCheckedIntFilter, buildCheckedIntComparison_text hcolumn hdialect htype op hk,
        Option.some_or, Option.map_some, Option.map_some, truth_withPolarity,
        truth_checkedIntComparison hstored op hk]
    · have hleft : buildCheckedIntComparison mapper op (.value (.number k))
          (.expression .int [.var name]) = none := rfl
      have hmirrored : ∀ n : Int, op.mirrored.test (.finite n) k.value = op.test k.value (.finite n) :=
        fun n => test_mirrored op k.value (.finite n)
      rw [buildCheckedIntFilter, hleft,
        buildCheckedIntComparison_text hcolumn hdialect htype op.mirrored hk, Option.none_or,
        Option.map_some, Option.map_some, truth_withPolarity,
        truth_checkedIntComparison hstored op.mirrored hk]
      simp only [hmirrored]

/-- The least int64 with leading zeros, which is below zero, and no int64 below it. -/
theorem checkedInt_decides_least :
    let engine : Engine := ⟨.postgresql, fun _ _ _ => .unknown, fun _ => .null⟩
    let column : Column := ⟨"code", some .postgresql, .string, "PgText", by decide⟩
    let mapper : Mapper := fun name => if name = "request.resource.attr.code" then some column else none
    let least : String → Scalar := fun _ => .text "-009223372036854775808"
    let below : String → Scalar := fun _ => .text "-009223372036854775809"
    let conversion : Operand FiniteDouble := .expression .int [.var "request.resource.attr.code"]
    (buildStringToInt column (.column "code")).map (·.eval engine least) =
        some (.integer (-9223372036854775808)) ∧
      (buildCheckedIntFilter mapper .lt conversion (.value (.number 0)) false).map
        (·.truth engine least) = some .yes ∧
      (buildCheckedIntFilter mapper .lt (.value (.number 0)) conversion true).map
        (·.truth engine below) = some .unknown := by
  intro engine column mapper least below conversion
  have hzero : |(0 : FiniteDouble).value.toRat| < exactDoubleIntegerBound := by decide
  refine ⟨?_, ?_, ?_⟩
  · rw [((checkedInt_decides engine least mapper "request.resource.attr.code" column rfl rfl
      rfl).1 _ rfl).2]
    decide
  · rw [((checkedInt_decides engine least mapper "request.resource.attr.code" column rfl rfl
      rfl).2 (some "-009223372036854775808") rfl .lt 0 hzero false).1]
    decide
  · rw [((checkedInt_decides engine below mapper "request.resource.attr.code" column rfl rfl
      rfl).2 (some "-009223372036854775809") rfl .lt 0 hzero true).2]
    decide

end QueryPlanAdapters.Drizzle
