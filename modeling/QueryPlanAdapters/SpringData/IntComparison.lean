import QueryPlanAdapters.SpringData.ColumnCriteria
import QueryPlanAdapters.Cel.Int64Texts
import QueryPlanAdapters.Numeric.NearestEven

/-!
# Spring Data: `int()` of a column

The comparison is solved for the column: a double by the ends of the interval that truncates to
the right side, a text by its sign and by the length and the order of its digits. Where CEL's
`int()` is an error the predicate is UNKNOWN.
-/

namespace QueryPlanAdapters.SpringData

open Sql

/-- `int(x) op c` from the bounds `int(x) >= m` and `int(x) <= m` for an integral `m`. -/
def intBounds (op : ComparisonOperator) (c : Double) (atLeast atMost : Double → ColumnPredicate) :
    ColumnPredicate :=
  -- `c == Math.rint(c)`
  let integral := c.isInteger
  match op with
  | .gt => atLeast (c.floor.add 1)
  | .ge => atLeast c.ceil
  | .lt => atMost (c.ceil.sub 1)
  | .le => atMost c.floor
  | .eq => if integral then .and [atLeast c, atMost c] else .disjunction
  | .ne => if integral then .not (.and [atLeast c, atMost c]) else .conjunction

/-! ## Of a double -/

section Doubles

variable (d : Path)

/-- `trunc(d) >= m` -/
def atLeast (m : Double) : ColumnPredicate :=
  if Double.lt 0 m then .compareDouble .ge d m else .compareDouble .gt d (m.sub 1)

/-- `trunc(d) <= m` -/
def atMost (m : Double) : ColumnPredicate :=
  if m.lt 0 then .compareDouble .le d m else .compareDouble .lt d (m.add 1)

def int64Limit : Double := .finite (2 ^ 63)

/-- Missing, or a double that `int()` refuses. -/
def outsideInt64 : ColumnPredicate :=
  .or [.isNull d, .compareDouble .le d int64Limit.neg, .compareDouble .ge d int64Limit]

end Doubles

/-! ## Of a text -/

/-- The comparisons of magnitudes that are built. -/
inductive MagnitudeOperator where
  | ge | gt | le

def MagnitudeOperator.comparison : MagnitudeOperator → ComparisonOperator
  | ge => .ge
  | gt => .gt
  | le => .le

namespace IntText

def int64Max : String := "9223372036854775807"

def int64MinMagnitude : String := "9223372036854775808"

def spelled (magnitude : Double) : String :=
  let m := magnitude.trunc.natAbs
  if m = 0 then "" else String.ofList (Nat.toDigits 10 m)

variable (s : Path)

def negative : ColumnPredicate :=
  .like (.path s) "-%"

/-- The text without its sign. -/
def body : TextExpression :=
  .selectCase (.or [.like (.path s) "+%", .like (.path s) "-%"]) (.substring (.path s) 2) (.path s)

/-- The digits of the magnitude, without leading zeros. -/
def digits : TextExpression :=
  .trimLeading '0' (body s)

/-- `|value| op k` for a magnitude `k` spelled without leading zeros. -/
def magnitude (op : MagnitudeOperator) (k : String) : ColumnPredicate :=
  let longer := match op with
    | .ge | .gt => ColumnPredicate.compareLength .gt (digits s) k.length
    | .le => .compareLength .lt (digits s) k.length
  .or [longer, .and [.compareLength .eq (digits s) k.length,
    .compareText op.comparison (digits s) k]]

/-- `int(s) >= m` -/
def atLeast (m : Double) : ColumnPredicate :=
  if m.le 0 then .or [.not (negative s), magnitude s .le (spelled m)]
  else .and [.not (negative s), magnitude s .ge (spelled m)]

/-- `int(s) <= m` -/
def atMost (m : Double) : ColumnPredicate :=
  if Double.le 0 m then .or [negative s, magnitude s .le (spelled m)]
  else .and [negative s, magnitude s .ge (spelled m)]

/-- The text without its sign and without its digits. -/
def rest : TextExpression :=
  "0123456789".toList.foldl (fun rest digit => .replace rest digit.toString "") (body s)

/-- Missing, no integer in base 10, or one outside int64. -/
def unparsable : ColumnPredicate :=
  let malformed := ColumnPredicate.or [.compareText .eq (body s) "", .compareText .ne (rest s) ""]
  let outOfRange := ColumnPredicate.or
    [.and [.not (negative s), magnitude s .gt int64Max],
      .and [negative s, magnitude s .gt int64MinMagnitude]]
  .or [.isNull s, malformed, outOfRange]

end IntText

/-! ## The comparison -/

/-- `2^53` -/
def exactIntegerLimit : ℚ := 2 ^ 53

/-- `doubleText` is Java's text of a double. -/
def intOfFieldComparison {schema : Schema} (doubleText : Double → String)
    (op : ComparisonOperator) (variableName : String) (c : Double) (scope : Scope schema) :
    Except Refusal ColumnPredicate := do
  let path ← scope.path variableName
  if path.javaType ≠ .double ∧ path.javaType ≠ .integer ∧ path.javaType ≠ .string then
    .error (.unsupported ("Unexpected int() expression in leaf operand of " ++ op.name))
  else if !c.isFinite || exactIntegerLimit ≤ |c.toRat| then
    .error (.unsupported ("int() compared with " ++ doubleText c ++ " is not supported: the" ++
      " bound is not an exactly representable integer"))
  else if path.javaType = .string then
    return (intBounds op c (IntText.atLeast path) (IntText.atMost path)).baseUnlessUnknown
      (IntText.unparsable path)
  else
    return (intBounds op c (atLeast path) (atMost path)).baseUnlessUnknown (outsideInt64 path)

/-! ## The bounds -/

section Bounds

variable {engine : Engine} {row : Path → SqlValue}

variable {c : Double}

theorem hasValue_one : (1 : Double).HasValue (1 : Int) := ⟨rfl, rfl⟩

theorem hasValue_floor (hc : c.isFinite = true) : c.floor.HasValue ⌊c.toRat⌋ := by
  cases c with
  | finite q => exact ⟨rfl, rfl⟩
  | negZero => exact ⟨rfl, (congrArg Int.cast Int.floor_zero).symm⟩
  | _ => cases hc

theorem hasValue_ceil (hc : c.isFinite = true) : c.ceil.HasValue ⌈c.toRat⌉ := by
  cases c with
  | finite q =>
      rw [Double.ceil, Double.toRat]
      split
      next hzero =>
        rw [hzero.2]
        exact ⟨rfl, rfl⟩
      next => exact ⟨rfl, rfl⟩
  | negZero => exact ⟨rfl, (congrArg Int.cast Int.ceil_zero).symm⟩
  | _ => cases hc

/-- What the bounds say of an integer is what the comparison says. -/
theorem truth_intBounds (hc : c.isFinite = true) (hsmall : |c.toRat| < 2 ^ 53)
    {atLeast atMost : Double → ColumnPredicate} {n : Int}
    (hatLeast : ∀ m (k : Int), m.HasValue k → -2 ^ 53 < k → k ≤ 2 ^ 53 →
      (atLeast m).truth engine row = .ofBool (decide (k ≤ n)))
    (hatMost : ∀ m (k : Int), m.HasValue k → -2 ^ 53 ≤ k → k < 2 ^ 53 →
      (atMost m).truth engine row = .ofBool (decide (n ≤ k)))
    (op : ComparisonOperator) :
    (intBounds op c atLeast atMost).truth engine row = .ofBool (op.test (.finite n) c) := by
  have hn : (Double.finite n).isFinite = true := rfl
  obtain ⟨hlow, hhigh⟩ := abs_lt.mp hsmall
  have hfloorLow : -2 ^ 53 ≤ ⌊c.toRat⌋ := Int.le_floor.mpr (by push_cast; exact hlow.le)
  have hfloorHigh : ⌊c.toRat⌋ < 2 ^ 53 := Int.floor_lt.mpr (by push_cast; exact hhigh)
  have hceilLow : -2 ^ 53 < ⌈c.toRat⌉ := Int.lt_ceil.mpr (by push_cast; exact hlow)
  have hceilHigh : ⌈c.toRat⌉ ≤ 2 ^ 53 := Int.ceil_le.mpr (by push_cast; exact hhigh.le)
  have hboth : c.isInteger = true →
      (ColumnPredicate.and [atLeast c, atMost c]).truth engine row =
        .ofBool (decide ((n : ℚ) = c.toRat)) := by
    intro hinteger
    have hrat := Double.toRat_of_isInteger hinteger
    have hvalue : c.HasValue c.trunc := ⟨hc, hrat⟩
    rw [hrat] at hlow hhigh
    have hlow' : -2 ^ 53 < c.trunc := by exact_mod_cast hlow
    have hhigh' : c.trunc < 2 ^ 53 := by exact_mod_cast hhigh
    rw [truth_columnAnd, List.map_cons, List.map_cons, List.map_nil,
      hatLeast c _ hvalue hlow' hhigh'.le, hatMost c _ hvalue hlow'.le hhigh', Truth.all_cons,
      Truth.all_cons, Truth.all_nil, Truth.and_yes, Truth.and_ofBool, ← Bool.decide_and, hrat]
    congr 1
    rw [decide_eq_decide, Int.cast_inj]
    omega
  have hfraction : c.isInteger = false → decide ((n : ℚ) = c.toRat) = false := by
    intro hnot
    apply decide_eq_false
    intro heq
    rw [Double.isInteger, hc, Bool.true_and, ← heq] at hnot
    exact of_decide_eq_false hnot rfl
  rw [test_of_isFinite op hn hc]
  cases op with
  | gt =>
      have hvalue := Double.hasValue_add (hasValue_floor hc) hasValue_one (by omega)
      rw [intBounds, hatLeast _ _ hvalue (by omega) (by omega), ComparisonOperator.test,
        Double.lt_finite]
      congr 1
      rw [decide_eq_decide]
      exact Int.floor_lt
  | ge =>
      rw [intBounds, hatLeast _ _ (hasValue_ceil hc) hceilLow hceilHigh, ComparisonOperator.test,
        Double.le_finite]
      congr 1
      rw [decide_eq_decide]
      exact Int.ceil_le
  | lt =>
      have hvalue := Double.hasValue_sub (hasValue_ceil hc) hasValue_one (by omega)
      rw [intBounds, hatMost _ _ hvalue (by omega) (by omega), ComparisonOperator.test,
        Double.lt_finite]
      congr 1
      rw [decide_eq_decide, Int.le_sub_one_iff]
      exact Int.lt_ceil
  | le =>
      rw [intBounds, hatMost _ _ (hasValue_floor hc) hfloorLow hfloorHigh, ComparisonOperator.test,
        Double.le_finite]
      congr 1
      rw [decide_eq_decide]
      exact Int.le_floor
  | eq =>
      rw [intBounds, ComparisonOperator.test, Double.eq_finite]
      cases hinteger : c.isInteger with
      | true => exact hboth hinteger
      | false =>
          have hnone := hfraction hinteger
          exact (congrArg Truth.ofBool hnone).symm
  | ne =>
      rw [intBounds, ComparisonOperator.test, Double.eq_finite]
      cases hinteger : c.isInteger with
      | true =>
          rw [if_pos rfl, truth_columnNot, hboth hinteger]
          exact Truth.not_ofBool _
      | false =>
          have hnone := hfraction hinteger
          exact (congrArg (fun b => Truth.ofBool (!b)) hnone).symm

/-! ### Of a double -/

variable {d : Path} {v : Double}

theorem truth_compareDouble_number (h : row d = .number v) (op : ComparisonOperator)
    (bound : Double) :
    (ColumnPredicate.compareDouble op d bound).truth engine row = .ofBool (op.test v bound) := by
  rw [truth_compareDouble, h, Engine.compare_number]

theorem truth_atLeast (h : row d = .number v) (hv : v.isFinite = true) {m : Double} {k : Int}
    (hm : m.HasValue k) (hlow : -2 ^ 53 < k) (hhigh : k ≤ 2 ^ 53) :
    (atLeast d m).truth engine row = .ofBool (decide (k ≤ v.trunc)) := by
  have hzero : (0 : Double).isFinite = true := rfl
  have hpositive : Double.lt 0 m = decide (0 < k) := by
    rw [Double.lt_of_isFinite hzero hm.1, hm.2, decide_eq_decide]
    exact Int.cast_pos
  have htrunc := v.le_trunc_iff k
  rw [atLeast, hpositive]
  by_cases hk : 0 < k
  · rw [if_pos hk] at htrunc
    rw [decide_eq_true hk, if_pos rfl, truth_compareDouble_number h, ComparisonOperator.test,
      Double.le_of_isFinite hm.1 hv, hm.2]
    congr 1
    rw [decide_eq_decide]
    exact htrunc.symm
  · have hless := Double.hasValue_sub hm hasValue_one (by omega)
    rw [if_neg hk] at htrunc
    rw [decide_eq_false hk, if_neg Bool.false_ne_true, truth_compareDouble_number h,
      ComparisonOperator.test, Double.lt_of_isFinite hless.1 hv, hless.2]
    congr 1
    rw [decide_eq_decide, Int.cast_sub, Int.cast_one]
    exact htrunc.symm

theorem truth_atMost (h : row d = .number v) (hv : v.isFinite = true) {m : Double} {k : Int}
    (hm : m.HasValue k) (hlow : -2 ^ 53 ≤ k) (hhigh : k < 2 ^ 53) :
    (atMost d m).truth engine row = .ofBool (decide (v.trunc ≤ k)) := by
  have hzero : (0 : Double).isFinite = true := rfl
  have hnegative : m.lt 0 = decide (k < 0) := by
    rw [Double.lt_of_isFinite hm.1 hzero, hm.2, decide_eq_decide]
    exact Int.cast_lt_zero
  have htrunc := v.trunc_le_iff k
  rw [atMost, hnegative]
  by_cases hk : k < 0
  · rw [if_pos hk] at htrunc
    rw [decide_eq_true hk, if_pos rfl, truth_compareDouble_number h, ComparisonOperator.test,
      Double.le_of_isFinite hv hm.1, hm.2]
    congr 1
    rw [decide_eq_decide]
    exact htrunc.symm
  · have hmore := Double.hasValue_add hm hasValue_one (by omega)
    rw [if_neg hk] at htrunc
    rw [decide_eq_false hk, if_neg Bool.false_ne_true, truth_compareDouble_number h,
      ComparisonOperator.test, Double.lt_of_isFinite hv hmore.1, hmore.2]
    congr 1
    rw [decide_eq_decide, Int.cast_add, Int.cast_one]
    exact htrunc.symm

/-- The doubles that `int()` refuses. -/
theorem truth_outsideInt64 (h : row d = .number v) (hv : v.isFinite = true) :
    (outsideInt64 d).truth engine row =
      .ofBool (decide (v.toRat ≤ -2 ^ 63 ∨ 2 ^ 63 ≤ v.toRat)) := by
  have hlimit : int64Limit.HasValue (2 ^ 63) := ⟨rfl, rfl⟩
  have hneg := hlimit.neg
  rw [outsideInt64, truth_columnOr, List.map_cons, List.map_cons, List.map_cons, List.map_nil,
    truth_columnNull, h, truth_compareDouble_number h, truth_compareDouble_number h,
    ComparisonOperator.test, ComparisonOperator.test, Double.le_of_isFinite hv hneg.1,
    Double.le_of_isFinite hlimit.1 hv, hlimit.2, hneg.2, Bool.decide_or]
  simp only [Truth.any_cons, Truth.any_nil, Truth.or_ofBool, Truth.or_no, SqlValue.isNull,
    Bool.false_or]

/-- A double column: UNKNOWN outside int64, and else by the number without its fraction. -/
theorem truth_doubleComparison (h : row d = .number v) (hv : v.isFinite = true)
    (hc : c.isFinite = true) (hsmall : |c.toRat| < 2 ^ 53) (op : ComparisonOperator) :
    ((intBounds op c (atLeast d) (atMost d)).baseUnlessUnknown (outsideInt64 d)).truth engine row =
      if v.toRat ≤ -2 ^ 63 ∨ 2 ^ 63 ≤ v.toRat then .unknown
      else .ofBool (op.test (.finite v.trunc) c) := by
  rw [truth_columnUnlessUnknown (truth_outsideInt64 h hv),
    truth_intBounds hc hsmall (fun _ _ hm => truth_atLeast h hv hm)
      (fun _ _ hm => truth_atMost h hv hm)]
  simp only [decide_eq_true_iff]

/-! ### Of a text -/

section Texts

open IntText

variable {path : Path} {cs : List Char}

variable {k : Int} {m : Double}

/-- A sign is found by the pattern of the texts that begin with it. -/
theorem truth_likeSign (h : row path = chars cs) {pattern : String} {sign : Char}
    (hpattern : pattern.toList = [sign, '%']) (hplain : sign ≠ '\\' ∧ sign ≠ '%' ∧ sign ≠ '_') :
    (ColumnPredicate.like (.path path) pattern).truth engine row =
      .ofBool (decide (cs.head? = some sign)) := by
  have heq : pattern = String.ofList [sign] ++ "%" := by
    rw [← String.toList_inj, hpattern, String.toList_append, String.toList_ofList]
    rfl
  have hneedle : ∀ c ∈ (String.ofList [sign]).toList, c ≠ '\\' ∧ c ≠ '%' ∧ c ≠ '_' := by
    rw [String.toList_ofList]
    exact List.forall_mem_singleton.mpr hplain
  have hpath : (TextExpression.path path).eval engine row = chars cs := h
  rw [truth_like hpath, heq, likeMatches_plain_run _ hneedle, startsWithText,
    String.toList_ofList, String.toList_ofList]
  congr 1
  cases cs with
  | nil => rfl
  | cons c cs =>
      rw [List.isPrefixOf_cons_cons, List.isPrefixOf_nil_left, Bool.and_true, List.head?_cons,
        Bool.eq_iff_iff, beq_iff_eq, decide_eq_true_iff, Option.some_inj, eq_comm]

theorem truth_likeMinus (h : row path = chars cs) :
    (ColumnPredicate.like (.path path) "-%").truth engine row =
      .ofBool (decide (cs.head? = some '-')) :=
  truth_likeSign h rfl (by decide)

theorem truth_negative (h : row path = chars cs) :
    (negative path).truth engine row = .ofBool (takeSign cs).1 := by
  rw [takeSign_fst, negative, truth_likeMinus h]

theorem eval_body (h : row path = chars cs) :
    (body path).eval engine row = chars (takeSign cs).2 := by
  have hplus : (ColumnPredicate.like (.path path) "+%").truth engine row =
      .ofBool (decide (cs.head? = some '+')) := truth_likeSign h rfl (by decide)
  rw [body, eval_selectCase, truth_columnOr, List.map_cons, List.map_cons, List.map_nil, hplus,
    truth_likeMinus h, Truth.any_cons, Truth.any_cons, Truth.any_nil, Truth.or_no, Truth.or_ofBool,
    eval_substring, eval_columnPath, h, onText_chars]
  cases cs with
  | nil => rfl
  | cons c cs =>
      rw [takeSign_cons, List.head?_cons]
      by_cases hminus : c = '-'
      · simp [hminus]
      · by_cases hplus : c = '+'
        · simp [hplus]
        · simp [hminus, hplus]

variable (engine) in
theorem eval_digits (h : row path = chars cs) :
    (digits path).eval engine row = chars ((takeSign cs).2.dropWhile (· = '0')) := by
  rw [digits, eval_trimLeading, eval_body h, onText_chars]

/-- What is left of a text once the characters of a list are deleted in turn. -/
theorem eval_deletions {text : TextExpression} {cs : List Char}
    (h : text.eval engine row = chars cs) (characters : List Char) :
    (characters.foldl (fun rest digit => TextExpression.replace rest digit.toString "")
      text).eval engine row = chars (cs.filter (· ∉ characters)) := by
  induction characters generalizing text cs with
  | nil =>
      have hall : ∀ c ∈ cs, decide (c ∉ ([] : List Char)) = true :=
        fun c _ => decide_eq_true List.not_mem_nil
      rw [List.filter_eq_self.mpr hall]
      exact h
  | cons character characters ih =>
      have hdeleted : (TextExpression.replace text character.toString "").eval engine row =
          chars (cs.filter (· ≠ character)) := by
        have hone : character.toString.toList = [character] := by simp [Char.toString]
        rw [eval_replace, h, onText_chars, hone, String.toList_empty, replaceOccurrences_drop]
      rw [List.foldl_cons, ih hdeleted, List.filter_filter]
      congr 1
      apply List.filter_congr
      intro c _
      simp only [List.mem_cons, not_or, Bool.decide_and, ne_eq]
      exact Bool.and_comm _ _

theorem eval_rest (h : row path = chars cs) :
    (rest path).eval engine row =
      chars ((takeSign cs).2.filter (· ∉ "0123456789".toList)) :=
  eval_deletions (eval_body h) _

/-- What a comparison of magnitudes asks of the significant digits. -/
def magnitudeHolds (op : MagnitudeOperator) (ds ks : List Char) : Bool :=
  (match op with
    | .ge | .gt => decide (ks.length < ds.length)
    | .le => decide (ds.length < ks.length)) ||
  (decide (ds.length = ks.length) &&
    op.comparison.test (.finite (compareCodePoints ds ks)) 0)

theorem truth_magnitude (h : row path = chars cs) (op : MagnitudeOperator) (k : String) :
    (magnitude path op k).truth engine row =
      .ofBool (magnitudeHolds op ((takeSign cs).2.dropWhile (· = '0')) k.toList) := by
  have hdigits := eval_digits engine h
  have hsame : (ColumnPredicate.compareLength .eq (digits path) k.length).truth engine row =
      .ofBool (decide (((takeSign cs).2.dropWhile (· = '0')).length = k.toList.length)) := by
    rw [truth_compareLength hdigits, ComparisonOperator.test, Double.eq_finite, String.length_toList]
    simp only [Nat.cast_inj]
  have hlonger : (match op with
      | .ge | .gt => ColumnPredicate.compareLength .gt (digits path) k.length
      | .le => .compareLength .lt (digits path) k.length).truth engine row =
        .ofBool (match op with
          | .ge | .gt => decide (k.toList.length < ((takeSign cs).2.dropWhile (· = '0')).length)
          | .le => decide (((takeSign cs).2.dropWhile (· = '0')).length < k.toList.length)) := by
    rw [String.length_toList]
    cases op with
    | ge | gt | le =>
        rw [truth_compareLength hdigits, ComparisonOperator.test, Double.lt_finite]
        simp only [Nat.cast_lt]
  rw [magnitude.eq_def, truth_columnOr, List.map_cons, List.map_cons, List.map_nil, hlonger,
    truth_columnAnd, List.map_cons, List.map_cons, List.map_nil, hsame,
    truth_compareChars hdigits, Truth.all_cons, Truth.all_cons, Truth.all_nil, Truth.and_yes,
    Truth.and_ofBool, Truth.any_cons, Truth.any_cons, Truth.any_nil, Truth.or_no, Truth.or_ofBool]
  rfl

/-- Of digits, it asks what the comparison of the magnitudes does. -/
theorem magnitudeHolds_eq (op : MagnitudeOperator) {ds ks : List Char}
    (hds : ds.all isDigit = true) (hks : ks.all isDigit = true) (hfirst : ks.head? ≠ some '0') :
    magnitudeHolds op (ds.dropWhile (· = '0')) ks =
      op.comparison.test (.finite (decimalValue ds : ℕ)) (.finite (decimalValue ks : ℕ)) := by
  have hsignificant : (ds.dropWhile (· = '0')).all isDigit = true := by
    rw [List.all_eq_true] at hds ⊢
    intro c hc
    exact hds c ((List.dropWhile_sublist _).subset hc)
  have horder := orderSign_magnitudes hsignificant hks (head_dropZeros ds) hfirst
  have hless := orderSign_lt_zero_iff (a := decimalValue (ds.dropWhile (· = '0')))
    (b := decimalValue ks)
  have hmore := zero_lt_orderSign_iff (a := decimalValue (ds.dropWhile (· = '0')))
    (b := decimalValue ks)
  have hzero : (0 : Double) = .finite 0 := rfl
  rw [horder, decimalValue_dropZeros] at hless hmore
  generalize ds.dropWhile (· = '0') = rest at hless hmore
  rw [magnitudeHolds.eq_def, hzero, Bool.eq_iff_iff]
  cases op with
  | ge =>
      simp only [MagnitudeOperator.comparison, ComparisonOperator.test, Double.le_finite,
        Bool.or_eq_true, Bool.and_eq_true, decide_eq_true_iff, Nat.cast_le, Int.cast_nonneg_iff]
      split_ifs at hless <;> omega
  | gt =>
      simp only [MagnitudeOperator.comparison, ComparisonOperator.test, Double.lt_finite,
        Bool.or_eq_true, Bool.and_eq_true, decide_eq_true_iff, Nat.cast_lt, Int.cast_pos]
      split_ifs at hmore <;> omega
  | le =>
      simp only [MagnitudeOperator.comparison, ComparisonOperator.test, Double.le_finite,
        Bool.or_eq_true, Bool.and_eq_true, decide_eq_true_iff, Nat.cast_le, Int.cast_nonpos]
      split_ifs at hmore <;> omega

/-- The digits of an integral magnitude, without leading zeros. -/
theorem spelled_digits (hm : m.HasValue k) :
    (spelled m).toList.all isDigit = true ∧ (spelled m).toList.head? ≠ some '0' ∧
      decimalValue (spelled m).toList = k.natAbs := by
  rw [spelled, Double.trunc_of_hasValue hm]
  by_cases hzero : k.natAbs = 0
  · rw [if_pos hzero, hzero]
    decide
  · rw [if_neg hzero, String.toList_ofList]
    exact ⟨isDigit_toDigits _, head_toDigits (Nat.pos_of_ne_zero hzero), decimalValue_toDigits _⟩

/-- The integer that a text of a sign and digits spells. -/
def signedValue (cs : List Char) : Int :=
  if (takeSign cs).1 then -(decimalValue (takeSign cs).2 : Int) else decimalValue (takeSign cs).2

theorem truth_textAtLeast (h : row path = chars cs) (hdigits : (takeSign cs).2.all isDigit = true)
    (hm : m.HasValue k) :
    (IntText.atLeast path m).truth engine row = .ofBool (decide (k ≤ signedValue cs)) := by
  obtain ⟨hks, hfirst, hvalue⟩ := spelled_digits hm
  have hzero : (0 : Double).isFinite = true := rfl
  have hnonpos : m.le 0 = decide (k ≤ 0) := by
    rw [Double.le_of_isFinite hm.1 hzero, hm.2, decide_eq_decide]
    exact Int.cast_nonpos
  rw [IntText.atLeast, hnonpos, signedValue]
  by_cases hk : k ≤ 0
  · rw [decide_eq_true hk, if_pos rfl, truth_columnOr, List.map_cons, List.map_cons, List.map_nil,
      truth_columnNot, truth_negative h, truth_magnitude h, magnitudeHolds_eq .le hdigits hks hfirst,
      Truth.any_cons, Truth.any_cons, Truth.any_nil, Truth.or_no, Truth.not_ofBool, Truth.or_ofBool,
      hvalue, MagnitudeOperator.comparison, ComparisonOperator.test, Double.le_finite]
    congr 1
    rw [Bool.eq_iff_iff, Bool.or_eq_true, decide_eq_true_iff, decide_eq_true_iff, Nat.cast_le]
    cases (takeSign cs).1 with
    | false =>
        rw [if_neg Bool.false_ne_true]
        exact iff_of_true (.inl rfl) (by omega)
    | true =>
        have hsigned : ¬ (!true) = true := Bool.false_ne_true
        rw [if_pos rfl, or_iff_right hsigned]
        omega
  · rw [decide_eq_false hk, if_neg Bool.false_ne_true, truth_columnAnd, List.map_cons,
      List.map_cons, List.map_nil, truth_columnNot, truth_negative h, truth_magnitude h,
      magnitudeHolds_eq .ge hdigits hks hfirst, Truth.all_cons, Truth.all_cons, Truth.all_nil,
      Truth.and_yes, Truth.not_ofBool, Truth.and_ofBool, hvalue, MagnitudeOperator.comparison,
      ComparisonOperator.test, Double.le_finite]
    congr 1
    rw [Bool.eq_iff_iff, Bool.and_eq_true, decide_eq_true_iff, decide_eq_true_iff, Nat.cast_le]
    cases (takeSign cs).1 with
    | false =>
        rw [if_neg Bool.false_ne_true, and_iff_right (by rfl)]
        omega
    | true =>
        rw [if_pos rfl]
        exact iff_of_false (fun hboth => Bool.false_ne_true hboth.1) (by omega)

theorem truth_textAtMost (h : row path = chars cs) (hdigits : (takeSign cs).2.all isDigit = true)
    (hm : m.HasValue k) :
    (IntText.atMost path m).truth engine row = .ofBool (decide (signedValue cs ≤ k)) := by
  obtain ⟨hks, hfirst, hvalue⟩ := spelled_digits hm
  have hzero : (0 : Double).isFinite = true := rfl
  have hnonneg : Double.le 0 m = decide (0 ≤ k) := by
    rw [Double.le_of_isFinite hzero hm.1, hm.2, decide_eq_decide]
    exact Int.cast_nonneg_iff
  rw [IntText.atMost, hnonneg, signedValue]
  by_cases hk : 0 ≤ k
  · rw [decide_eq_true hk, if_pos rfl, truth_columnOr, List.map_cons, List.map_cons, List.map_nil,
      truth_negative h, truth_magnitude h, magnitudeHolds_eq .le hdigits hks hfirst,
      Truth.any_cons, Truth.any_cons, Truth.any_nil, Truth.or_no, Truth.or_ofBool,
      hvalue, MagnitudeOperator.comparison, ComparisonOperator.test, Double.le_finite]
    congr 1
    rw [Bool.eq_iff_iff, Bool.or_eq_true, decide_eq_true_iff, decide_eq_true_iff, Nat.cast_le]
    cases (takeSign cs).1 with
    | false =>
        rw [if_neg Bool.false_ne_true, or_iff_right Bool.false_ne_true]
        omega
    | true =>
        rw [if_pos rfl]
        exact iff_of_true (.inl rfl) (by omega)
  · rw [decide_eq_false hk, if_neg Bool.false_ne_true, truth_columnAnd, List.map_cons,
      List.map_cons, List.map_nil, truth_negative h, truth_magnitude h,
      magnitudeHolds_eq .ge hdigits hks hfirst, Truth.all_cons, Truth.all_cons, Truth.all_nil,
      Truth.and_yes, Truth.and_ofBool, hvalue, MagnitudeOperator.comparison,
      ComparisonOperator.test, Double.le_finite]
    congr 1
    rw [Bool.eq_iff_iff, Bool.and_eq_true, decide_eq_true_iff, decide_eq_true_iff, Nat.cast_le]
    cases (takeSign cs).1 with
    | false =>
        rw [if_neg Bool.false_ne_true]
        exact iff_of_false (fun hboth => Bool.false_ne_true hboth.1) (by omega)
    | true =>
        rw [if_pos rfl, and_iff_right rfl]
        omega

/-- The witness is TRUE or FALSE on every text, and FALSE on those that Go parses. -/
theorem truth_unparsable (h : row path = chars cs) :
    (unparsable path).truth engine row =
      .ofBool (decide ¬ ((takeSign cs).2 ≠ [] ∧ (takeSign cs).2.all isDigit = true ∧
        decimalValue (takeSign cs).2 ≤ decimalValue (boundDigits (takeSign cs).1))) := by
  have hmalformed : (ColumnPredicate.or [.compareText .eq (body path) "",
      .compareText .ne (rest path) ""]).truth engine row =
        .ofBool (decide ¬ ((takeSign cs).2 ≠ [] ∧ (takeSign cs).2.all isDigit = true)) := by
    have hempty : (ColumnPredicate.compareText .eq (body path) "").truth engine row =
        .ofBool (decide ((takeSign cs).2 = [])) := truth_equalChars (eval_body h) ""
    have hrest : (ColumnPredicate.compareText .eq (rest path) "").truth engine row =
        .ofBool (decide ((takeSign cs).2.filter (· ∉ "0123456789".toList) = [])) :=
      truth_equalChars (eval_rest h) ""
    have hnonempty : (ColumnPredicate.compareText .ne (rest path) "").truth engine row =
        ((ColumnPredicate.compareText .eq (rest path) "").truth engine row).not := by
      rw [truth_compareChars (eval_rest h), truth_compareChars (eval_rest h), Truth.not_ofBool]
      rfl
    rw [truth_columnOr, List.map_cons, List.map_cons, List.map_nil, hempty, hnonempty, hrest,
      Truth.not_ofBool, Truth.any_cons, Truth.any_cons, Truth.any_nil, Truth.or_no,
      Truth.or_ofBool]
    congr 1
    rw [Bool.eq_iff_iff, Bool.or_eq_true, Bool.not_eq_true', decide_eq_true_iff,
      decide_eq_false_iff_not, decide_eq_true_iff, not_and_or, not_not,
      ← length_nonDigits_eq_zero_iff, List.length_eq_zero_iff]
  have hrange : (ColumnPredicate.or [.and [.not (negative path), magnitude path .gt IntText.int64Max],
      .and [negative path, magnitude path .gt int64MinMagnitude]]).truth engine row =
        .ofBool (magnitudeHolds .gt ((takeSign cs).2.dropWhile (· = '0'))
          (boundDigits (takeSign cs).1)) := by
    rw [truth_columnOr, List.map_cons, List.map_cons, List.map_nil, truth_columnAnd, truth_columnAnd,
      List.map_cons, List.map_cons, List.map_cons, List.map_cons, List.map_nil, truth_columnNot,
      truth_negative h, truth_magnitude h, truth_magnitude h, Truth.not_ofBool]
    simp only [Truth.all_cons, Truth.all_nil, Truth.and_yes, Truth.any_cons, Truth.any_nil,
      Truth.or_no, Truth.and_ofBool, Truth.or_ofBool]
    congr 1
    cases (takeSign cs).1 with
    | false => exact (Bool.or_false _).trans (Bool.true_and _)
    | true => exact (Bool.false_or _).trans (Bool.true_and _)
  have hpresent : (ColumnPredicate.isNull path).truth engine row = .no := by
    rw [truth_columnNull, h]
    rfl
  obtain ⟨hbound, hlength, hvalue⟩ := boundDigits_spec (takeSign cs).1
  have hfirst : (boundDigits (takeSign cs).1).head? ≠ some '0' := by
    cases (takeSign cs).1 <;> decide
  rw [unparsable, truth_columnOr, List.map_cons, List.map_cons, List.map_cons, List.map_nil,
    hpresent, hmalformed, hrange, Truth.any_cons, Truth.any_cons, Truth.any_cons, Truth.any_nil,
    Truth.or_no, Truth.or_ofBool]
  by_cases hdigits : (takeSign cs).2.all isDigit = true
  · rw [magnitudeHolds_eq .gt hdigits hbound hfirst, MagnitudeOperator.comparison,
      ComparisonOperator.test, Double.lt_finite]
    show Truth.ofBool _ = _
    congr 1
    rw [Bool.eq_iff_iff, Bool.or_eq_true, decide_eq_true_iff, decide_eq_true_iff,
      decide_eq_true_iff, Nat.cast_lt, ← and_assoc, not_and_or (a := _ ∧ _), not_le]
  · have hnot : ¬ ((takeSign cs).2 ≠ [] ∧ (takeSign cs).2.all isDigit = true) :=
      fun hboth => hdigits hboth.2
    have hinvalid : ¬ ((takeSign cs).2 ≠ [] ∧ (takeSign cs).2.all isDigit = true ∧
        decimalValue (takeSign cs).2 ≤ decimalValue (boundDigits (takeSign cs).1)) :=
      fun hall => hnot ⟨hall.1, hall.2.1⟩
    rw [decide_eq_true hnot, decide_eq_true hinvalid]
    rfl

/-- A text column: UNKNOWN where Go parses no int64, and else by the integer it parses. -/
theorem truth_textComparison {text : String} (h : row path = .text text) {c : Double}
    (hc : c.isFinite = true) (hsmall : |c.toRat| < 2 ^ 53) (op : ComparisonOperator) :
    ((intBounds op c (IntText.atLeast path) (IntText.atMost path)).baseUnlessUnknown
      (unparsable path)).truth engine row =
        (parseInt64 text).elim .unknown fun n => .ofBool (op.test (.finite n) c) := by
  rw [text_eq_chars] at h
  rw [truth_columnUnlessUnknown (truth_unparsable h), parseInt64_eq]
  by_cases hparses : (takeSign text.toList).2 ≠ [] ∧ (takeSign text.toList).2.all isDigit = true ∧
      decimalValue (takeSign text.toList).2 ≤ decimalValue (boundDigits (takeSign text.toList).1)
  · rw [if_pos hparses, decide_eq_false (not_not.mpr hparses), if_neg Bool.false_ne_true,
      truth_intBounds hc hsmall (fun _ _ hm _ _ => truth_textAtLeast h hparses.2.1 hm)
        (fun _ _ hm _ _ => truth_textAtMost h hparses.2.1 hm)]
    rfl
  · rw [if_neg hparses, decide_eq_true hparses, if_pos rfl]
    rfl

end Texts

/-- A missing column is UNKNOWN, whatever its type. -/
theorem truth_missing {path : Path} (h : row path = .null) (base : ColumnPredicate)
    (witnesses : List ColumnPredicate) :
    (base.baseUnlessUnknown (.or (.isNull path :: witnesses))).truth engine row = .unknown := by
  have hwitness : (ColumnPredicate.or (.isNull path :: witnesses)).truth engine row =
      .ofBool true := by
    rw [truth_columnOr, List.map_cons, truth_columnNull, h, Truth.any_cons]
    exact Truth.yes_or _
  rw [truth_columnUnlessUnknown hwitness, if_pos rfl]

end Bounds

/-! ## Every comparison -/

/-- `int()` of a column compared with a constant of smaller magnitude than `2 ^ 53`, a fraction or
not: on a double column UNKNOWN exactly where it is missing or outside int64, and on a text column
where it is missing or Go parses no int64; elsewhere what the comparison is of the whole part, and
of the integer that is parsed. -/
theorem intOfFieldComparison_decides {schema : Schema} (doubleText : Double → String)
    (engine : Engine) (scope : Scope schema) (variableName : String) (path : Path)
    (hpath : scope.path variableName = .ok path) (row : Path → SqlValue) (op : ComparisonOperator)
    (c : Double) (hc : c.isFinite = true) (hsmall : |c.toRat| < 2 ^ 53) :
    (path.javaType = .double ∨ path.javaType = .integer →
      ∀ value : Option Double, (∀ v ∈ value, v.isFinite = true) →
        row path = value.elim .null .number →
        (intOfFieldComparison doubleText op variableName c scope).map (·.truth engine row) =
          .ok (value.elim .unknown fun v =>
            if v.toRat ≤ -2 ^ 63 ∨ 2 ^ 63 ≤ v.toRat then .unknown
            else .ofBool (op.test (.finite v.trunc) c))) ∧
    (path.javaType = .string →
      ∀ value : Option String, row path = value.elim .null .text →
        (intOfFieldComparison doubleText op variableName c scope).map (·.truth engine row) =
          .ok ((value.bind parseInt64).elim .unknown fun n =>
            .ofBool (op.test (.finite n) c))) := by
  have hrefused : (!c.isFinite || decide (exactIntegerLimit ≤ |c.toRat|)) = false := by
    rw [hc, Bool.not_true, Bool.false_or, decide_eq_false_iff_not, exactIntegerLimit, not_le]
    exact hsmall
  constructor
  · intro htype value hfinite hrow
    have hcomparison : intOfFieldComparison doubleText op variableName c scope =
        .ok ((intBounds op c (atLeast path) (atMost path)).baseUnlessUnknown
          (outsideInt64 path)) := by
      refine Except.bind_eq_ok_iff.mpr ⟨path, hpath, ?_⟩
      obtain htype | htype := htype
      · simp only [htype, hrefused]
        rfl
      · simp only [htype, hrefused]
        rfl
    rw [hcomparison]
    cases value with
    | none => exact congrArg Except.ok (truth_missing hrow _ _)
    | some v => exact congrArg Except.ok (truth_doubleComparison hrow (hfinite v rfl) hc hsmall op)
  · intro htype value hrow
    have hcomparison : intOfFieldComparison doubleText op variableName c scope =
        .ok ((intBounds op c (IntText.atLeast path) (IntText.atMost path)).baseUnlessUnknown
          (IntText.unparsable path)) := by
      refine Except.bind_eq_ok_iff.mpr ⟨path, hpath, ?_⟩
      simp only [htype, hrefused]
      rfl
    rw [hcomparison]
    cases value with
    | none => exact congrArg Except.ok (truth_missing hrow _ _)
    | some text => exact congrArg Except.ok (truth_textComparison hrow hc hsmall op)

/-! ### Examples -/

/-- Accounts with an amount and a code. -/
def accounts : Schema where
  Entity := Unit
  element _ := .other "row"
  column
    | _, "amount" => some .double
    | _, "code" => some .string
    | _, _ => none
  joined _ _ := none

def accountScope : Scope accounts :=
  .root () [("R.attr.amount", .field ⟨"amount", none⟩), ("R.attr.code", .field ⟨"code", none⟩)]

/-- The amount `-1/2` and the code `-007`. -/
def accountRow (path : Path) : SqlValue :=
  if path.javaType = .double then .number (.finite (-1 / 2)) else .text "-007"

/-- `-1/2` has the whole part 0, which is at least `-1/4`, and `-007` is below zero. -/
theorem intOfFieldComparison_decides_account :
    (intOfFieldComparison (fun _ => "") .ge "R.attr.amount" (.finite (-1 / 4)) accountScope).map
        (·.truth .bare accountRow) = .ok .yes ∧
      (intOfFieldComparison (fun _ => "") .lt "R.attr.code" 0 accountScope).map
        (·.truth .bare accountRow) = .ok .yes := by
  have hquarter : |(Double.finite (-1 / 4)).toRat| < 2 ^ 53 := by decide +kernel
  have hzero : |(0 : Double).toRat| < 2 ^ 53 := by decide
  constructor
  · rw [(intOfFieldComparison_decides (fun _ => "") .bare accountScope "R.attr.amount"
      ⟨0, some "amount", .double⟩ rfl accountRow .ge _ rfl hquarter).1 (.inl rfl)
        (some (.finite (-1 / 2))) (fun v hv => by rw [← Option.some_inj.mp hv]; rfl) rfl]
    exact congrArg Except.ok (by decide +kernel)
  · rw [(intOfFieldComparison_decides (fun _ => "") .bare accountScope "R.attr.code"
      ⟨0, some "code", .string⟩ rfl accountRow .lt _ rfl hzero).2 rfl (some "-007") rfl]
    exact congrArg Except.ok (by decide)

end QueryPlanAdapters.SpringData
