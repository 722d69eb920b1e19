import QueryPlanAdapters.Go.Sending

/-!
# Go: the overloads of `+`

A sum over string literals and attributes is a concatenation in CEL as soon as one
operand is a string. The translator reads the overload off the two operands of each
`+`, where it knows a string only by a literal or a declared column: one behind a
to-one relation, or a sum already read as a concatenation, tells it nothing.
-/

namespace QueryPlanAdapters.Go

/-! ## Sums in CEL -/

/-- A sum over string literals, and attributes in a column or behind a to-one relation. -/
inductive Addition where
  | literal (s : String)
  | reference (reference : String)
  | add (left right : Addition)

/-- The values that CEL can hold for an attribute of a declared type. -/
def ValueType.sends (type : ValueType) (v : Value) : Bool :=
  match type, v with
  | .default, _ | _, .null => true
  | .bool, .bool _ => true
  | .number, .number _ => true
  | .string, .string _ | .timestamp, .string _ => true
  | _, _ => false

/-- Whether a declared type leaves it open that an attribute is a string. -/
def ValueType.maySendString (type : ValueType) : Bool :=
  type ≠ .bool && type ≠ .number

def IsStringOutcome (o : Outcome) : Prop :=
  ∃ s, o = .value (.string s)

/-- What an application may send: each attribute is missing, or has its declared type. -/
def Admits (m : Mapper) (attributes : String → Outcome) : Prop :=
  ∀ reference entry, m.resolve reference = some entry →
    ∀ v, attributes reference = .value v → entry.valueType.sends v = true

section Sums

variable [Double.Rounding]

/-- CEL's `+` over attribute values: it has no overload over two types. -/
def addOutcome : Outcome → Outcome → Outcome
  | .value (.string a), .value (.string b) => .value (.string (a ++ b))
  | .value (.number a), .value (.number b) => .value (.number (a.add b))
  | .value (.array as), .value (.array bs) => .value (.array (as ++ bs))
  | _, _ => .error

/-- A sum is a string exactly when both operands are. -/
theorem isStringOutcome_add {a b : Outcome} :
    IsStringOutcome (addOutcome a b) ↔ IsStringOutcome a ∧ IsStringOutcome b := by
  constructor
  · rintro ⟨s, h⟩
    unfold addOutcome at h
    split at h
    · exact ⟨⟨_, rfl⟩, ⟨_, rfl⟩⟩
    all_goals cases h
  · rintro ⟨⟨s, rfl⟩, ⟨t, rfl⟩⟩
    exact ⟨s ++ t, rfl⟩

namespace Addition

def node : Addition → Node
  | literal s => .value (.string s)
  | reference name => .var name
  | add left right => .expression .add [left.node, right.node]

/-- CEL's value. -/
def outcome (attributes : String → Outcome) : Addition → Outcome
  | literal s => .value (.string s)
  | reference name => attributes name
  | add left right => addOutcome (left.outcome attributes) (right.outcome attributes)

/-- Every `+` with a string operand is lowered to a concatenation, none to a numeric sum. -/
inductive Resolved (attributes : String → Outcome) : Addition → Expr → Prop
  | literal (s : String) (e : Expr) : Resolved attributes (.literal s) e
  | reference (name : String) (e : Expr) : Resolved attributes (.reference name) e
  | concat {left right : Addition} {l r : Expr} (hleft : Resolved attributes left l)
      (hright : Resolved attributes right r) : Resolved attributes (.add left right) (.concat l r)
  | numeric {left right : Addition} {l r : Expr}
      (hl : ¬ IsStringOutcome (left.outcome attributes))
      (hr : ¬ IsStringOutcome (right.outcome attributes)) (hleft : Resolved attributes left l)
      (hright : Resolved attributes right r) :
      Resolved attributes (.add left right) (.arith .add l r)

end Addition

end Sums

namespace Addition

/-! ## What the declarations say -/

section Declarations

variable (m : Mapper)

def declaredType (name : String) : ValueType :=
  (m.resolve name).elim .default Entry.valueType

/-- Whether some leaf is known to be a string. -/
def hasKnownString : Addition → Bool
  | literal _ => true
  | reference name => declaredType m name = .string
  | add left right => left.hasKnownString || right.hasKnownString

/-- A string literal, or a column declared a string that is no column of a joined row. -/
def isPlainString : Addition → Bool
  | literal _ => true
  | reference name =>
      (m.resolve name).any fun entry => entry.isColumn && entry.valueType = .string
  | add _ _ => false

/-- Whether the declarations leave it open that CEL finds a string. -/
def mayBeString : Addition → Bool
  | literal _ => true
  | reference name => (declaredType m name).maySendString
  | add left right => left.mayBeString && right.mayBeString

/-- At each `+` that may have a string operand, an operand is a plain string. -/
def everyOverloadPlain : Addition → Bool
  | literal _ | reference _ => true
  | add left right =>
      (left.isPlainString m || right.isPlainString m ||
          !(left.mayBeString m || right.mayBeString m)) &&
        left.everyOverloadPlain && right.everyOverloadPlain

end Declarations

section Strings

variable [Double.Rounding] {m : Mapper} {attributes : String → Outcome}

/-- What CEL finds to be a string may be one. -/
theorem mayBeString_of_isStringOutcome (hadmits : Admits m attributes) {t : Addition}
    (h : IsStringOutcome (t.outcome attributes)) : t.mayBeString m = true := by
  induction t with
  | literal s => rfl
  | reference name =>
      obtain ⟨s, hs⟩ := h
      rw [mayBeString, declaredType]
      cases hentry : m.resolve name with
      | none => rfl
      | some entry =>
          have hsends := hadmits name entry hentry _ hs
          rw [Option.elim_some]
          cases htype : entry.valueType <;> rw [htype] at hsends <;> first | rfl | cases hsends
  | add left right ihl ihr =>
      obtain ⟨hl, hr⟩ := isStringOutcome_add.mp h
      rw [mayBeString, ihl hl, ihr hr]
      rfl

/-- A value of a declared type, a string where that is possible. -/
def sample : ValueType → Value
  | .bool => .bool true
  | .number => .number 0
  | _ => .string "a"

def sampleAttributes (m : Mapper) (reference : String) : Outcome :=
  .value (sample (declaredType m reference))

omit [Double.Rounding] in
theorem admits_sample (m : Mapper) : Admits m (sampleAttributes m) := by
  intro reference entry hentry v hv
  have hv : sample entry.valueType = v := by
    simpa [sampleAttributes, declaredType, hentry] using hv
  rw [← hv]
  cases entry.valueType <;> rfl

/-- What may be a string is one where every attribute is a string that may be. -/
theorem isStringOutcome_sample {t : Addition} (h : t.mayBeString m = true) :
    IsStringOutcome (t.outcome (sampleAttributes m)) := by
  induction t with
  | literal s => exact ⟨s, rfl⟩
  | reference name =>
      rw [mayBeString] at h
      rw [outcome, sampleAttributes]
      cases htype : declaredType m name <;> rw [htype] at h <;>
        first | exact ⟨_, rfl⟩ | cases h
  | add left right ihl ihr =>
      rw [mayBeString, Bool.and_eq_true_iff] at h
      exact isStringOutcome_add.mpr ⟨ihl h.1, ihr h.2⟩

/-! ## What the translator makes of a sum -/

/-- A sum's value: the overload of each `+` is read off its operands. -/
inductive LoweredTo (m : Mapper) : Addition → Val → Prop
  | literal (s : String) : LoweredTo m (.literal s) (.constant (.string s))
  | column {name : String} {entry : Entry} (hentry : m.resolve name = some entry)
      (hcolumn : entry.isColumn = true) :
      LoweredTo m (.reference name) (.expr (.column (elementColumn entry.qualifier entry)))
  | hop {name : String} {entry : Entry} (hentry : m.resolve name = some entry)
      (hhop : entry.isColumn = false) (s : Scope) (aliasName : String) :
      LoweredTo m (.reference name) (.expr (.subquery .scalar s.source s.correlate none
        (some (.column (elementColumn aliasName entry)))))
  | add {left right : Addition} {l r : Val} {x y : Expr} (hleft : LoweredTo m left l)
      (hright : LoweredTo m right r) (hl : asExpr l = .ok x) (hr : asExpr r = .ok y) :
      LoweredTo m (.add left right) (.expr
        (if left.isPlainString m || right.isPlainString m then .concat x y else .arith .add x y))

section Lowered

variable {left right t : Addition} {l r v : Val}

omit [Double.Rounding] in
/-- The translator knows the plain strings, and no others. -/
theorem LoweredTo.isStringOperand (h : LoweredTo m t v) : isStringOperand v = t.isPlainString m := by
  cases h with
  | literal s => rfl
  | column hentry hcolumn =>
      rw [isPlainString, hentry, Option.any_some, hcolumn, Bool.true_and]
      rfl
  | hop hentry hhop s aliasName => simp [isPlainString, Go.isStringOperand, hentry, hhop]
  | add hleft hright hl hr =>
      rw [isPlainString]
      split <;> rfl

omit [Double.Rounding] in
theorem LoweredTo.asExpr (h : LoweredTo m t v) : ∃ e, Go.asExpr v = .ok e := by
  cases h <;> exact ⟨_, rfl⟩

omit [Double.Rounding] in
theorem LoweredTo.isTemporal (h : LoweredTo m t v) : isTemporal v = false := by
  cases h <;> rfl

/-- Two summands have no numeric reading but SQL's own sum. -/
theorem numericArith_add (hleft : LoweredTo m left l) (hright : LoweredTo m right r)
    {x y : Expr} (hl : Go.asExpr l = .ok x) (hr : Go.asExpr r = .ok y) :
    numericArith .add l r = .ok (.expr (.arith .add x y)) := by
  cases hleft <;> cases hright <;> cases hl <;> cases hr <;> rfl

/-- A `+` that is not refused has the overload that its operands show. -/
theorem addValue_lowered (hleft : LoweredTo m left l) (hright : LoweredTo m right r) :
    (addValue l r).Returns (LoweredTo m (.add left right)) := by
  obtain ⟨x, hx⟩ := hleft.asExpr
  obtain ⟨y, hy⟩ := hright.asExpr
  have hlist : ∀ values, l ≠ .constant (.array values) := by
    rintro values rfl
    cases hleft
  have hlowered := LoweredTo.add hleft hright hx hy
  rw [addValue_of_not_array r hlist, hleft.isStringOperand, hright.isStringOperand]
  split
  next hstring =>
    rw [if_pos hstring] at hlowered
    rw [hx, hy]
    exact Except.returns_ok.mpr hlowered
  next hstring =>
    rw [if_neg hstring] at hlowered
    split
    · exact Except.returns_throw _
    · rw [numericArith_add hleft hright hx hy]
      exact Except.returns_ok.mpr hlowered

/-- The translator's value of a sum. -/
theorem yields_addition {opts : Options} {now : Int} (t : Addition) (fuel s : Nat) :
    Yields ((builder opts now fuel).value t.node m) s fun v _ => LoweredTo m t v := by
  induction t generalizing fuel s with
  | literal text =>
      cases fuel with
      | zero => exact Yields.throw _
      | succ fuel => exact Yields.pure (.literal text)
  | reference name =>
      cases fuel with
      | zero => exact Yields.throw _
      | succ fuel =>
          show Yields (resolveVariable name m) s _
          rw [resolveVariable]
          cases hentry : m.resolve name with
          | none => exact yields_errorf _ _
          | some entry =>
              cases hrelation : entry.relation with
              | some rel => simp only [hrelation]; exact yields_errorf _ _
              | none =>
                  cases hscalar : entry.scalarRelation with
                  | none =>
                      simp only [hrelation, hscalar]
                      have hcolumn : entry.isColumn = true := by
                        simp [Entry.isColumn, hrelation, hscalar]
                      exact Yields.pure (.column hentry hcolumn)
                  | some rel =>
                      simp only [hrelation, hscalar]
                      split
                      · exact yields_errorf _ _
                      · have hhop : entry.isColumn = false := by
                          simp [Entry.isColumn, hscalar]
                        rw [scalarThroughHop]
                        refine (Yields.trivial newAlias s).bind fun aliasName s₁ _ => ?_
                        refine (Yields.trivial _ s₁).bind fun scope s₂ _ => ?_
                        exact Yields.pure (.hop hentry hhop scope aliasName)
  | add left right ihl ihr =>
      cases fuel with
      | zero => exact Yields.throw _
      | succ fuel =>
          show Yields ((builder opts now fuel).arithmetic .add .add [left.node, right.node] m) s _
          rw [Builder.arithmetic]
          refine (ihl fuel s).bind fun l s₁ hleft => (ihr fuel s₁).bind fun r s₂ hright => ?_
          have hplain : (!isTemporal l && !isTemporal r) = true := by
            rw [hleft.isTemporal, hright.isTemporal]
            rfl
          have htemporal : temporalArith .add l r = none := if_pos hplain
          rw [htemporal]
          show Yields (liftM (addValue l r)) s₂ _
          exact (Yields.lift (addValue_lowered hleft hright)).imp fun v s' h => h.1

/-- A lowered sum is resolved for a row when each `+` with a string operand is plain. -/
theorem LoweredTo.resolved_iff (h : LoweredTo m t v) {e : Expr} (he : Go.asExpr v = .ok e) :
    (∀ attributes, Admits m attributes → t.Resolved attributes e) ↔
      t.everyOverloadPlain m = true := by
  induction h generalizing e with
  | literal s => exact iff_of_true (fun _ _ => .literal s e) rfl
  | column hentry hcolumn => exact iff_of_true (fun _ _ => .reference _ e) rfl
  | hop hentry hhop s aliasName => exact iff_of_true (fun _ _ => .reference _ e) rfl
  | @add left right l r x y hleft hright hl hr ihl ihr =>
      rw [everyOverloadPlain, Bool.and_eq_true_iff, Bool.and_eq_true_iff, ← ihl hl, ← ihr hr,
        Bool.or_eq_true_iff]
      obtain rfl := Except.ok.inj he
      by_cases hplain : (left.isPlainString m || right.isPlainString m) = true
      · rw [if_pos hplain]
        constructor
        · intro h
          refine ⟨⟨.inl hplain, fun attributes hadmits => ?_⟩, fun attributes hadmits => ?_⟩
          · cases h attributes hadmits with
            | concat hleft hright => exact hleft
          · cases h attributes hadmits with
            | concat hleft hright => exact hright
        · rintro ⟨⟨-, hl⟩, hr⟩ attributes hadmits
          exact .concat (hl attributes hadmits) (hr attributes hadmits)
      · rw [if_neg hplain]
        constructor
        · intro h
          refine ⟨⟨.inr ?_, fun attributes hadmits => ?_⟩, fun attributes hadmits => ?_⟩
          -- The attributes that may be strings are, so that no operand is one.
          · cases h _ (admits_sample m) with
            | numeric hl hr hleft hright =>
                rw [Bool.not_eq_true', Bool.or_eq_false_iff, ← Bool.not_eq_true, ← Bool.not_eq_true]
                exact ⟨mt isStringOutcome_sample hl, mt isStringOutcome_sample hr⟩
          · cases h attributes hadmits with
            | numeric hl hr hleft hright => exact hleft
          · cases h attributes hadmits with
            | numeric hl hr hleft hright => exact hright
        · rintro ⟨⟨hno, hl⟩, hr⟩ attributes hadmits
          obtain hplain' | hno := hno
          · exact absurd hplain' hplain
          · rw [Bool.not_eq_true', Bool.or_eq_false_iff] at hno
            refine .numeric (fun hs => ?_) (fun hs => ?_) (hl attributes hadmits)
              (hr attributes hadmits)
            · exact Bool.noConfusion
                (hno.1.symm.trans (mayBeString_of_isStringOutcome hadmits hs))
            · exact Bool.noConfusion
                (hno.2.symm.trans (mayBeString_of_isStringOutcome hadmits hs))

end Lowered

/-- The overloads of a sum with a known string are resolved exactly when each `+` that
may have a string operand has a plain one. -/
theorem overloads_resolved_iff {opts : Options} {now : Int} {fuel s s' : Nat} {t : Addition}
    {v : Val} (hrun : (builder opts now fuel).value t.node m s = .ok (v, s')) :
    ∃ e, asExpr v = .ok e ∧
      ((t.hasKnownString m = true →
          ∀ attributes, Admits m attributes → t.Resolved attributes e) ↔
        (t.hasKnownString m = true → t.everyOverloadPlain m = true)) := by
  have hlowered : LoweredTo m t v := (yields_addition t fuel s).of_run hrun
  obtain ⟨e, he⟩ := hlowered.asExpr
  exact ⟨e, he, imp_congr_right fun _ => hlowered.resolved_iff he⟩

end Strings

/-! A concatenation of three operands, of which only the middle one is known to be a string. -/

def wordEntry (column : String) : Entry where
  relation := none
  scalarRelation := none
  column := column
  qualifier := ""
  valueType := .default
  nullConvention := .omitted

def wordMapper : Mapper where
  resolve name :=
    if name = "R.attr.a" then some (wordEntry "a")
    else if name = "R.attr.b" then some (wordEntry "b")
    else none

def wordRoot : Mapper :=
  rootMapper (guardedMapper wordMapper) "documents"

def wordOptions : Options where
  rootTable := "documents"
  nullRepresentation := .omitted

def wordColumn (name : String) : Expr :=
  .column (elementColumn "documents" { wordEntry name with qualifier := "documents" })

/-- `(R.attr.a + "x") + R.attr.b`. -/
def threeWords : Addition :=
  .add (.add (.reference "R.attr.a") (.literal "x")) (.reference "R.attr.b")

def twoWords (name : String) : Outcome :=
  .value (.string (if name = "R.attr.a" then "u" else "v"))

theorem threeWords_lowered :
    (builder wordOptions 0 3).value threeWords.node wordRoot 0 =
      .ok (.expr (.arith .add (.concat (wordColumn "a") (.lit (.string "x"))) (wordColumn "b")),
        0) := rfl

theorem admits_twoWords : Admits wordRoot twoWords := by
  intro name entry hentry v hv
  have htype : entry.valueType = .default := by
    simp only [wordRoot, rootMapper, guardedMapper, wordMapper, Option.map_eq_some_iff] at hentry
    obtain ⟨declared, hdeclared, rfl⟩ := hentry
    have hdeclared : declared.valueType = .default := by
      split at hdeclared
      next found =>
        split at hdeclared
        · cases hdeclared
        · obtain rfl := Option.some.inj hdeclared
          split at found
          · obtain rfl := Option.some.inj found
            rfl
          · split at found
            · obtain rfl := Option.some.inj found
              rfl
            · cases found
      next => cases hdeclared
    split <;> exact hdeclared
  rw [htype]
  rfl

/-- The sum is a string in CEL, and the outer `+` a numeric sum in SQL. -/
theorem threeWords_summed :
    build 4 0 (.expression .eq [threeWords.node, .value (.string "uxv")]) wordMapper wordOptions =
        .ok (.cmp .eq
          (.arith .add (.concat (wordColumn "a") (.lit (.string "x"))) (wordColumn "b"))
          (.lit (.string "uxv"))) ∧
      threeWords.hasKnownString wordRoot = true ∧ Admits wordRoot twoWords ∧
      threeWords.outcome twoWords = .value (.string "uxv") ∧
      ¬ threeWords.Resolved twoWords
        (.arith .add (.concat (wordColumn "a") (.lit (.string "x"))) (wordColumn "b")) := by
  refine ⟨rfl, rfl, admits_twoWords, rfl, fun h => ?_⟩
  cases h with
  | numeric hl hr hleft hright => exact hl ⟨"ux", rfl⟩

theorem overloads_resolved_iff_threeWords :
    ∃ e, asExpr (.expr (.arith .add (.concat (wordColumn "a") (.lit (.string "x")))
        (wordColumn "b"))) = .ok e ∧
      ((threeWords.hasKnownString wordRoot = true →
          ∀ attributes, Admits wordRoot attributes → threeWords.Resolved attributes e) ↔
        (threeWords.hasKnownString wordRoot = true →
          threeWords.everyOverloadPlain wordRoot = true)) :=
  overloads_resolved_iff threeWords_lowered

end Addition

end QueryPlanAdapters.Go
