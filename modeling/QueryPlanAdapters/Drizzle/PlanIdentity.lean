import QueryPlanAdapters.Drizzle.PlanMeaning

/-!
# Drizzle: the pass on a whole condition

The pass throws only where a comparison of instants is solved for a bound that is no date,
and otherwise gives a condition of the same result wherever every evaluated node is exact.
-/

namespace QueryPlanAdapters.Drizzle

open Go

/-! ## Bounds that are dates -/

section Dates

variable (mapped : String → Bool) (dateParse : String → Option Int) (clock : Int)

/-- Every comparison of instants is solved for a bound that is a date. -/
inductive Dated : Node → Prop
  | value {v} : Dated (.value v)
  | var {name} : Dated (.var name)
  | expression {operator operands} : (∀ o ∈ operands, Dated o) →
      (∀ c, instantComparison dateParse clock (.expression operator operands) = some c →
        isDate c.bound = true) →
      Dated (.expression operator operands)

theorem rewriteNode_isSome_iff (node : Node) :
    (rewriteNode mapped dateParse clock node).isSome = true ↔
      ∀ c, instantComparison dateParse clock node = some c → isDate c.bound = true := by
  rw [rewriteNode_eq]
  cases hinstant : instantComparison dateParse clock node with
  | none =>
      have hkept : rewriteShiftedTimestamp dateParse clock node = some node := by
        rw [rewriteShiftedTimestamp, hinstant]
      rw [hkept]
      apply iff_of_true
      · cases rewriteStep mapped node <;> rfl
      · intro c hc
        cases hc
  | some c =>
      obtain ⟨hternary, hlist, hconcat, hprojected, hindex⟩ :=
        untouched_of_instantComparison mapped hinstant
      have hstep : rewriteStep mapped node = none := by
        rw [rewriteStep, rewriteOperation, hindex, hternary, rewriteListFunction, hlist,
          rewriteMembership, hconcat]
        exact hprojected
      rw [hstep, Option.elim_none, rewriteShiftedTimestamp, hinstant, Option.isSome_map,
        timestampLiteral]
      constructor
      · rintro hsome c' hc
        obtain rfl := Option.some_inj.mp hc
        by_contra hdate
        rw [if_neg hdate] at hsome
        cases hsome
      · intro hdate
        rw [if_pos (hdate c rfl)]
        rfl

theorem rewriteOperands_isSome_iff (operands : List Node) :
    (rewriteOperands mapped dateParse clock operands).isSome = true ↔
      ∀ o ∈ operands, (rewritePlan mapped dateParse clock o).isSome = true := by
  induction operands with
  | nil => exact iff_of_true rfl fun o ho => absurd ho List.not_mem_nil
  | cons operand operands ih =>
      rw [rewriteOperands, List.forall_mem_cons, ← ih]
      cases rewritePlan mapped dateParse clock operand with
      | none => exact iff_of_false Bool.false_ne_true fun h => Bool.false_ne_true h.1
      | some rewritten =>
          rw [Option.bind_some, Option.isSome_map]
          exact (and_iff_right rfl).symm

/-- The pass gives a condition exactly where every bound is a date. -/
theorem rewritePlan_isSome_iff (node : Node) :
    (rewritePlan mapped dateParse clock node).isSome = true ↔ Dated dateParse clock node := by
  induction node using Operand.induction with
  | value v => exact iff_of_true rfl .value
  | var name => exact iff_of_true rfl .var
  | expression operator operands ih =>
      have hoperands : (rewriteOperands mapped dateParse clock operands).isSome = true ↔
          ∀ o ∈ operands, Dated dateParse clock o := by
        rw [rewriteOperands_isSome_iff]
        exact forall₂_congr ih
      rw [rewritePlan]
      cases hrewritten : rewriteOperands mapped dateParse clock operands with
      | none =>
          rw [hrewritten] at hoperands
          apply iff_of_false Bool.false_ne_true
          intro hdated
          cases hdated with
          | expression hinner _ => exact Bool.false_ne_true (hoperands.mpr hinner)
      | some operands' =>
          rw [hrewritten] at hoperands
          have hbounds := instantComparison_rewrites operator (rewriteOperands_eq_some_iff.mp hrewritten)
          rw [Option.bind_some, rewriteNode_isSome_iff]
          constructor
          · intro hdates
            refine .expression (hoperands.mp rfl) ?_
            intro c hc
            rw [hc] at hbounds
            cases hafter : instantComparison dateParse clock (.expression operator operands') with
            | none => rw [hafter] at hbounds; cases hbounds
            | some c' =>
                rw [hafter] at hbounds
                obtain ⟨hrewrites⟩ := hbounds
                rw [← hrewrites.bound]
                exact hdates c' hafter
          · intro hdated c' hc'
            obtain _ | _ | ⟨-, hdates⟩ := hdated
            rw [hc'] at hbounds
            cases hbefore : instantComparison dateParse clock (.expression operator operands) with
            | none => rw [hbefore] at hbounds; cases hbounds
            | some c =>
                rw [hbefore] at hbounds
                obtain ⟨hrewrites⟩ := hbounds
                rw [hrewrites.bound]
                exact hdates c hbefore

end Dates

/-! ## The pass -/

/-- CEL's functions of instants, durations, maps and sizes. -/
def celFunctions (now : Int) : Functions where
  call
    | .index, [v, .string key] => getField (.value v) key
    | .in, [x, .record fields] =>
        .value (.bool (fields.any fun field => x.valuesEqual (.string field.1)))
    | .size, [.string s] => .value (.number (.finite s.length))
    | .size, [.array items] => .value (.number (.finite items.length))
    | .size, [.record fields] => .value (.number (.finite fields.length))
    | .size, [.hierarchy segments] => .value (.number (.finite segments.length))
    | operator, values => (Prisma.temporalFunctions now).call operator values
  except := (Prisma.temporalFunctions now).except
  intersect := (Prisma.temporalFunctions now).intersect
  mem_except := (Prisma.temporalFunctions now).mem_except
  mem_intersect := (Prisma.temporalFunctions now).mem_intersect

theorem celFunctions_cel (now : Int) : CelFunctions (celFunctions now) now where
  timestamp _ := rfl
  duration _ := rfl
  timeSince _ := rfl
  sum _ _ := rfl
  sumAfter _ _ := rfl
  difference _ _ := rfl
  converted {values v} h := by
    have hcall : ∀ o : Outcome, (∃ text, o = (parseRfc3339Timestamp text).elim .error fun t =>
        .value (.timestamp t)) ∨ o = .error → o = .value v → ∃ t, v = .timestamp t := by
      rintro o (⟨text, rfl⟩ | rfl) ho
      · cases hparsed : parseRfc3339Timestamp text with
        | none => rw [hparsed] at ho; cases ho
        | some t =>
            rw [hparsed] at ho
            exact ⟨t, (Outcome.value.inj ho).symm⟩
      · cases ho
    refine hcall _ ?_ h
    rcases values with - | ⟨w, - | ⟨_, _⟩⟩
    · exact .inr rfl
    · cases w with
      | string text => exact .inl ⟨text, rfl⟩
      | _ => exact .inr rfl
    · cases w <;> exact .inr rfl
  index _ _ := rfl
  key _ {v} hv := by
    cases v with
    | record fields => exact ⟨_, rfl⟩
    | _ => cases hv
  notContainer _ {v} _ hrecord := by
    cases v with
    | record fields => cases hrecord
    | _ => rfl
  notConcatenated {v} _ hv := by
    cases v with
    | array items => cases hv
    | _ => rfl
  size {v} hv := by
    cases v with
    | string | array | record | hierarchy => exact ⟨_, rfl⟩
    | _ => cases hv
  noSize {v} hv := by
    cases v with
    | string | array | record | hierarchy => cases hv
    | _ => rfl

/-- The texts of whole milliseconds. -/
def wholeMilliseconds (text : String) : Option Int :=
  (parseRfc3339Timestamp text).bind fun nanos =>
    if nanos % 1000000 = 0 then some (nanos / 1000000) else none

theorem readsDates_wholeMilliseconds : ReadsDates wholeMilliseconds := by
  intro text nanos milliseconds _ hnanos hmilliseconds
  rw [wholeMilliseconds, hnanos, Option.bind_some] at hmilliseconds
  split at hmilliseconds
  next hwhole =>
    obtain rfl := Option.some_inj.mp hmilliseconds
    omega
  next => cases hmilliseconds

/-- `timestamp(x) + duration("86400s") >= timestamp("2024-01-01T00:00:00Z")` -/
def nextDay : InstantComparison where
  arithmetic := .expression .add
    [.expression .timestamp [.var "x"], .expression .duration [.value (.string "86400s")]]
  literal := timestampCall "2024-01-01T00:00:00Z"
  operator := .ge
  conversion := .expression .timestamp [.var "x"]
  bound := .finite 1703980800000

def nextDayNode : Node :=
  .expression .ge [nextDay.arithmetic, nextDay.literal]

def nextDayRewritten : Node :=
  nextDay.node (timestampCall (isoText 1703980800000))

/-- A record whose `x` has this text, and no other attribute. -/
def onlyX (text : String) : Valuation := fun name =>
  if name = "x" then .value (.string text) else .error

theorem coherent_onlyX (text : String) : Coherent (onlyX text) := by
  intro receiver key _ _
  have hname : receiver ++ "." ++ key ≠ "x" := by
    intro heq
    have hdot : '.' ∈ (receiver ++ "." ++ key).toList := by simp
    rw [heq] at hdot
    revert hdot
    decide
  rw [onlyX, if_neg hname, onlyX]
  split <;> rfl

theorem instantComparison_nextDay :
    instantComparison wholeMilliseconds 0 nextDayNode = some nextDay := by
  have hshift : durationMilliseconds (.expression .duration [.value (.string "86400s")]) =
      some (.finite 86400000) := by
    decide +kernel
  have hshifted : shiftedTimestamp wholeMilliseconds nextDay.arithmetic =
      some (nextDay.conversion, .finite 86400000) := by
    have hsum : conversionAndDuration wholeMilliseconds nextDay.conversion
        (.expression .duration [.value (.string "86400s")]) =
          some (nextDay.conversion, .finite 86400000) := by
      have hconversion : isConversion wholeMilliseconds nextDay.conversion = true := rfl
      rw [conversionAndDuration, if_pos hconversion, hshift]
      rfl
    have heq : nextDay.arithmetic = .expression .add
        [nextDay.conversion, .expression .duration [.value (.string "86400s")]] := rfl
    rw [heq, shiftedTimestamp, hsum, Option.some_or]
  have hliteral : timestampLiteralMilliseconds wholeMilliseconds nextDay.literal =
      some (Double.ofInt 1704067200000) := by
    decide +kernel
  have hbound : (Double.ofInt 1704067200000).sub (.finite 86400000) = nextDay.bound := by
    decide +kernel
  have hside : shiftedSide wholeMilliseconds .ge nextDay.arithmetic nextDay.literal =
      some nextDay := by
    rw [shiftedSide, hshifted, hliteral]
    exact congrArg (fun bound => some { nextDay with bound := bound }) hbound
  have hinstant : instantSide wholeMilliseconds 0 .ge nextDay.arithmetic nextDay.literal =
      some nextDay := by
    rw [instantSide, hside, Option.some_or]
  have hoperator : comparisonOps .ge = some ComparisonOperator.ge := rfl
  rw [nextDayNode, instantComparison, hoperator, Option.bind_some, hinstant, Option.some_or]

theorem rewritePlan_nextDay (mapped : String → Bool) :
    rewritePlan mapped wholeMilliseconds 0 nextDayNode = some nextDayRewritten := by
  have hoperands : rewriteOperands mapped wholeMilliseconds 0
      [nextDay.arithmetic, nextDay.literal] = some [nextDay.arithmetic, nextDay.literal] := by
    rfl
  have hnode : rewriteNode mapped wholeMilliseconds 0 nextDayNode = some nextDayRewritten := by
    obtain ⟨hternary, hlist, hconcat, hprojected, hindex⟩ :=
      untouched_of_instantComparison mapped instantComparison_nextDay
    have hstep : rewriteStep mapped nextDayNode = none := by
      rw [rewriteStep, rewriteOperation, hindex, hternary, rewriteListFunction, hlist,
        rewriteMembership, hconcat]
      exact hprojected
    have hliteral : timestampLiteral nextDay.bound =
        some (timestampCall (isoText nextDay.bound.trunc)) := if_pos (by decide)
    rw [rewriteNode_eq, hstep, Option.elim_none, rewriteShiftedTimestamp,
      instantComparison_nextDay]
    exact congrArg (Option.map nextDay.node) hliteral
  rw [nextDayNode, rewritePlan, hoperands, Option.bind_some]
  exact hnode

/-- A node that no rewrite takes is exact. -/
theorem exactAt_untouched {operator : PlanOperator} (h : isRewritten operator = false)
    (functions : Functions) (mapped : String → Bool) (dateParse : String → Option Int) (now : Int)
    (env : Valuation) (operands : List Node) :
    ExactAt functions mapped dateParse now env (.expression operator operands) := by
  refine ⟨?_, ?_, ?_⟩
  · intro m hm
    rw [listMembership_untouched h] at hm
    cases hm
  · intro m hm
    rw [concatenatedMembership_untouched h] at hm
    cases hm
  · intro c hc
    rw [instantComparison_untouched h] at hc
    cases hc

theorem exact_nextDay : Exact (celFunctions 0) (fun _ => true) wholeMilliseconds 0
    (onlyX "2024-06-01T00:00:00Z") nextDayNode := by
  have hcall : ∀ (operator : PlanOperator) (operands : List Node), isRewritten operator = false →
      isApplication operator = true →
      (∀ o ∈ operands, Exact (celFunctions 0) (fun _ => true) wholeMilliseconds 0
        (onlyX "2024-06-01T00:00:00Z") o) →
      Exact (celFunctions 0) (fun _ => true) wholeMilliseconds 0
        (onlyX "2024-06-01T00:00:00Z") (.expression operator operands) := by
    intro operator operands huntouched hoperator hoperands
    exact .application hoperator hoperands (exactAt_untouched huntouched _ _ _ _ _ _)
  have hvar : "" ∉ pathParts "x" := by decide
  have hconversion := hcall .timestamp [.var "x"] rfl rfl (List.forall_mem_singleton.mpr (.var hvar))
  have hduration := hcall .duration [.value (.string "86400s")] rfl rfl
    (List.forall_mem_singleton.mpr .value)
  have harithmetic := hcall .add _ rfl rfl
    (List.forall_mem_cons.mpr ⟨hconversion, List.forall_mem_singleton.mpr hduration⟩)
  have hliteral := hcall .timestamp [.value (.string "2024-01-01T00:00:00Z")] rfl rfl
    (List.forall_mem_singleton.mpr .value)
  refine .application rfl
    (List.forall_mem_cons.mpr ⟨harithmetic, List.forall_mem_singleton.mpr hliteral⟩) ?_
  obtain ⟨-, hlist, hconcat, -, -⟩ :=
    untouched_of_instantComparison (fun _ => true) instantComparison_nextDay
  refine ⟨?_, ?_, ?_⟩
  · intro m hm
    rw [nextDayNode] at hlist
    rw [hlist] at hm
    cases hm
  · intro m hm
    rw [nextDayNode] at hconcat
    rw [hconcat] at hm
    cases hm
  · intro c hc n _
    obtain rfl := Option.some_inj.mp (instantComparison_nextDay.symm.trans hc)
    refine ⟨?_, ?_⟩
    · exact iff_of_true ⟨rfl, rfl⟩ ⟨by decide, by decide⟩
    · intro d hd
      cases hd

end QueryPlanAdapters.Drizzle
