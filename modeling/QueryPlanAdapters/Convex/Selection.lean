import QueryPlanAdapters.Convex.Evaluate

/-!
# Convex: selecting a member of a map

CEL's `m.k` and `m["k"]` are one read. The evaluator has three ways to it: a path
through a lambda variable and `get-field` read a stored null as missing where the
caller omits null attributes; `index` returns the member as it is stored.
-/

namespace QueryPlanAdapters

theorem dropWhile_append_dot {name : String} (h : isBareName name = true) (rest : List Char) :
    (name.toList ++ '.' :: rest).dropWhile (· ≠ '.') = '.' :: rest := by
  have hdot : '.' ∉ name.toList := by simpa [isBareName] using h
  rw [List.dropWhile_append_of_pos, List.dropWhile_cons_of_neg (by simp)]
  intro c hc
  exact decide_eq_true fun heq : c = '.' => hdot (heq ▸ hc)

theorem splitAt_append_separator {separator : Char} {cs : List Char} (h : separator ∉ cs)
    (rest : List Char) :
    splitAt separator (cs ++ separator :: rest) = cs :: splitAt separator rest := by
  induction cs with
  | nil => rw [List.nil_append, splitAt, if_pos rfl]
  | cons c cs ih =>
      obtain ⟨hc, hcs⟩ := not_or.mp (List.mem_cons.not.mp h)
      rw [List.cons_append, splitAt, if_neg fun h => hc h.symm, ih hcs]

/-- The root of a path through a bare name is the name. -/
theorem referenceRoot_member {name : String} (h : isBareName name = true) (k : String) :
    referenceRoot (name ++ "." ++ k) = name := by
  have hdot : '.' ∉ name.toList := by simpa [isBareName] using h
  simp [referenceRoot, pathParts, splitAt_append_separator hdot]

theorem referenceRest_member {name : String} (h : isBareName name = true) (k : String) :
    referenceRest (name ++ "." ++ k) = some k := by
  have htext : (name ++ "." ++ k).toList = name.toList ++ '.' :: k.toList := by simp
  rw [referenceRest, htext, dropWhile_append_dot h]
  simp

namespace Convex

/-- The member `k` of a map, as it is stored. -/
def storedMember (fields : List (String × Value)) (k : String) : Outcome :=
  getField (.value (.record fields)) k

theorem storedMember_eq (fields : List (String × Value)) (k : String) :
    storedMember fields k = (fields.lookup k).elim .error .value := by
  rw [storedMember, getField]
  cases fields.lookup k <;> rfl

theorem getNestedValue_member {k : String} (h : isBareName k = true) (o : Outcome) :
    getNestedValue o k = getField o k := by
  rw [getNestedValue, pathParts_of_isBareName h, List.foldl_cons, List.foldl_nil]

section Reads

variable [Double.Rounding] {scope : Scope} {target : Operand} {fields : List (String × Value)}
  {k : String}

theorem evaluate_index (htarget : evaluate target scope = .ok (.value (.record fields))) :
    evaluate (.expression .index [target, .value (.string k)]) scope =
      .ok (storedMember fields k) := by
  rw [evaluate_expression]
  have hindex : evaluateIndex (callOf .index [target, .value (.string k)] scope) =
      .ok (indexInto (.value (.record fields)) (.value (.string k))) := by
    simp [evaluateIndex, Call.arg, callOf, htarget, Value.ofJson, bind, Except.bind, pure,
      Except.pure]
  exact hindex

theorem evaluate_getField {field : Operand} (hfield : fieldName field = some k)
    (hbare : isBareName k = true)
    (htarget : evaluate target scope = .ok (.value (.record fields))) :
    evaluate (.expression .getField [target, field]) scope =
      .ok (if k = "" then .error else readPath (storedMember fields k) scope) := by
  rw [evaluate_expression]
  have hget : evaluateGetField (callOf .getField [target, field] scope) =
      .ok (if k = "" then .error else readPath (storedMember fields k) scope) := by
    simp only [evaluateGetField, Call.arg, Call.operandAt, callOf, List.map_cons,
      List.getElem?_cons_zero, List.getElem?_cons_succ, htarget, bind, Except.bind, hfield, pure,
      Except.pure, getNestedValue_member hbare, storedMember]
    split <;> rfl
  exact hget

/-- A path through a lambda variable reads the variable's member. -/
theorem evaluate_member {v : String} (hv : isBareName v = true) (hbound : scope.isBound v = true)
    (hbare : isBareName k = true)
    (htarget : evaluate (.var v) scope = .ok (.value (.record fields))) :
    evaluate (.var (v ++ "." ++ k)) scope = .ok (readPath (storedMember fields k) scope) := by
  obtain ⟨value, hvalue⟩ := Option.isSome_iff_exists.mp hbound
  have hrecord : value = .record fields := by
    rw [evaluate_var, lookUp, referenceRest_of_isBareName hv, Option.bind_none, hvalue] at htarget
    exact Outcome.value.inj (Except.ok.inj htarget)
  rw [evaluate_var, lookUp, referenceRest_member hv, referenceRoot_member hv, Option.bind_some,
    hvalue, hrecord]
  exact congrArg (fun o => Except.ok (readPath o scope)) (getNestedValue_member hbare _)

/-- The three ways to the member `k` of a map give the same result. -/
def SelectionsAgree (scope : Scope) (target : Operand) (k : String) : Prop :=
  (∀ field, fieldName field = some k →
    evaluate (.expression .getField [target, field]) scope =
      evaluate (.expression .index [target, .value (.string k)]) scope) ∧
    ∀ v, target = .var v → isBareName v = true → scope.isBound v = true →
      evaluate (.var (v ++ "." ++ k)) scope =
        evaluate (.expression .index [target, .value (.string k)]) scope

/-- The map has no member `k`, or one that every way returns: its key is not empty, and it
is not a null that reads as missing. -/
def SelectedAlike (scope : Scope) (fields : List (String × Value)) (k : String) : Prop :=
  fields.lookup k = none ∨
    k ≠ "" ∧ (scope.nullIsMissing = true → fields.lookup k ≠ some .null)

omit [Double.Rounding] in
theorem readPath_storedMember_iff :
    readPath (storedMember fields k) scope = storedMember fields k ↔
      (scope.nullIsMissing = true → fields.lookup k ≠ some .null) := by
  rw [storedMember_eq]
  cases fields.lookup k with
  | none => simp [readPath]
  | some v => cases v <;> cases hmissing : scope.nullIsMissing <;> simp [readPath, hmissing]

/-- The reads of a map's member agree exactly where it is absent, or neither its key is
empty nor it is a null that reads as missing. -/
theorem selections_agree_iff (htarget : evaluate target scope = .ok (.value (.record fields)))
    (hbare : isBareName k = true) :
    SelectionsAgree scope target k ↔ SelectedAlike scope fields k := by
  have hmember : SelectedAlike scope fields k → readPath (storedMember fields k) scope =
      storedMember fields k := by
    rintro (habsent | ⟨-, hnull⟩)
    · rw [storedMember_eq, habsent]
      rfl
    · exact readPath_storedMember_iff.mpr hnull
  constructor
  · intro h
    have hget := h.1 (.value (.string k)) rfl
    rw [evaluate_index htarget, evaluate_getField rfl hbare htarget, Except.ok.injEq] at hget
    by_cases hempty : k = ""
    · rw [if_pos hempty, storedMember_eq] at hget
      cases hlookup : fields.lookup k with
      | none => exact .inl hlookup
      | some v =>
          rw [hlookup] at hget
          cases hget
    · rw [if_neg hempty] at hget
      exact .inr ⟨hempty, readPath_storedMember_iff.mp hget⟩
  · intro h
    refine ⟨?_, ?_⟩
    · intro field hfield
      rw [evaluate_index htarget, evaluate_getField hfield hbare htarget, Except.ok.injEq]
      by_cases hempty : k = ""
      · obtain habsent | ⟨hne, -⟩ := h
        · rw [if_pos hempty, storedMember_eq, habsent]
          rfl
        · exact absurd hempty hne
      · rw [if_neg hempty, hmember h]
    · rintro v rfl hv hbound
      rw [evaluate_index htarget, evaluate_member hv hbound hbare htarget, hmember h]

end Reads

/-- Under the omitted convention a null member is missing to `m.k` and null to `m["k"]`. -/
def omittedScope : Scope :=
  { doc := .record [("m", .record [("k", .null)])]
    mapper := fun _ => some ⟨some "m", none⟩
    bindings := .empty
    nullIsMissing := true
    now := 0 }

def omittedMap : Operand :=
  .var "request.resource.attr.m"

theorem omittedMap_evaluates :
    evaluate omittedMap omittedScope = .ok (.value (.record [("k", .null)])) := by
  rw [omittedMap, evaluate_var]
  rfl

theorem selections_differ :
    evaluate omittedMap omittedScope = .ok (.value (.record [("k", .null)])) ∧
      ¬ SelectionsAgree omittedScope omittedMap "k" := by
  refine ⟨omittedMap_evaluates, fun h => ?_⟩
  have hget := h.1 (.value (.string "k")) rfl
  rw [evaluate_index omittedMap_evaluates,
    evaluate_getField rfl (by decide) omittedMap_evaluates, if_neg (by decide)] at hget
  cases hget

/-- A member that is not null reads alike even where nulls are missing. -/
theorem selections_agree_iff_present :
    SelectionsAgree { omittedScope with doc := .record [("m", .record [("k", .bool true)])] }
        omittedMap "k" ↔
      SelectedAlike { omittedScope with doc := .record [("m", .record [("k", .bool true)])] }
        [("k", .bool true)] "k" :=
  selections_agree_iff (by rw [omittedMap, evaluate_var]; rfl) (by decide)

end Convex

end QueryPlanAdapters
