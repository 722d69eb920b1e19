import QueryPlanAdapters.Prisma.Scoping
import QueryPlanAdapters.Logic.Exception

/-!
# Prisma: runs of the translation and what they record

A translation is run on the records of its enclosing lambdas. A lookup adds columns to
the innermost of them, and a lambda body has a record of its own.
-/

namespace QueryPlanAdapters.Prisma

/-! ## Runs -/

namespace Translation

variable {α β : Type} {scopes scopes' : List ScopeRecord}

theorem bind_eq_ok_iff {x : Translation α} {f : α → Translation β} {b : β} :
    (x >>= f) scopes = .ok (b, scopes') ↔
      ∃ a middle, x scopes = .ok (a, middle) ∧ f a middle = .ok (b, scopes') := by
  have hbind : (x >>= f) scopes = (x scopes >>= fun run => f run.1 run.2) := rfl
  rw [hbind, Except.bind_eq_ok_iff]
  exact Prod.exists

variable {a : α}

theorem lift_eq_ok_iff {x : Except Refusal α} :
    (liftM x : Translation α) scopes = .ok (a, scopes') ↔ x = .ok a ∧ scopes' = scopes := by
  cases x with
  | error e => simp [liftM, monadLift, MonadLift.monadLift, StateT.lift, bind, Except.bind]
  | ok b =>
      simp only [liftM, monadLift, MonadLift.monadLift, StateT.lift, bind, Except.bind, pure,
        Except.pure, Except.ok.injEq, Prod.mk.injEq, @eq_comm _ scopes']

theorem pure_eq_ok_iff {b : α} :
    (pure a : Translation α) scopes = .ok (b, scopes') ↔ a = b ∧ scopes = scopes' := by
  have hrun : (pure a : Translation α) scopes = .ok (a, scopes) := rfl
  rw [hrun, Except.ok.injEq, Prod.mk.injEq]

theorem map_eq_ok_iff {x : Translation α} {f : α → β} {b : β} :
    (f <$> x) scopes = .ok (b, scopes') ↔ ∃ a, x scopes = .ok (a, scopes') ∧ f a = b := by
  have hmap : (f <$> x) scopes = (x scopes >>= fun run => .ok (f run.1, run.2)) := rfl
  rw [hmap, Except.bind_eq_ok_iff]
  constructor
  · rintro ⟨⟨a, last⟩, hx, h⟩
    obtain ⟨rfl, rfl⟩ := Prod.mk.inj (Except.ok.inj h)
    exact ⟨a, hx, rfl⟩
  · rintro ⟨a, hx, rfl⟩
    exact ⟨(a, scopes'), hx, rfl⟩

/-- A lambda body runs with a record of its own, which is taken off afterwards. -/
theorem withLambdaScope_eq_ok_iff {body : Translation α} {record : ScopeRecord} :
    withLambdaScope body scopes = .ok ((a, record), scopes') ↔
      ∃ last, body (scopes ++ [({} : ScopeRecord)]) = .ok (a, last) ∧ scopes' = last.dropLast ∧
        record = last.getLast?.getD {} := by
  have hrun : withLambdaScope body scopes = (body (scopes ++ [({} : ScopeRecord)]) >>= fun run =>
      .ok ((run.1, run.2.getLast?.getD {}), run.2.dropLast)) := rfl
  rw [hrun, Except.bind_eq_ok_iff]
  constructor
  · rintro ⟨⟨a', last⟩, hbody, h⟩
    obtain ⟨⟨rfl, rfl⟩, rfl⟩ : (a' = a ∧ last.getLast?.getD {} = record) ∧
        last.dropLast = scopes' := by simpa using h
    exact ⟨last, hbody, rfl, rfl⟩
  · rintro ⟨last, hbody, rfl, rfl⟩
    exact ⟨(a, last), hbody, rfl⟩

end Translation

/-! ## Lookups -/

namespace ScopeRecord

theorem mem_addNullable {record : ScopeRecord} {field column : String} :
    column ∈ (record.addNullable field).nullableFields ↔
      column ∈ record.nullableFields ∨ column = field := by
  rw [addNullable]
  split
  next h =>
    refine ⟨.inl, fun h' => h'.elim id ?_⟩
    rintro rfl
    exact h
  next => simp

theorem addNullable_unknownFilters (record : ScopeRecord) (field : String) :
    (record.addNullable field).unknownFilters = record.unknownFilters := by
  rw [addNullable]
  split <;> rfl

theorem mem_foldl_addNullable {fields : List String} {record : ScopeRecord} {column : String} :
    column ∈ (fields.foldl addNullable record).nullableFields ↔
      column ∈ record.nullableFields ∨ column ∈ fields := by
  induction fields generalizing record with
  | nil => simp
  | cons field fields ih => rw [List.foldl_cons, ih, mem_addNullable, List.mem_cons, or_assoc]

theorem foldl_addNullable_unknownFilters (fields : List String) (record : ScopeRecord) :
    (fields.foldl addNullable record).unknownFilters = record.unknownFilters := by
  induction fields generalizing record with
  | nil => rfl
  | cons field fields ih => rw [List.foldl_cons, ih, addNullable_unknownFilters]

end ScopeRecord

/-- Whether a lookup records some columns, with the innermost lambda. -/
def Reading.Records {α : Type} (context : TranslationContext) (fields : List String)
    (x : Reading α) : Prop :=
  x.recorded =
    if context.scopes.isEmpty then [] else fields.map fun field => (context.scopes.length - 1, field)

variable {context : TranslationContext}

theorem Reading.Records.bind {α β : Type}
    {fields more : List String} {x : Reading α} {f : α → Reading β}
    (hx : x.Records context fields) (hf : (f x.result).Records context more) :
    (x >>= f).Records context (fields ++ more) := by
  rw [Records, Reading.bind_recorded, hx, hf]
  split <;> simp

theorem Reading.Records.pure {α : Type} (context : TranslationContext) (a : α) :
    (Pure.pure a : Reading α).Records context [] := by
  simp [Records]

theorem foldl_modify (depth : Nat) (fields : List String) (scopes : List ScopeRecord) :
    (fields.map fun field => (depth, field)).foldl (fun scopes entry =>
      scopes.modify entry.1 (·.addNullable entry.2)) scopes =
        scopes.modify depth (fields.foldl ScopeRecord.addNullable) := by
  induction fields generalizing scopes with
  | nil => exact (List.modify_id _ _).symm
  | cons field fields ih =>
      rw [List.map_cons, List.foldl_cons, ih]
      exact List.modify_modify_eq ..

theorem reading_eq_ok_iff {α : Type} {x : Reading α} {a : α} {scopes scopes' : List ScopeRecord}
    {fields : List String} (hrecords : x.Records context fields)
    (hlength : scopes.length = context.scopes.length) :
    reading x scopes = .ok (a, scopes') ↔ x.result = a ∧
      scopes' = scopes.modify (context.scopes.length - 1) (fields.foldl ScopeRecord.addNullable) := by
  have hrun : reading x scopes = .ok (x.result, x.recorded.foldl (fun scopes entry =>
      scopes.modify entry.1 (·.addNullable entry.2)) scopes) := rfl
  have hstate : x.recorded.foldl (fun scopes entry =>
      scopes.modify entry.1 (·.addNullable entry.2)) scopes =
        scopes.modify (context.scopes.length - 1) (fields.foldl ScopeRecord.addNullable) := by
    rw [hrecords]
    split
    next hroot =>
      have hnone : scopes = [] := by simpa [List.isEmpty_iff.mp hroot] using hlength
      simp [hnone]
    next => exact foldl_modify ..
  rw [hrun, hstate, Except.ok.injEq, Prod.mk.injEq, @eq_comm _ scopes']

/-- Resolving a column records it. -/
theorem ReadsColumn.records (hcontext : Entered context)
    {name field : String} (h : ReadsColumn context name field) :
    (resolveFieldReference name context).Records context [field] := by
  rw [Reading.Records, h.recorded hcontext]
  rfl

/-- Resolving a relation records nothing. -/
theorem ReadsRelation.records (hcontext : Entered context)
    {collection : String} {relation : RelationConfig}
    (h : ReadsRelation context collection relation) :
    (resolveFieldReference collection context).Records context [] := by
  rw [Reading.Records, (h.resolve hcontext).2.1]
  simp

/-- Columns of the current record need no hop. -/
theorem hopFilters_records (hcontext : Entered context) {columns names : List String}
    (hnames : ∀ name ∈ names, ∃ field ∈ columns, ReadsColumn context name field) :
    (hopFilters context names).result = [] ∧
      ∃ fields : List String, (∀ field ∈ fields, field ∈ columns) ∧
        (hopFilters context names).Records context fields := by
  induction names with
  | nil => exact ⟨rfl, [], by simp, Reading.Records.pure context _⟩
  | cons name names ih =>
      obtain ⟨⟨field, hfield, hname⟩, hrest⟩ := List.forall_mem_cons.mp hnames
      obtain ⟨hresult, fields, hfields, hrecords⟩ := ih hrest
      have hdirect : requiredHops
          ((resolveFieldReference name context).result.relations.getD []) = [] := by
        simp [hname.direct, requiredHops]
      refine ⟨?_, field :: fields, ?_, ?_⟩
      · simp [hopFilters, hdirect, hresult, buildHopsExistFilter]
      · exact List.forall_mem_cons.mpr ⟨hfield, hfields⟩
      · rw [hopFilters, ← List.singleton_append, ← List.append_nil fields]
        exact (hname.records hcontext).bind (hrecords.bind (Reading.Records.pure context _))

end QueryPlanAdapters.Prisma
