import QueryPlanAdapters.Cel.CodeUnits
import QueryPlanAdapters.Logic.Truth
import Mathlib.Data.List.Forall2

/-!
# Folding the case of ASCII letters

CEL's `upperAscii` and `lowerAscii` move the ASCII letters of one case to the other and
keep every other character. A character is reached from itself and from the letter it is
the fold of, and a letter of the case that is folded away from none.
-/

namespace QueryPlanAdapters

def lowerAscii (s : String) : String :=
  String.ofList <| s.toList.map fun c =>
    if 'A' ≤ c ∧ c ≤ 'Z' then Char.ofNat (c.toNat + 32) else c

namespace AsciiCase

/-- An ASCII letter of the case that the fold leads to: capitals for `upper`. -/
def isFolded (upper : Bool) (c : Char) : Bool :=
  if upper then 'A' ≤ c && c ≤ 'Z' else 'a' ≤ c && c ≤ 'z'

/-- The letter of the other case. -/
def switch (upper : Bool) (c : Char) : Char :=
  if upper then Char.ofNat (c.toNat + 32) else Char.ofNat (c.toNat - 32)

def foldChar (upper : Bool) (c : Char) : Char :=
  if isFolded (!upper) c then switch (!upper) c else c

/-- `upperAscii(s)` or `lowerAscii(s)`. -/
def fold (upper : Bool) (s : String) : String :=
  if upper then upperAscii s else lowerAscii s

variable {upper : Bool}

theorem fold_eq (upper : Bool) (s : String) :
    fold upper s = String.ofList (s.toList.map (foldChar upper)) := by
  cases upper
  · rw [fold, if_neg Bool.false_ne_true, lowerAscii]
    congr 1
    apply List.map_congr_left
    intro c _
    simp [foldChar, isFolded, switch]
  · rw [fold, if_pos rfl, upperAscii]
    congr 1
    apply List.map_congr_left
    intro c _
    simp [foldChar, isFolded, switch]

/-- The characters that the fold takes to a given one. -/
def spellingsOf (upper : Bool) (c : Char) : List Char :=
  if isFolded (!upper) c then [] else if isFolded upper c then [c, switch upper c] else [c]

theorem isFolded_iff {c : Char} :
    isFolded upper c = true ↔
      if upper then 65 ≤ c.toNat ∧ c.toNat ≤ 90 else 97 ≤ c.toNat ∧ c.toNat ≤ 122 := by
  have hle : ∀ a b : Char, a ≤ b ↔ a.toNat ≤ b.toNat := fun a b => UInt32.le_iff_toNat_le
  cases upper
  · simp only [isFolded, hle, Bool.false_eq_true, if_false, Bool.and_eq_true, decide_eq_true_eq]
    exact Iff.rfl
  · simp only [isFolded, hle, if_true, Bool.and_eq_true, decide_eq_true_eq]
    exact Iff.rfl

theorem toNat_switch {c : Char} (h : isFolded upper c = true) :
    (switch upper c).toNat = if upper then c.toNat + 32 else c.toNat - 32 := by
  rw [isFolded_iff] at h
  have hsmall : ∀ n, n < 0xd800 → (Char.ofNat n).toNat = n := fun n hn => toNat_ofNat (.inl hn)
  cases upper
  · rw [switch, if_neg Bool.false_ne_true, if_neg Bool.false_ne_true]
    apply hsmall
    simp only [Bool.false_eq_true, if_false] at h
    omega
  · rw [switch, if_pos rfl, if_pos rfl]
    apply hsmall
    simp only [if_true] at h
    omega

theorem isFolded_switch {c : Char} (h : isFolded upper c = true) :
    isFolded (!upper) (switch upper c) = true := by
  have hcode := toNat_switch h
  rw [isFolded_iff] at h ⊢
  cases upper
  · simp only [Bool.false_eq_true, if_false, Bool.not_false, if_true] at h hcode ⊢
    omega
  · simp only [if_true, Bool.not_true, Bool.false_eq_true, if_false] at h hcode ⊢
    omega

theorem isFolded_not {c : Char} (h : isFolded upper c = true) : isFolded (!upper) c = false := by
  rw [Bool.eq_false_iff, Ne, isFolded_iff]
  rw [isFolded_iff] at h
  cases upper
  · simp only [Bool.false_eq_true, if_false, Bool.not_false, if_true] at h ⊢
    omega
  · simp only [if_true, Bool.not_true, Bool.false_eq_true, if_false] at h ⊢
    omega

theorem switch_switch {c : Char} (h : isFolded upper c = true) :
    switch (!upper) (switch upper c) = c := by
  apply Char.toNat_inj.mp
  rw [toNat_switch (isFolded_switch h), toNat_switch h]
  rw [isFolded_iff] at h
  cases upper
  · simp only [Bool.false_eq_true, if_false, Bool.not_false, if_true] at h ⊢
    omega
  · simp only [if_true, Bool.not_true, Bool.false_eq_true, if_false]
    omega

theorem switch_ne {c : Char} (h : isFolded upper c = true) : switch upper c ≠ c := by
  intro heq
  have hother := isFolded_switch h
  rw [heq, isFolded_not h] at hother
  cases hother

theorem mem_spellingsOf {c d : Char} : d ∈ spellingsOf upper c ↔ foldChar upper d = c := by
  rw [foldChar, spellingsOf]
  by_cases hd : isFolded (!upper) d = true
  · have hswitched := isFolded_switch hd
    rw [Bool.not_not] at hswitched
    have hback := switch_switch hd
    rw [Bool.not_not] at hback
    rw [if_pos hd]
    by_cases hc : isFolded (!upper) c = true
    · rw [if_pos hc]
      refine iff_of_false List.not_mem_nil ?_
      rintro rfl
      rw [isFolded_not hswitched] at hc
      cases hc
    · rw [if_neg hc]
      have hne : d ≠ c := by
        rintro rfl
        exact hc hd
      by_cases hfolded : isFolded upper c = true
      · rw [if_pos hfolded, List.mem_cons, List.mem_singleton, or_iff_right hne]
        constructor
        · rintro rfl
          exact switch_switch hfolded
        · rintro rfl
          exact hback.symm
      · rw [if_neg hfolded, List.mem_singleton]
        refine iff_of_false hne ?_
        rintro rfl
        exact hfolded hswitched
  · rw [if_neg hd]
    by_cases hc : isFolded (!upper) c = true
    · rw [if_pos hc]
      refine iff_of_false List.not_mem_nil ?_
      rintro rfl
      exact hd hc
    · rw [if_neg hc]
      by_cases hfolded : isFolded upper c = true
      · rw [if_pos hfolded, List.mem_cons, List.mem_singleton]
        refine or_iff_left ?_
        rintro rfl
        exact hd (isFolded_switch hfolded)
      · rw [if_neg hfolded, List.mem_singleton]

theorem nodup_spellingsOf (upper : Bool) (c : Char) : (spellingsOf upper c).Nodup := by
  rw [spellingsOf]
  split
  · exact List.nodup_nil
  · split
    next hfolded => simpa using (switch_ne hfolded).symm
    next => exact List.nodup_cons.mpr ⟨List.not_mem_nil, List.nodup_nil⟩

theorem spellingsOf_eq_nil_iff {c : Char} :
    spellingsOf upper c = [] ↔ isFolded (!upper) c = true := by
  rw [spellingsOf]
  split
  next h => exact iff_of_true rfl h
  next h =>
    refine iff_of_false ?_ h
    split <;> simp

/-- A list of texts is that of the texts whose fold is the literal, each listed once. -/
structure Enumerates (upper : Bool) (literal : String) (texts : List String) : Prop where
  nodup : texts.Nodup
  mem_iff : ∀ s, s ∈ texts ↔ fold upper s = literal

theorem fold_eq_iff {s literal : String} :
    fold upper s = literal ↔ s.toList.map (foldChar upper) = literal.toList := by
  rw [fold_eq, ← String.toList_inj, String.toList_ofList]

/-- No text folds to a literal that holds a letter of the case that is folded away. -/
theorem fold_ne_of_mem {c : Char} {literal : String} (hc : c ∈ literal.toList)
    (hfolded : isFolded (!upper) c = true) (s : String) : fold upper s ≠ literal := by
  rw [Ne, fold_eq_iff]
  intro h
  rw [← h] at hc
  obtain ⟨d, -, hd⟩ := List.mem_map.mp hc
  have hmem := mem_spellingsOf.mpr hd
  rw [spellingsOf_eq_nil_iff.mpr hfolded] at hmem
  cases hmem

/-- A text is spelt with one of the characters that fold to each of the literal's. -/
abbrev Spells (upper : Bool) (literal text : List Char) : Prop :=
  List.Forall₂ (fun c d => d ∈ spellingsOf upper c) literal text

theorem spells_iff {literal text : List Char} :
    Spells upper literal text ↔ text.map (foldChar upper) = literal := by
  induction literal generalizing text with
  | nil => rw [Spells, List.forall₂_nil_left_iff, List.map_eq_nil_iff]
  | cons c literal ih =>
      rw [Spells, List.forall₂_cons_left_iff, List.map_eq_cons_iff]
      apply exists_congr
      intro d
      constructor
      · rintro ⟨text', hd, hrest, rfl⟩
        exact ⟨text', rfl, mem_spellingsOf.mp hd, ih.mp hrest⟩
      · rintro ⟨text', rfl, hd, hrest⟩
        exact ⟨text', mem_spellingsOf.mpr hd, ih.mpr hrest, rfl⟩

theorem fold_eq_iff_spells {s literal : String} :
    fold upper s = literal ↔ Spells upper literal.toList s.toList :=
  fold_eq_iff.trans spells_iff.symm

/-- An enumeration is empty when the literal holds a letter of the case that is folded
away, and only then. -/
theorem Enumerates.eq_nil_iff {literal : String} {texts : List String}
    (h : Enumerates upper literal texts) :
    texts = [] ↔ ∃ c ∈ literal.toList, isFolded (!upper) c = true := by
  constructor
  · intro hnil
    by_contra hreached
    have hself : fold upper literal = literal := by
      rw [fold_eq_iff_spells, Spells, List.forall₂_same]
      intro c hc
      have hkept : ¬ isFolded (!upper) c = true := fun hfolded => hreached ⟨c, hc, hfolded⟩
      rw [spellingsOf, if_neg hkept]
      split <;> simp
    have hmem := (h.mem_iff literal).mpr hself
    rw [hnil] at hmem
    cases hmem
  · rintro ⟨c, hc, hfolded⟩
    rw [List.eq_nil_iff_forall_not_mem]
    intro s hs
    exact fold_ne_of_mem hc hfolded s ((h.mem_iff s).mp hs)

end AsciiCase

/-! ## Comparisons -/

/-- `f(x) == literal` or `f(x) != literal`, with either operand first. -/
structure FoldComparison where
  upper : Bool
  isEqual : Bool
  foldFirst : Bool
  name : String
  literal : String

namespace FoldComparison

variable (c : FoldComparison)

def operator : PlanOperator :=
  if c.isEqual then .eq else .ne

/-- `f(x)` -/
def folded : Operand Double :=
  .expression (if c.upper then .upperAscii else .other "lowerAscii") [.var c.name]

def operands : List (Operand Double) :=
  if c.foldFirst then [c.folded, .value (.string c.literal)]
  else [.value (.string c.literal), c.folded]

/-- What CEL evaluates it to; a missing x is an error. -/
def truth : (x : Option String) → Truth
  | none => .unknown
  | some s => .ofBool ((AsciiCase.fold c.upper s = c.literal) == c.isEqual)

end FoldComparison

end QueryPlanAdapters
