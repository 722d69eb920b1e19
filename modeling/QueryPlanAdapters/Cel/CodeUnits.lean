import QueryPlanAdapters.Cel.Text
import QueryPlanAdapters.Logic.Lexicographic
import Mathlib.Data.Char

/-!
# Texts as JavaScript holds them

A JavaScript string is a sequence of 16-bit code units; a character outside the
basic plane takes two of them, a surrogate pair. The evaluators compare strings
by code point with a loop over the code units of both. It answers with the sign
of the lexicographic order of the code points, which on well-formed strings is
the order of their UTF-8 bytes.
-/

namespace QueryPlanAdapters

/-- The code units of a JavaScript string. -/
abbrev CodeUnits := List UInt16

namespace CodeUnits

def isLeading (u : UInt16) : Bool :=
  0xD800 ≤ u && u ≤ 0xDBFF

def isTrailing (u : UInt16) : Bool :=
  0xDC00 ≤ u && u ≤ 0xDFFF

/-- The code point of a surrogate pair. -/
def pairValue (leading trailing : UInt16) : Nat :=
  (leading.toNat - 0xD800) * 0x400 + (trailing.toNat - 0xDC00) + 0x10000

/-- `text.codePointAt(index)`. A surrogate outside a pair is a code point by itself. -/
def codePointAt (text : CodeUnits) (index : Nat) : Option Nat :=
  match text[index]?, text[index + 1]? with
  | some leading, some trailing =>
      if isLeading leading && isTrailing trailing then some (pairValue leading trailing)
      else some leading.toNat
  | some unit, none => some unit.toNat
  | none, _ => none

/-- How many code units a code point takes. -/
def width (codePoint : Nat) : Nat :=
  if 0xffff < codePoint then 2 else 1

theorem width_pos (codePoint : Nat) : 0 < width codePoint := by
  rw [width]
  split <;> decide

/-- The loop of `compareCodePoints`, from an index into each string. -/
def compareLoop (a b : CodeUnits) (i j : Nat) : Int :=
  if i < a.length ∧ j < b.length then
    let x := (codePointAt a i).getD 0
    let y := (codePointAt b j).getD 0
    if x ≠ y then if x < y then -1 else 1
    else compareLoop a b (i + width x) (j + width y)
  else (if i < a.length then 1 else 0) - (if j < b.length then 1 else 0)
termination_by a.length - i
decreasing_by
  have := width_pos ((codePointAt a i).getD 0)
  omega

/-- Negative, zero or positive as `a` orders before, with or after `b` by
Unicode code point. -/
def compareCodePoints (a b : CodeUnits) : Int :=
  compareLoop a b 0 0

/-! ## The code points of a string -/

/-- The code points from the front, a surrogate pair read as one. -/
def codePoints : CodeUnits → List Nat
  | [] => []
  | [unit] => [unit.toNat]
  | leading :: trailing :: rest =>
      if isLeading leading && isTrailing trailing then pairValue leading trailing :: codePoints rest
      else leading.toNat :: codePoints (trailing :: rest)

theorem codePoints_of_index {text : CodeUnits} {i : Nat} (h : i < text.length) :
    codePoints (text.drop i) =
      (codePointAt text i).getD 0 ::
        codePoints (text.drop (i + width ((codePointAt text i).getD 0))) := by
  have hunit : ∀ u : UInt16, width u.toNat = 1 := by
    intro u
    have := u.toNat_lt
    rw [width, if_neg (by omega)]
  have hpair : ∀ leading trailing, width (pairValue leading trailing) = 2 := by
    intro leading trailing
    rw [width, if_pos (by unfold pairValue; omega)]
  have hdrop : ∀ n, text.drop (i + n) = (text.drop i).drop n := fun n => by
    rw [List.drop_drop]
  have hget : ∀ n, text[i + n]? = (text.drop i)[n]? := fun n => by rw [List.getElem?_drop]
  have hfirst := hget 0
  rw [Nat.add_zero] at hfirst
  rw [codePointAt, hfirst, hget, hdrop]
  cases hrest : text.drop i with
  | nil => exact absurd (List.drop_eq_nil_iff.mp hrest) (by omega)
  | cons leading rest =>
      cases rest with
      | nil => simp [codePoints, hunit]
      | cons trailing rest =>
          rw [codePoints]
          cases hsurrogates : isLeading leading && isTrailing trailing with
          | true => simp [hsurrogates, hpair]
          | false => simp [hsurrogates, hunit]

/-- From any two indices the loop compares the code points that are left. -/
theorem compareLoop_eq (a b : CodeUnits) (i j : Nat) :
    compareLoop a b i j = orderSign (codePoints (a.drop i)) (codePoints (b.drop j)) := by
  induction i, j using compareLoop.induct a b with
  | case1 i j hin x y hne hlt =>
      rw [compareLoop, if_pos hin, codePoints_of_index hin.1, codePoints_of_index hin.2,
        orderSign_cons_of_ne hne, orderSign, if_neg hne]
      exact if_pos hne
  | case2 i j hin x y hne hnot =>
      rw [compareLoop, if_pos hin, codePoints_of_index hin.1, codePoints_of_index hin.2,
        orderSign_cons_of_ne hne, orderSign, if_neg hne]
      exact if_pos hne
  | case3 i j hin x y heq ih =>
      obtain heq : x = y := not_ne_iff.mp heq
      rw [compareLoop, if_pos hin, codePoints_of_index hin.1, codePoints_of_index hin.2]
      refine (if_neg (not_ne_iff.mpr heq)).trans (ih.trans ?_)
      rw [← orderSign_cons_self (a := x)]
      exact congrArg (fun z => orderSign (x :: _) (z :: _)) heq
  | case4 i j hout =>
      rw [compareLoop, if_neg hout]
      by_cases hi : i < a.length
      · have hj : ¬ j < b.length := fun hj => hout ⟨hi, hj⟩
        rw [List.drop_eq_nil_of_le (by omega : b.length ≤ j), codePoints_of_index hi, codePoints,
          orderSign_cons_nil, if_pos hi, if_neg hj]
        rfl
      · rw [List.drop_eq_nil_of_le (by omega : a.length ≤ i), codePoints, if_neg hi]
        by_cases hj : j < b.length
        · rw [codePoints_of_index hj, orderSign_nil_cons, if_pos hj]
          rfl
        · rw [List.drop_eq_nil_of_le (by omega : b.length ≤ j), codePoints, orderSign_self,
            if_neg hj]
          rfl

theorem compareCodePoints_eq (a b : CodeUnits) :
    compareCodePoints a b = orderSign (codePoints a) (codePoints b) := by
  rw [compareCodePoints, compareLoop_eq, List.drop_zero, List.drop_zero]

/-- The code units of a code point. -/
def encode (codePoint : Nat) : CodeUnits :=
  if 0xffff < codePoint then
    [UInt16.ofNat ((codePoint - 0x10000) / 0x400 + 0xD800),
      UInt16.ofNat ((codePoint - 0x10000) % 0x400 + 0xDC00)]
  else [UInt16.ofNat codePoint]

theorem encode_pairValue {leading trailing : UInt16} (hleading : isLeading leading = true)
    (htrailing : isTrailing trailing = true) :
    encode (pairValue leading trailing) = [leading, trailing] := by
  simp only [isLeading, isTrailing, Bool.and_eq_true, decide_eq_true_eq,
    UInt16.le_iff_toNat_le, UInt16.reduceToNat] at hleading htrailing
  rw [encode, if_pos (by unfold pairValue; omega)]
  have hhigh : (pairValue leading trailing - 0x10000) / 0x400 + 0xD800 = leading.toNat := by
    unfold pairValue
    omega
  have hlow : (pairValue leading trailing - 0x10000) % 0x400 + 0xDC00 = trailing.toNat := by
    unfold pairValue
    omega
  rw [hhigh, hlow, UInt16.ofNat_toNat, UInt16.ofNat_toNat]

theorem encode_toNat (unit : UInt16) : encode unit.toNat = [unit] := by
  have := unit.toNat_lt
  rw [encode, if_neg (by omega), UInt16.ofNat_toNat]

/-- Nothing of a string is lost in its code points. -/
theorem flatMap_encode_codePoints (text : CodeUnits) : (codePoints text).flatMap encode = text := by
  induction text using codePoints.induct with
  | case1 => rfl
  | case2 unit => simp [codePoints, encode_toNat]
  | case3 leading trailing rest hpair ih =>
      have hsurrogates := hpair
      rw [Bool.and_eq_true] at hpair
      rw [codePoints, if_pos hsurrogates, List.flatMap_cons, ih,
        encode_pairValue hpair.1 hpair.2]
      rfl
  | case4 leading trailing rest hpair ih =>
      rw [codePoints, if_neg hpair, List.flatMap_cons, ih, encode_toNat]
      rfl

theorem codePoints_injective {a b : CodeUnits} : codePoints a = codePoints b ↔ a = b := by
  constructor
  · intro h
    rw [← flatMap_encode_codePoints a, h, flatMap_encode_codePoints]
  · rintro rfl
    rfl

/-! ## Well-formed strings -/

/-- No surrogate stands outside a pair. -/
def isWellFormed : CodeUnits → Bool
  | [] => true
  | [unit] => !isLeading unit && !isTrailing unit
  | leading :: trailing :: rest =>
      if isLeading leading && isTrailing trailing then isWellFormed rest
      else !isLeading leading && !isTrailing leading && isWellFormed (trailing :: rest)

theorem isValidChar_pairValue {leading trailing : UInt16} (hleading : isLeading leading = true)
    (htrailing : isTrailing trailing = true) : (pairValue leading trailing).isValidChar := by
  simp only [isLeading, isTrailing, Bool.and_eq_true, decide_eq_true_eq,
    UInt16.le_iff_toNat_le, UInt16.reduceToNat] at hleading htrailing
  right
  unfold pairValue
  omega

theorem isValidChar_toNat {unit : UInt16} (hleading : isLeading unit = false)
    (htrailing : isTrailing unit = false) : unit.toNat.isValidChar := by
  have := unit.toNat_lt
  simp only [isLeading, isTrailing, Bool.and_eq_false_iff, decide_eq_false_iff_not,
    UInt16.le_iff_toNat_le, UInt16.reduceToNat] at hleading htrailing
  rw [Nat.isValidChar]
  omega

/-- Every code point of a well-formed string is a character's. -/
theorem isValidChar_of_isWellFormed {text : CodeUnits} (h : isWellFormed text = true) :
    ∀ codePoint ∈ codePoints text, codePoint.isValidChar := by
  induction text using codePoints.induct with
  | case1 => exact List.forall_mem_nil _
  | case2 unit =>
      simp only [isWellFormed, Bool.and_eq_true, Bool.not_eq_true'] at h
      rw [codePoints, List.forall_mem_singleton]
      exact isValidChar_toNat h.1 h.2
  | case3 leading trailing rest hpair ih =>
      rw [isWellFormed, if_pos hpair] at h
      rw [codePoints, if_pos hpair]
      rw [Bool.and_eq_true] at hpair
      exact List.forall_mem_cons.mpr ⟨isValidChar_pairValue hpair.1 hpair.2, ih h⟩
  | case4 leading trailing rest hpair ih =>
      rw [isWellFormed, if_neg hpair] at h
      simp only [Bool.and_eq_true, Bool.not_eq_true'] at h
      rw [codePoints, if_neg hpair]
      exact List.forall_mem_cons.mpr ⟨isValidChar_toNat h.1.1 h.1.2, ih h.2⟩

end CodeUnits

theorem toNat_ofNat {n : Nat} (h : n.isValidChar) : (Char.ofNat n).toNat = n := by
  rw [Char.ofNat, dif_pos h]
  rfl

/-- A well-formed JavaScript string. -/
structure Utf16String where
  units : CodeUnits
  wellFormed : units.isWellFormed = true

namespace Utf16String

def codePoints (t : Utf16String) : List Nat :=
  t.units.codePoints

/-- The characters of the string. -/
def text (t : Utf16String) : String :=
  String.ofList (t.codePoints.map Char.ofNat)

theorem map_toNat_text (t : Utf16String) : t.text.toList.map Char.toNat = t.codePoints := by
  rw [text, String.toList_ofList, List.map_map]
  calc t.codePoints.map (Char.toNat ∘ Char.ofNat)
      = t.codePoints.map id := by
        apply List.map_congr_left
        intro codePoint h
        have hvalid := CodeUnits.isValidChar_of_isWellFormed t.wellFormed codePoint h
        exact toNat_ofNat hvalid
    _ = t.codePoints := List.map_id _

theorem text_inj {a b : Utf16String} : a.text = b.text ↔ a.codePoints = b.codePoints := by
  constructor
  · intro h
    rw [← map_toNat_text, h, map_toNat_text]
  · intro h
    rw [text, text, h]

end Utf16String

/-! ## The order of texts -/

theorem compareCodePoints_eq_orderSign (as bs : List Char) :
    compareCodePoints as bs = orderSign as bs := by
  induction as generalizing bs with
  | nil =>
      cases bs with
      | nil => rw [orderSign_self, compareCodePoints]
      | cons b bs => rw [orderSign_nil_cons, compareCodePoints]
  | cons a as ih =>
      cases bs with
      | nil => rw [orderSign_cons_nil, compareCodePoints]
      | cons b bs =>
          rw [compareCodePoints]
          by_cases hab : a = b
          · rw [if_neg (not_ne_iff.mpr hab), ih, hab, orderSign_cons_self]
          · rw [if_pos hab, orderSign_cons_of_ne hab, orderSign, if_neg hab]
            rfl

/-- Characters stand in the order of their code points. -/
theorem map_toNat_lt_iff {as bs : List Char} : as.map Char.toNat < bs.map Char.toNat ↔ as < bs := by
  have h := @flatMap_lt_flatMap_iff Char Nat _ _ (fun c => [c.toNat]) (fun _ => by simp)
    (fun a b hab => .inl (UInt32.lt_iff_toNat_lt.mp hab)) as bs
  rwa [← List.map_eq_flatMap, ← List.map_eq_flatMap] at h

/-- The bytes that a character takes in UTF-8. -/
def utf8Code (c : Char) : List Nat :=
  (String.utf8EncodeChar c).map UInt8.toNat

/-- The bytes of a text in UTF-8. -/
def utf8Bytes (s : String) : List Nat :=
  s.toUTF8.data.toList.map UInt8.toNat

theorem utf8Bytes_eq (s : String) : utf8Bytes s = s.toList.flatMap utf8Code := by
  have h : s.toUTF8 = s.toList.utf8Encode := String.utf8Encode_toList.symm
  rw [utf8Bytes, h, List.utf8Encode, List.toList_data_toByteArray, List.map_flatMap]
  rfl

theorem utf8Code_eq (c : Char) :
    utf8Code c =
      if c.toNat ≤ 0x7f then [c.toNat]
      else if c.toNat ≤ 0x7ff then [c.toNat / 64 + 0xc0, c.toNat % 64 + 0x80]
      else if c.toNat ≤ 0xffff then
        [c.toNat / 4096 + 0xe0, c.toNat / 64 % 64 + 0x80, c.toNat % 64 + 0x80]
      else [c.toNat / 262144 + 0xf0, c.toNat / 4096 % 64 + 0x80, c.toNat / 64 % 64 + 0x80,
        c.toNat % 64 + 0x80] := by
  have hvalid : c.toNat < 0x110000 := by
    have := c.valid
    rw [UInt32.isValidChar, Nat.isValidChar] at this
    rw [Char.toNat]
    omega
  rw [Char.toNat] at hvalid ⊢
  rw [utf8Code, String.utf8EncodeChar]
  split
  · rw [List.map_singleton, UInt8.toNat_ofNat', Nat.mod_eq_of_lt (by omega)]
  · split
    · simp only [List.map_cons, List.map_nil, UInt8.toNat_ofNat', List.cons.injEq, and_true]
      omega
    · split
      · simp only [List.map_cons, List.map_nil, UInt8.toNat_ofNat', List.cons.injEq, and_true]
        omega
      · simp only [List.map_cons, List.map_nil, UInt8.toNat_ofNat', List.cons.injEq, and_true]
        omega

theorem utf8Code_partsBelow {a b : Char} (h : a < b) : PartsBelow (utf8Code a) (utf8Code b) := by
  have h : a.toNat < b.toNat := UInt32.lt_iff_toNat_lt.mp h
  rw [utf8Code_eq, utf8Code_eq]
  split_ifs <;> simp only [PartsBelow, and_false, or_false] <;> omega

end QueryPlanAdapters
