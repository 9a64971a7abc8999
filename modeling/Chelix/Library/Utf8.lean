import Mathlib.Algebra.GroupWithZero.Nat
import Mathlib.Data.String.Basic

/-!
# Byte offsets of characters

A text is the list of its characters; an offset counts the bytes of their UTF-8 encoding.  An
offset inside a character cuts nothing.
-/

namespace Chelix.Library

open List

/-- The number of bytes of a text. -/
def utf8Len (text : List Char) : ℕ := (text.map Char.utf8Size).sum

/-- The offset of the character at some position. -/
def byteAt (text : List Char) (k : ℕ) : ℕ := utf8Len (text.take k)

/-- The parts of a text before and after an offset, unless it is inside a character or past the
end. -/
def splitAtByte : ℕ → List Char → Option (List Char × List Char)
  | 0, text => some ([], text)
  | _ + 1, [] => none
  | n + 1, c :: text =>
    if c.utf8Size ≤ n + 1 then
      (splitAtByte (n + 1 - c.utf8Size) text).map fun parts => (c :: parts.1, parts.2)
    else none

/-- The part of a text between two offsets. -/
def slice (text : List Char) (start stop : ℕ) : Option (List Char) :=
  if start ≤ stop then
    (splitAtByte start text).bind fun parts =>
      (splitAtByte (stop - start) parts.2).map Prod.fst
  else none

def charIndicesFrom : ℕ → List Char → List (ℕ × Char)
  | _, [] => []
  | offset, c :: text => (offset, c) :: charIndicesFrom (offset + c.utf8Size) text

/-- The characters of a text with their offsets. -/
def charIndices (text : List Char) : List (ℕ × Char) := charIndicesFrom 0 text

@[simp] theorem utf8Len_nil : utf8Len [] = 0 := rfl

@[simp] theorem utf8Len_cons (c : Char) (text : List Char) :
    utf8Len (c :: text) = c.utf8Size + utf8Len text := sum_cons

@[simp] theorem utf8Len_append (text text' : List Char) :
    utf8Len (text ++ text') = utf8Len text + utf8Len text' := by
  unfold utf8Len
  rw [map_append, sum_append]

theorem byteAt_length (text : List Char) : byteAt text text.length = utf8Len text := by
  unfold byteAt
  rw [take_length]

theorem byteAt_add (text : List Char) {i j : ℕ} (h : i ≤ j) :
    byteAt text j = byteAt text i + utf8Len ((text.take j).drop i) := by
  unfold byteAt
  rw [← utf8Len_append]
  congr 1
  have htake : text.take i = (text.take j).take i := by
    rw [take_take, Nat.min_eq_left h]
  rw [htake, take_append_drop]

theorem splitAtByte_zero (text : List Char) : splitAtByte 0 text = some ([], text) := by
  cases text <;> rfl

theorem splitAtByte_utf8Len (front back : List Char) :
    splitAtByte (utf8Len front) (front ++ back) = some (front, back) := by
  induction front with
  | nil => exact splitAtByte_zero _
  | cons c front ih =>
    have hpos : 0 < c.utf8Size := c.utf8Size_pos
    obtain ⟨n, hn⟩ : ∃ n, utf8Len (c :: front) = n + 1 := by
      rw [utf8Len_cons]
      exact ⟨c.utf8Size + utf8Len front - 1, by omega⟩
    have hlen : n + 1 = c.utf8Size + utf8Len front := hn ▸ utf8Len_cons c front
    have hrest : n + 1 - c.utf8Size = utf8Len front := by omega
    rw [hn, cons_append]
    unfold splitAtByte
    rw [if_pos (by omega), hrest, ih]
    rfl

/-- **A slice between characters** is the part of the text there. -/
theorem slice_byteAt (text : List Char) {i j : ℕ} (hij : i ≤ j) :
    slice text (byteAt text i) (byteAt text j) = some ((text.take j).drop i) := by
  have hadd := byteAt_add text hij
  have hdrop : text.drop i = (text.take j).drop i ++ text.drop j := by
    rw [drop_take]
    conv_lhs => rw [← take_append_drop (j - i) (text.drop i)]
    rw [drop_drop]
    congr 2
    omega
  unfold slice
  rw [if_pos (by omega)]
  have hfront : splitAtByte (byteAt text i) text = some (text.take i, text.drop i) := by
    have hcut := splitAtByte_utf8Len (text.take i) (text.drop i)
    rw [take_append_drop] at hcut
    exact hcut
  rw [hfront, Option.bind_some, hadd, Nat.add_sub_cancel_left, hdrop, splitAtByte_utf8Len]
  rfl

theorem getElem?_charIndicesFrom (offset : ℕ) (text : List Char) (k : ℕ) :
    (charIndicesFrom offset text)[k]? = text[k]?.map fun c => (offset + byteAt text k, c) := by
  induction text generalizing offset k with
  | nil => rfl
  | cons c text ih =>
    cases k with
    | zero => rfl
    | succ k =>
      have hbyte : byteAt (c :: text) (k + 1) = c.utf8Size + byteAt text k := by
        unfold byteAt
        rw [take_succ_cons, utf8Len_cons]
      unfold charIndicesFrom
      rw [List.getElem?_cons_succ, List.getElem?_cons_succ, ih, hbyte, Nat.add_assoc]

theorem getElem?_charIndices (text : List Char) (k : ℕ) :
    (charIndices text)[k]? = text[k]?.map fun c => (byteAt text k, c) := by
  unfold charIndices
  rw [getElem?_charIndicesFrom]
  simp

theorem length_charIndices (text : List Char) : (charIndices text).length = text.length := by
  have h : ∀ offset, (charIndicesFrom offset text).length = text.length := by
    induction text with
    | nil => exact fun _ => rfl
    | cons c text ih => exact fun offset => congrArg (· + 1) (ih _)
  exact h 0

/-! ## Bytes -/

def utf8Bytes (s : String) : List UInt8 := s.toUTF8.data.toList

def ofUtf8Bytes? (bytes : List UInt8) : Option String := String.fromUTF8? ⟨bytes.toArray⟩

theorem ofUtf8Bytes?_utf8Bytes (s : String) : ofUtf8Bytes? (utf8Bytes s) = some s := by
  unfold ofUtf8Bytes? utf8Bytes String.fromUTF8?
  rw [Array.toArray_toList]
  exact dif_pos s.isValidUTF8

theorem utf8Bytes_injective : Function.Injective utf8Bytes := by
  intro s t h
  have heq := congrArg ofUtf8Bytes? h
  rw [ofUtf8Bytes?_utf8Bytes, ofUtf8Bytes?_utf8Bytes] at heq
  exact Option.some.inj heq

/-! ## Errors -/

/-- How many bytes follow the first byte of a character, and the bounds of the first of them. -/
def followers (first : UInt8) : Option (ℕ × UInt8 × UInt8) :=
  if first < 0x80 then some (0, 0x80, 0xBF)
  else if first < 0xC2 then none
  else if first < 0xE0 then some (1, 0x80, 0xBF)
  else if first = 0xE0 then some (2, 0xA0, 0xBF)
  else if first = 0xED then some (2, 0x80, 0x9F)
  else if first < 0xF0 then some (2, 0x80, 0xBF)
  else if first = 0xF0 then some (3, 0x90, 0xBF)
  else if first < 0xF4 then some (3, 0x80, 0xBF)
  else if first = 0xF4 then some (3, 0x80, 0x8F)
  else none

/-- The bytes behind a character, or how many of its bytes were there before a wrong one; `none` if
the bytes end. -/
def skipFollowers (taken : ℕ) : ℕ → UInt8 → UInt8 → List UInt8 → Except (Option ℕ) (List UInt8)
  | 0, _, _, rest => .ok rest
  | _ + 1, _, _, [] => .error none
  | n + 1, low, high, byte :: rest =>
    if low ≤ byte ∧ byte ≤ high then skipFollowers (taken + 1) n 0x80 0xBF rest
    else .error (some taken)

structure Utf8Error where
  validUpTo : ℕ
  /-- The length of the wrong bytes, unless the bytes end in the middle of a character. -/
  errorLen : Option ℕ
  deriving DecidableEq

def utf8ErrorFrom : ℕ → ℕ → List UInt8 → Option Utf8Error
  | 0, _, _ | _ + 1, _, [] => none
  | fuel + 1, index, first :: rest =>
    match followers first with
    | none => some ⟨index, some 1⟩
    | some (n, low, high) =>
      match skipFollowers 1 n low high rest with
      | .ok rest => utf8ErrorFrom fuel (index + 1 + n) rest
      | .error errorLen => some ⟨index, errorLen⟩

/-- The first bytes that are no character.  Each turn consumes a byte. -/
def utf8Error (bytes : List UInt8) : Option Utf8Error := utf8ErrorFrom bytes.length 0 bytes

def Utf8Error.text (e : Utf8Error) : String :=
  match e.errorLen with
  | some errorLen =>
    "invalid utf-8 sequence of " ++ toString errorLen ++ " bytes from index " ++
      toString e.validUpTo
  | none => "incomplete utf-8 byte sequence from index " ++ toString e.validUpTo

example : utf8Error [97, 0xC3, 0xA9, 0xF0, 0x9F, 0x98, 0x80] = none ∧
    utf8Error [97, 0xED, 0xA0, 0x80] = some ⟨1, some 1⟩ ∧
    utf8Error [97, 0xF0, 0x9F, 0x98, 97] = some ⟨1, some 3⟩ ∧
    utf8Error [97, 98, 0xE2, 0x82] = some ⟨2, none⟩ := by
  decide

end Chelix.Library
