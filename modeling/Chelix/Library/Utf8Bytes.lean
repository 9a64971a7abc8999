import Chelix.Library.LineSplit
import Mathlib.Data.String.Basic

/-!
# UTF-8 as bytes

The encoding of a text, and the text that bytes encode.  An ASCII character is one byte, and no
other character holds an ASCII byte, so that a separator of lines is never inside a character.
-/

namespace Chelix.Library

open List

def encodeUtf8 (text : List Char) : List UInt8 := text.flatMap String.utf8EncodeChar

def decodeUtf8 (bytes : List UInt8) : Option (List Char) :=
  (bytes.toByteArray.utf8Decode?).map Array.toList

theorem decodeUtf8_encodeUtf8 (text : List Char) : decodeUtf8 (encodeUtf8 text) = some text := by
  have hencode : (encodeUtf8 text).toByteArray = text.utf8Encode := rfl
  unfold decodeUtf8
  rw [hencode, List.utf8Decode?_utf8Encode]
  rfl

theorem encodeUtf8_append (text text' : List Char) :
    encodeUtf8 (text ++ text') = encodeUtf8 text ++ encodeUtf8 text' := flatMap_append

theorem encodeUtf8_injective : Function.Injective encodeUtf8 := by
  intro text text' h
  have heq := congrArg decodeUtf8 h
  rw [decodeUtf8_encodeUtf8, decodeUtf8_encodeUtf8] at heq
  exact Option.some.inj heq

theorem utf8EncodeChar_of_ascii {c : Char} (h : c.toNat < 128) :
    String.utf8EncodeChar c = [UInt8.ofNat c.toNat] := by
  have hle : c.val.toNat ≤ 127 := Nat.le_of_lt_succ h
  unfold String.utf8EncodeChar
  exact if_pos hle

theorem le_of_mem_utf8EncodeChar {c : Char} (h : 128 ≤ c.toNat) {b : UInt8}
    (hb : b ∈ String.utf8EncodeChar c) : 128 ≤ b.toNat := by
  have hle : ¬c.val.toNat ≤ 127 := Nat.not_le.mpr h
  unfold String.utf8EncodeChar at hb
  simp only [if_neg hle] at hb
  split at hb
  · simp only [mem_cons, not_mem_nil, or_false] at hb
    rcases hb with rfl | rfl
    · rw [UInt8.toNat_ofNat']
      omega
    · rw [UInt8.toNat_ofNat']
      omega
  · split at hb
    · simp only [mem_cons, not_mem_nil, or_false] at hb
      rcases hb with rfl | rfl | rfl
      · rw [UInt8.toNat_ofNat']
        omega
      · rw [UInt8.toNat_ofNat']
        omega
      · rw [UInt8.toNat_ofNat']
        omega
    · simp only [mem_cons, not_mem_nil, or_false] at hb
      rcases hb with rfl | rfl | rfl | rfl
      · rw [UInt8.toNat_ofNat']
        omega
      · rw [UInt8.toNat_ofNat']
        omega
      · rw [UInt8.toNat_ofNat']
        omega
      · rw [UInt8.toNat_ofNat']
        omega

/-- The separators of lines as bytes. -/
def retByte : UInt8 := 13

def feedByte : UInt8 := 10

theorem eq_of_ascii_mem_utf8EncodeChar {c d : Char} (hd : d.toNat < 128)
    (h : UInt8.ofNat d.toNat ∈ String.utf8EncodeChar c) : c = d := by
  have hbyte : (UInt8.ofNat d.toNat).toNat = d.toNat := by
    rw [UInt8.toNat_ofNat']
    omega
  by_cases hc : c.toNat < 128
  · rw [utf8EncodeChar_of_ascii hc, mem_singleton] at h
    have heq := congrArg UInt8.toNat h
    rw [UInt8.toNat_ofNat', UInt8.toNat_ofNat'] at heq
    exact Char.toNat_inj.mp (by omega)
  · have hle := le_of_mem_utf8EncodeChar (Nat.not_lt.mp hc) h
    rw [hbyte] at hle
    omega

theorem encodesSeparators_utf8 :
    EncodesSeparators '\r' '\n' retByte feedByte String.utf8EncodeChar where
  ne := by decide
  ofRet := rfl
  ofFeed := rfl
  other c hret hfeed b hb := by
    constructor
    · rintro rfl
      exact hret (eq_of_ascii_mem_utf8EncodeChar (d := '\r') (by decide) hb)
    · rintro rfl
      exact hfeed (eq_of_ascii_mem_utf8EncodeChar (d := '\n') (by decide) hb)
  ne_nil _ := String.utf8EncodeChar_ne_nil

theorem getLast?_encodeUtf8_eq_feed {text : List Char} :
    (encodeUtf8 text).getLast? = some feedByte ↔ text.getLast? = some '\n' := by
  rcases eq_nil_or_concat text with rfl | ⟨front, c, rfl⟩
  · exact iff_of_false (fun h => by cases h) (fun h => by cases h)
  · have hlast : (encodeUtf8 (front ++ [c])).getLast? = (String.utf8EncodeChar c).getLast? := by
      have hsingle : encodeUtf8 [c] = String.utf8EncodeChar c := append_nil _
      rw [encodeUtf8_append, hsingle, List.getLast?_append,
        List.getLast?_eq_some_getLast String.utf8EncodeChar_ne_nil]
      rfl
    rw [concat_eq_append, hlast, List.getLast?_append]
    constructor
    · intro h
      have hmem := mem_of_getLast? h
      rw [eq_of_ascii_mem_utf8EncodeChar (d := '\n') (by decide) hmem]
      rfl
    · intro h
      obtain rfl : c = '\n' := Option.some.inj h
      rfl

end Chelix.Library
