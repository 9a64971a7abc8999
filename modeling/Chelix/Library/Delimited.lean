import Mathlib.Data.List.TakeWhile
import Mathlib.Data.String.Basic

/-!
# Reading a text up to a delimiter

A part of a text that ends where a predicate first fails can be read off the text.
-/

namespace Chelix.Library

variable {α : Type*} {p : α → Bool} {front front' rest rest' : List α}

theorem takeWhile_append_of_head? (hfront : ∀ c ∈ front, p c = true)
    (hrest : ∀ c ∈ rest.head?, p c = false) : (front ++ rest).takeWhile p = front := by
  rw [List.takeWhile_append_of_pos hfront]
  cases rest with
  | nil => rw [List.takeWhile_nil, List.append_nil]
  | cons c rest =>
    have hc := hrest c rfl
    rw [List.takeWhile_cons_of_neg (by rw [hc]; exact Bool.false_ne_true), List.append_nil]

/-- **A part that ends where a predicate first fails** is determined by the whole. -/
theorem append_inj_of_head? (hfront : ∀ c ∈ front, p c = true) (hfront' : ∀ c ∈ front', p c = true)
    (hrest : ∀ c ∈ rest.head?, p c = false) (hrest' : ∀ c ∈ rest'.head?, p c = false)
    (h : front ++ rest = front' ++ rest') : front = front' ∧ rest = rest' := by
  have heq : front = front' := by
    rw [← takeWhile_append_of_head? hfront hrest, h, takeWhile_append_of_head? hfront' hrest']
  subst heq
  exact ⟨rfl, List.append_cancel_left h⟩

/-! ## Decimal numbers -/

theorem isDigit_of_mem_toString {n : ℕ} {c : Char} (h : c ∈ (toString n).toList) :
    c.isDigit = true := by
  have hdigits : (toString n).toList = Nat.toDigits 10 n := Nat.toList_repr
  rw [hdigits] at h
  exact Nat.isDigit_of_mem_toDigits (by decide) (by decide) h

theorem toList_toString_injective {n m : ℕ} (h : (toString n).toList = (toString m).toList) :
    n = m := by
  have hdigits (k : ℕ) : (toString k).toList = Nat.toDigits 10 k := Nat.toList_repr
  rw [hdigits, hdigits] at h
  rw [← @Nat.ofDigitChars_ten_toDigits n, h, Nat.ofDigitChars_ten_toDigits]

/-- **A decimal number** in front of something that is not a digit is determined by the text. -/
theorem toString_append_inj {n m : ℕ} {x y : List Char}
    (hx : ∀ c ∈ x.head?, c.isDigit = false) (hy : ∀ c ∈ y.head?, c.isDigit = false)
    (h : (toString n).toList ++ x = (toString m).toList ++ y) : n = m ∧ x = y := by
  obtain ⟨hdigits, hrest⟩ := append_inj_of_head? (fun _ => isDigit_of_mem_toString)
    (fun _ => isDigit_of_mem_toString) hx hy h
  exact ⟨toList_toString_injective hdigits, hrest⟩

end Chelix.Library
