import Mathlib.Data.Nat.ModEq
import Mathlib.Order.Bounds.Basic

/-!
# Words of 64 bits and progressions

An operation on words whose result does not fit stops a build with overflow checks and wraps in
one without.  Either way it yields the exact result only if that fits.
-/

namespace Chelix.Library

/-- Whether overflow is checked. -/
inductive Build where
  | checked
  | wrapping
  deriving DecidableEq

/-- The word of a result; nothing, where the program stops. -/
def Build.word (build : Build) (n : ℕ) : Option ℕ :=
  if n < 2 ^ 64 then some n
  else
    match build with
    | .checked => none
    | .wrapping => some (n % 2 ^ 64)

namespace Build

variable {build : Build} {n m : ℕ}

theorem word_of_lt (h : n < 2 ^ 64) : build.word n = some n := if_pos h

theorem lt_of_word (h : build.word n = some m) : m < 2 ^ 64 := by
  unfold word at h
  split at h
  · rename_i hlt
    cases h
    exact hlt
  · cases build with
    | checked => cases h
    | wrapping =>
      cases h
      exact Nat.mod_lt _ (by decide)

end Build

/-! ## Decimal digits -/

/-- The number that decimal digits write. -/
def decimalValue (digits : List Char) : ℕ :=
  digits.foldl (fun n c => 10 * n + (c.toNat - '0'.toNat)) 0

/-- A text without a plus sign before it. -/
def unsigned : List Char → List Char
  | '+' :: digits => digits
  | digits => digits

/-- A word in decimal, with an optional plus sign. -/
def readWord (text : List Char) : Option ℕ :=
  if unsigned text ≠ [] ∧ (unsigned text).all Char.isDigit = true then
    if decimalValue (unsigned text) < 2 ^ 64 then some (decimalValue (unsigned text)) else none
  else none

theorem digit_or_plus_of_readWord {text : List Char} {n : ℕ} (h : readWord text = some n) :
    ∀ c ∈ text, c.isDigit = true ∨ c = '+' := by
  unfold readWord at h
  split at h
  · rename_i hdigits
    have hall := List.all_eq_true.mp hdigits.2
    intro c hc
    cases text with
    | nil => cases hc
    | cons first text =>
      by_cases hplus : first = '+'
      · subst hplus
        rcases List.mem_cons.mp hc with rfl | hc
        · exact .inr rfl
        · exact .inl (hall c hc)
      · have hunsigned : unsigned (first :: text) = first :: text := by
          unfold unsigned
          split
          · rename_i heq
            exact absurd (List.cons.inj heq).1 hplus
          · rfl
        rw [hunsigned] at hall
        exact .inl (hall c hc)
  · cases h

/-! ## Progressions -/

/-- The first member after `now` of the progression that starts at `anchor` with the difference
`step`. -/
def nextInProgression (step anchor now : ℕ) : ℕ :=
  if now < anchor then anchor else anchor + ((now - anchor) / step + 1) * step

theorem isLeast_nextInProgression {step : ℕ} (hstep : 0 < step) (anchor now : ℕ) :
    IsLeast {t | now < t ∧ anchor ≤ t ∧ t ≡ anchor [MOD step]}
      (nextInProgression step anchor now) := by
  unfold nextInProgression
  split
  · rename_i hanchor
    exact ⟨⟨hanchor, le_rfl, rfl⟩, fun t ht => ht.2.1⟩
  · rename_i hanchor
    have hdiv := Nat.div_add_mod (now - anchor) step
    have hmod := Nat.mod_lt (now - anchor) hstep
    have hnext : ((now - anchor) / step + 1) * step =
        step * ((now - anchor) / step) + step := by
      rw [Nat.add_mul, Nat.mul_comm, Nat.one_mul]
    refine ⟨⟨?_, Nat.le_add_right _ _, ?_⟩, fun t ht => ?_⟩
    · omega
    · change (anchor + _) % step = anchor % step
      rw [Nat.add_mul_mod_self_right]
    · obtain ⟨hnow, hle, hmodeq⟩ := ht
      -- a member is a whole number of steps after the anchor
      obtain ⟨k, hk⟩ := (Nat.modEq_iff_dvd' hle).mp hmodeq.symm
      have hlt : (now - anchor) / step < k := by
        refine (Nat.div_lt_iff_lt_mul hstep).mpr ?_
        rw [Nat.mul_comm, ← hk]
        omega
      have hmul : ((now - anchor) / step + 1) * step ≤ k * step :=
        Nat.mul_le_mul_right step hlt
      rw [Nat.mul_comm k, ← hk] at hmul
      omega

end Chelix.Library
