import Mathlib.Data.Nat.Basic

/-!
# Loops

A loop takes a step as long as there is one.  It is run a number of times that is given; where
every step decreases a measure, the loop is over when it was run as often as the measure says.
-/

namespace Chelix.Library

variable {σ : Type*}

def loop (step : σ → Option σ) : ℕ → σ → σ
  | 0, s => s
  | n + 1, s =>
    match step s with
    | some t => loop step n t
    | none => s

variable {step : σ → Option σ} {s : σ}

theorem loop_of_none (h : step s = none) (n : ℕ) : loop step n s = s := by
  cases n with
  | zero => rfl
  | succ n =>
    unfold loop
    rw [h]

theorem loop_of_some {t : σ} (h : step s = some t) (n : ℕ) :
    loop step (n + 1) s = loop step n t := by
  rw [loop, h]

theorem loop_invariant {P : σ → Prop} (hstep : ∀ s t, P s → step s = some t → P t) (n : ℕ)
    (hs : P s) : P (loop step n s) := by
  induction n generalizing s with
  | zero => exact hs
  | succ n ih =>
    unfold loop
    cases h : step s with
    | none => exact hs
    | some t => exact ih (hstep s t hs h)

theorem loop_done (measure : σ → ℕ) (hstep : ∀ s t, step s = some t → measure t < measure s) {n : ℕ}
    (hn : measure s ≤ n) : step (loop step n s) = none := by
  induction n generalizing s with
  | zero =>
    cases h : step s with
    | none => exact h
    | some t =>
      have hlt := hstep s t h
      omega
  | succ n ih =>
    cases h : step s with
    | none =>
      rw [loop_of_none h]
      exact h
    | some t =>
      have hlt := hstep s t h
      rw [loop_of_some h]
      exact ih (by omega)

end Chelix.Library
