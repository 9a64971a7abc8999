import Mathlib.Logic.Function.Basic

/-!
# Debts

Parties that interleave break a fact for a while and restore it later.  What holds at every
moment is that the fact holds or that some party still owes its restoration; when no party owes
anything, the fact holds.
-/

namespace Chelix.Library

variable {ι Phase : Type*}

/-- The fact holds, or a party owes it. -/
def Settled (fact : Prop) (owes : Phase → Bool) (phase : ι → Phase) : Prop :=
  fact ∨ ∃ i, owes (phase i) = true

namespace Settled

variable {fact fact' : Prop} {owes : Phase → Bool} {phase : ι → Phase}

theorem fact_of_forall (h : Settled fact owes phase) (hnone : ∀ i, owes (phase i) = false) :
    fact := by
  rcases h with hfact | ⟨i, howes⟩
  · exact hfact
  · rw [hnone i] at howes
    cases howes

variable [DecidableEq ι] {i : ι} {next : Phase}

theorem of_owes (hnext : owes next = true) :
    Settled fact owes (Function.update phase i next) :=
  .inr ⟨i, by rw [Function.update_self, hnext]⟩

theorem update {old : Phase} (h : Settled fact owes phase) (hold : phase i = old)
    (howes : owes old = true → owes next = true) :
    Settled fact owes (Function.update phase i next) := by
  rcases h with hfact | ⟨j, hj⟩
  · exact .inl hfact
  · by_cases heq : j = i
    · rw [heq, hold] at hj
      exact of_owes (howes hj)
    · exact .inr ⟨j, by rw [Function.update_of_ne heq, hj]⟩

end Settled

end Chelix.Library
