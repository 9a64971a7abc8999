import Mathlib.Data.List.MinMax
import Mathlib.Data.Finset.Basic

/-!
# Numbered collections

The members of a collection get increasing numbers as they are added, and keep them.
-/

namespace Chelix.Library

variable {ι : Type*}

structure Numbering (ι : Type*) where
  next : ℕ
  number : ι → Option ℕ

namespace Numbering

/-- Distinct numbers, all below the next one, which is that behind the last. -/
structure Sound (n : Numbering ι) : Prop where
  injective : ∀ i j p, n.number i = some p → n.number j = some p → i = j
  below : ∀ i p, n.number i = some p → p < n.next
  last : n.next = 0 ∨ ∃ i, n.number i = some (n.next - 1)

def empty : Numbering ι where
  next := 0
  number := fun _ => none

theorem Sound.empty : (Numbering.empty : Numbering ι).Sound where
  injective := by
    intro i j p h
    cases h
  below := by
    intro i p h
    cases h
  last := .inl rfl

/-- Every member keeps its number. -/
def Extends (n m : Numbering ι) : Prop := ∀ i p, n.number i = some p → m.number i = some p

theorem Extends.refl (n : Numbering ι) : n.Extends n := fun _ _ h => h

theorem Extends.trans {n m k : Numbering ι} (h : n.Extends m) (h' : m.Extends k) : n.Extends k :=
  fun i p hp => h' i p (h i p hp)

variable [DecidableEq ι]

/-- A new member gets the next number. -/
def add (n : Numbering ι) (i : ι) : Numbering ι where
  next := n.next + 1
  number := fun j => if j = i then some n.next else n.number j

theorem number_add_self (n : Numbering ι) (i : ι) : (n.add i).number i = some n.next :=
  if_pos rfl

theorem extends_add {n : Numbering ι} {i : ι} (h : n.number i = none) : n.Extends (n.add i) := by
  intro j p hp
  have hne : j ≠ i := by
    rintro rfl
    rw [h] at hp
    cases hp
  exact (if_neg hne).trans hp

omit [DecidableEq ι] in
/-- **A member has a number above another** if the next one is above the one behind it. -/
theorem Sound.exists_above_iff {n : Numbering ι} (h : n.Sound) (p : ℕ) :
    (∃ i q, n.number i = some q ∧ p < q) ↔ p + 1 < n.next := by
  constructor
  · rintro ⟨i, q, hq, hlt⟩
    have := h.below i q hq
    omega
  · intro hlt
    rcases h.last with hzero | ⟨i, hi⟩
    · omega
    · exact ⟨i, _, hi, by omega⟩

theorem Sound.add {n : Numbering ι} (h : n.Sound) (i : ι) : (n.add i).Sound where
  injective := by
    have hself : ∀ j, n.number j = some n.next → False := fun j hj =>
      absurd (h.below j _ hj) (Nat.lt_irrefl _)
    intro j k p hj hk
    unfold Numbering.add at hj hk
    simp only at hj hk
    split at hj
    · rename_i hji
      split at hk
      · rename_i hki
        rw [hji, hki]
      · obtain rfl := Option.some.inj hj
        exact (hself k hk).elim
    · split at hk
      · obtain rfl := Option.some.inj hk
        exact (hself j hj).elim
      · exact h.injective j k p hj hk
  below := by
    intro j p hj
    unfold Numbering.add at hj ⊢
    simp only at hj ⊢
    split at hj
    · obtain rfl := Option.some.inj hj
      exact Nat.lt_succ_self _
    · exact Nat.lt_succ_of_lt (h.below j p hj)
  last := .inr ⟨i, number_add_self n i⟩

end Numbering

end Chelix.Library
