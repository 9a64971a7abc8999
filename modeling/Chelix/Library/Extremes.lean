import Mathlib.Data.Nat.SuccPred

/-!
# Pointers to the least and to the greatest number of a set

An optional number kept beside a growing and shrinking set of numbers, which should be its
least or its greatest element.
-/

namespace Chelix.Library

/-- The pointer is to the least number of a set, and empty if there is none. -/
def PointsToLeast (pointer : Option ℕ) (s : Set ℕ) : Prop :=
  ∀ u, pointer = some u ↔ IsLeast s u

/-- The pointer is to the greatest number of a set, and empty if there is none. -/
def PointsToGreatest (pointer : Option ℕ) (s : Set ℕ) : Prop :=
  ∀ c, pointer = some c ↔ IsGreatest s c

variable {pointer : Option ℕ} {s : Set ℕ} {i : ℕ}

theorem PointsToLeast.eq_none_iff (h : PointsToLeast pointer s) : pointer = none ↔ s = ∅ := by
  constructor
  · intro hnone
    by_contra hne
    have hbounded : BddBelow s := ⟨0, fun _ _ => Nat.zero_le _⟩
    obtain ⟨u, hu⟩ :=
      hbounded.exists_isLeast_of_nonempty (Set.nonempty_iff_ne_empty.mpr hne)
    rw [(h u).mpr hu] at hnone
    cases hnone
  · rintro rfl
    cases hp : pointer with
    | none => rfl
    | some u => exact ((h u).mp hp).1.elim

theorem PointsToLeast.push_iff (h : PointsToLeast pointer s) (hlt : ∀ j ∈ s, j < i) (p : Prop)
    (u : ℕ) : pointer = some u ∨ (pointer = none ∧ p ∧ u = i) ↔
      IsLeast {j | j ∈ s ∨ (j = i ∧ p)} u := by
  constructor
  · rintro (hu | ⟨hnone, hp, rfl⟩)
    · have hleast := (h u).mp hu
      refine ⟨.inl hleast.1, ?_⟩
      rintro j (hj | ⟨rfl, -⟩)
      · exact hleast.2 hj
      · exact Nat.le_of_lt (hlt _ hleast.1)
    · obtain rfl := h.eq_none_iff.mp hnone
      refine ⟨.inr ⟨rfl, hp⟩, ?_⟩
      rintro j (hj | ⟨rfl, -⟩)
      · exact hj.elim
      · exact Nat.le_refl _
  · rintro ⟨hu, hlower⟩
    cases hpointer : pointer with
    | some v =>
      have hv := (h v).mp hpointer
      rcases hu with hu | ⟨rfl, -⟩
      · exact .inl (congrArg some (hv.unique ⟨hu, fun j hj => hlower (.inl hj)⟩))
      · exact absurd (hlower (.inl hv.1)) (Nat.not_le_of_lt (hlt _ hv.1))
    | none =>
      obtain rfl := h.eq_none_iff.mp hpointer
      rcases hu with hu | ⟨rfl, hp⟩
      · exact hu.elim
      · exact .inr ⟨rfl, hp, rfl⟩

theorem PointsToLeast.push (h : PointsToLeast pointer s) (hlt : ∀ j ∈ s, j < i) (p : Prop)
    [Decidable p] : PointsToLeast (pointer.or (if p then some i else none))
      {j | j ∈ s ∨ (j = i ∧ p)} := by
  intro u
  rw [← h.push_iff hlt, Option.or_eq_some_iff]
  by_cases hp : p
  · simp [hp, eq_comm]
  · simp [hp]

theorem PointsToGreatest.push (h : PointsToGreatest pointer s) (hlt : ∀ j ∈ s, j < i) (p : Prop)
    [Decidable p] : PointsToGreatest (if p then some i else pointer)
      {j | j ∈ s ∨ (j = i ∧ p)} := by
  intro c
  by_cases hyes : p
  · rw [if_pos hyes]
    constructor
    · intro hc
      obtain rfl := Option.some.inj hc
      refine ⟨.inr ⟨rfl, hyes⟩, ?_⟩
      rintro j (hj | ⟨rfl, -⟩)
      · exact Nat.le_of_lt (hlt j hj)
      · exact Nat.le_refl _
    · rintro ⟨hc | ⟨rfl, -⟩, hupper⟩
      · exact absurd (hupper (.inr ⟨rfl, hyes⟩)) (Nat.not_le_of_lt (hlt c hc))
      · rfl
  · rw [if_neg hyes, h c]
    have hset : {j | j ∈ s ∨ (j = i ∧ p)} = s := by
      ext j
      exact ⟨fun hj => hj.elim id fun hj => absurd hj.2 hyes, .inl⟩
    rw [hset]

theorem pointsToGreatest_max? (l : List ℕ) : PointsToGreatest l.max? {j | j ∈ l} := by
  intro c
  rw [List.max?_eq_some_iff]
  exact Iff.rfl

theorem pointsToLeast_none_empty : PointsToLeast none ∅ := by
  intro u
  constructor
  · intro h
    cases h
  · intro h
    exact h.1.elim

theorem pointsToGreatest_none_empty : PointsToGreatest none ∅ := by
  intro c
  constructor
  · intro h
    cases h
  · intro h
    exact h.1.elim

theorem PointsToGreatest.eq_none_iff (h : PointsToGreatest pointer s) (hbounded : BddAbove s) :
    pointer = none ↔ s = ∅ := by
  constructor
  · intro hnone
    by_contra hne
    obtain ⟨c, hc⟩ :=
      hbounded.exists_isGreatest_of_nonempty (Set.nonempty_iff_ne_empty.mpr hne)
    rw [(h c).mpr hc] at hnone
    cases hnone
  · rintro rfl
    cases hp : pointer with
    | none => rfl
    | some c => exact ((h c).mp hp).1.elim

/-! ## One number that comes or goes -/

section Replace

variable {α : Type*} [LinearOrder α] {s s' : Set α} {i j c : α}

end Replace

end Chelix.Library
