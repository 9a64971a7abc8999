import Mathlib.Data.List.Pairwise
import Mathlib.Data.Nat.Basic

/-!
# Spans that do not overlap

Of spans in the order of their starts, those are kept that begin in no span that was kept before.
-/

namespace Chelix.Library

open List

variable {α : Type*} (start stop : α → ℕ)

/-- The spans that are kept after one that ends at `bound`. -/
def keepAfter : (bound : ℕ) → List α → List α
  | _, [] => []
  | bound, a :: rest =>
    if start a < bound then keepAfter bound rest else a :: keepAfter (stop a) rest

def keepDisjoint : List α → List α
  | [] => []
  | a :: rest => a :: keepAfter start stop (stop a) rest

variable {start stop}

theorem keepAfter_sublist (bound : ℕ) (l : List α) : (keepAfter start stop bound l).Sublist l := by
  induction l generalizing bound with
  | nil => exact List.Sublist.refl _
  | cons a rest ih =>
    unfold keepAfter
    split
    · exact (ih bound).cons a
    · exact (ih (stop a)).cons_cons a

theorem keepDisjoint_sublist (l : List α) : (keepDisjoint start stop l).Sublist l := by
  cases l with
  | nil => exact List.Sublist.refl _
  | cons a rest => exact (keepAfter_sublist (stop a) rest).cons_cons a

variable {l : List α} {b : α}

theorem bound_le_of_mem_keepAfter {bound : ℕ} (hproper : ∀ a ∈ l, start a ≤ stop a)
    (h : b ∈ keepAfter start stop bound l) : bound ≤ start b := by
  induction l generalizing bound with
  | nil => cases h
  | cons a rest ih =>
    have hrest : ∀ a ∈ rest, start a ≤ stop a := fun a ha => hproper a (mem_cons_of_mem _ ha)
    unfold keepAfter at h
    split at h
    · exact ih hrest h
    · rename_i hle
      rcases mem_cons.mp h with rfl | h
      · omega
      · have hstop := ih hrest h
        have ha := hproper a mem_cons_self
        omega

theorem pairwise_keepAfter (bound : ℕ) (hproper : ∀ a ∈ l, start a ≤ stop a) :
    (keepAfter start stop bound l).Pairwise fun a b => stop a ≤ start b := by
  induction l generalizing bound with
  | nil => exact List.Pairwise.nil
  | cons a rest ih =>
    have hrest : ∀ a ∈ rest, start a ≤ stop a := fun a ha => hproper a (mem_cons_of_mem _ ha)
    unfold keepAfter
    split
    · exact ih bound hrest
    · exact pairwise_cons.mpr
        ⟨fun b hb => bound_le_of_mem_keepAfter hrest hb, ih (stop a) hrest⟩

/-- **The spans that are kept do not overlap.** -/
theorem pairwise_keepDisjoint (hproper : ∀ a ∈ l, start a ≤ stop a) :
    (keepDisjoint start stop l).Pairwise fun a b => stop a ≤ start b := by
  cases l with
  | nil => exact List.Pairwise.nil
  | cons a rest =>
    have hrest : ∀ a ∈ rest, start a ≤ stop a := fun a ha => hproper a (mem_cons_of_mem _ ha)
    exact pairwise_cons.mpr
      ⟨fun b hb => bound_le_of_mem_keepAfter hrest hb, pairwise_keepAfter (stop a) hrest⟩

theorem mem_keepAfter_or (bound : ℕ) {l : List α}
    (hsorted : l.Pairwise fun a b => start a ≤ start b) {b : α} (h : b ∈ l) :
    b ∈ keepAfter start stop bound l ∨ start b < bound ∨
      ∃ a ∈ keepAfter start stop bound l, start a ≤ start b ∧ start b < stop a := by
  induction l generalizing bound with
  | nil => cases h
  | cons a rest ih =>
    obtain ⟨hfirst, hsorted⟩ := pairwise_cons.mp hsorted
    unfold keepAfter
    split
    · rename_i hlt
      rcases mem_cons.mp h with rfl | h
      · exact .inr (.inl hlt)
      · exact ih bound hsorted h
    · rcases mem_cons.mp h with rfl | h
      · exact .inl mem_cons_self
      · rcases ih (stop a) hsorted h with hkept | hlt | ⟨c, hc, hle, hlt⟩
        · exact .inl (mem_cons_of_mem _ hkept)
        · exact .inr (.inr ⟨a, mem_cons_self, hfirst b h, hlt⟩)
        · exact .inr (.inr ⟨c, mem_cons_of_mem _ hc, hle, hlt⟩)

/-- **A span that is not kept** begins in one that is. -/
theorem mem_keepDisjoint_or (hsorted : l.Pairwise fun a b => start a ≤ start b) (h : b ∈ l) :
    b ∈ keepDisjoint start stop l ∨
      ∃ a ∈ keepDisjoint start stop l, start a ≤ start b ∧ start b < stop a := by
  cases l with
  | nil => cases h
  | cons a rest =>
    obtain ⟨hfirst, hsorted⟩ := pairwise_cons.mp hsorted
    rcases mem_cons.mp h with rfl | h
    · exact .inl mem_cons_self
    · rcases mem_keepAfter_or (stop a) hsorted h with hkept | hlt | ⟨c, hc, hle, hlt⟩
      · exact .inl (mem_cons_of_mem _ hkept)
      · exact .inr ⟨a, mem_cons_self, hfirst b h, hlt⟩
      · exact .inr ⟨c, mem_cons_of_mem _ hc, hle, hlt⟩

/-! ## Sets of spans -/

/-- A span of a set is kept unless one that is kept begins before it and ends behind its start. -/
def Kept (S : ℕ → ℕ → Prop) (k e : ℕ) : Prop :=
  S k e ∧ ∀ k' e', (_ : k' < k) → Kept S k' e' → e' ≤ k
termination_by k

/-- **Spans that do not overlap, in one of which each other span begins, are those kept.** -/
theorem kept_iff {S R : ℕ → ℕ → Prop} (hsub : ∀ k e, R k e → S k e)
    (hdisjoint : ∀ k e k' e', R k e → R k' e' → k' < k → e' ≤ k)
    (hcover : ∀ k e, S k e → R k e ∨ ∃ k' e', R k' e' ∧ k' < k ∧ k < e') (k e : ℕ) :
    Kept S k e ↔ R k e := by
  induction k using Nat.strong_induction_on generalizing e with
  | _ k ih =>
    rw [Kept]
    constructor
    · rintro ⟨hspan, hnone⟩
      rcases hcover k e hspan with hkept | ⟨k', e', hkept, hlt, hlt'⟩
      · exact hkept
      · have hle := hnone k' e' hlt ((ih k' hlt e').mpr hkept)
        omega
    · intro hkept
      exact ⟨hsub k e hkept, fun k' e' hlt hkept' =>
        hdisjoint k e k' e' hkept ((ih k' hlt e').mp hkept') hlt⟩

end Chelix.Library
