import Mathlib.Data.List.Forall2

/-!
# Computations that may fail

What a computation that succeeds tells about its parts.
-/

namespace Chelix.Library

open List

variable {ε α β : Type}

variable {f : α → Except ε β} {b : β}

theorem bind_eq_ok {x : Except ε α} : x >>= f = .ok b ↔ ∃ a, x = .ok a ∧ f a = .ok b := by
  cases x with
  | error e =>
    constructor
    · intro h
      cases h
    · rintro ⟨a, ha, -⟩
      cases ha
  | ok a =>
    constructor
    · intro h
      exact ⟨a, rfl, h⟩
    · rintro ⟨_, ha, h⟩
      cases ha
      exact h

theorem mapError_eq_ok {ε' : Type} {x : Except ε α} {f : ε → ε'} {a : α} :
    x.mapError f = .ok a ↔ x = .ok a := by
  cases x with
  | ok b =>
    constructor
    · intro h
      cases h
      rfl
    · intro h
      cases h
      rfl
  | error e =>
    constructor
    · intro h
      cases h
    · intro h
      cases h

theorem ok_bind (a : α) (f : α → Except ε β) : (Except.ok a >>= f) = f a := rfl

theorem guard_eq_ok {c : Prop} [Decidable c] {e : ε} {x : Except ε β} :
    (if c then throw e >>= f else x) = .ok b ↔ ¬c ∧ x = .ok b := by
  by_cases hc : c
  · rw [if_pos hc]
    constructor
    · intro h
      cases h
    · rintro ⟨hnc, -⟩
      exact absurd hc hnc
  · rw [if_neg hc]
    exact ⟨fun h => ⟨hc, h⟩, And.right⟩

variable {R : α → β → Prop} {l : List α} {l' : List β}

theorem exists_left_of_forall₂ (h : List.Forall₂ R l l') (hb : b ∈ l') : ∃ a ∈ l, R a b := by
  induction h with
  | nil => exact absurd hb not_mem_nil
  | @cons a b' l l' hab _ ih =>
    rcases mem_cons.mp hb with rfl | hb
    · exact ⟨a, mem_cons_self, hab⟩
    · obtain ⟨a', ha', hr⟩ := ih hb
      exact ⟨a', mem_cons_of_mem _ ha', hr⟩

theorem exists_right_of_forall₂ (h : List.Forall₂ R l l') {a : α} (ha : a ∈ l) :
    ∃ b ∈ l', R a b := by
  obtain ⟨b, hb, hr⟩ := exists_left_of_forall₂ h.flip ha
  exact ⟨b, hb, hr⟩

theorem pairwise_of_forall₂ {S : α → α → Prop} {S' : β → β → Prop}
    (hS : ∀ a a' b b', R a b → R a' b' → S a a' → S' b b') (h : List.Forall₂ R l l')
    (hl : l.Pairwise S) : l'.Pairwise S' := by
  induction h with
  | nil => exact List.Pairwise.nil
  | @cons a b l l' hab hrest ih =>
    rw [pairwise_cons] at hl ⊢
    refine ⟨fun b' hb' => ?_, ih hl.2⟩
    obtain ⟨a', ha', hr⟩ := exists_left_of_forall₂ hrest hb'
    exact hS a a' b b' hab hr (hl.1 a' ha')

/-- A list that is mapped without an error is mapped element by element. -/
theorem forall₂_of_mapM_eq_ok (h : l.mapM f = .ok l') :
    List.Forall₂ (fun a b => f a = .ok b) l l' := by
  induction l generalizing l' with
  | nil =>
    cases h
    exact List.Forall₂.nil
  | cons a l ih =>
    rw [mapM_cons, bind_eq_ok] at h
    obtain ⟨b, hb, h⟩ := h
    rw [bind_eq_ok] at h
    obtain ⟨rest, hrest, h⟩ := h
    cases h
    exact List.Forall₂.cons hb (ih hrest)

theorem rel_of_foldlM_eq_ok {σ τ : Type} {R : σ → τ → Prop} {f : σ → α → Except ε σ} {g : τ → α → τ}
    (hstep : ∀ s t a s', R s t → f s a = .ok s' → R s' (g t a)) {s s' : σ} {t : τ}
    (h : l.foldlM f s = .ok s') (hrel : R s t) : R s' (l.foldl g t) := by
  induction l generalizing s t with
  | nil =>
    cases h
    exact hrel
  | cons a l ih =>
    rw [foldlM_cons, bind_eq_ok] at h
    obtain ⟨next, hnext, hrest⟩ := h
    exact ih hrest (hstep s t a next hrel hnext)

theorem forall_of_forM_eq_ok {f : α → Except ε Unit} (h : l.forM f = .ok ()) :
    ∀ a ∈ l, f a = .ok () := by
  induction l with
  | nil => exact fun a ha => absurd ha not_mem_nil
  | cons a l ih =>
    obtain ⟨_, ha, hrest⟩ := bind_eq_ok.mp h
    exact forall_mem_cons.mpr ⟨ha, ih hrest⟩

/-- A list whose elements are all mapped without an error is mapped. -/
theorem exists_mapM_eq_ok (h : ∀ a ∈ l, ∃ b, f a = .ok b) : ∃ l', l.mapM f = .ok l' := by
  induction l with
  | nil => exact ⟨[], rfl⟩
  | cons a l ih =>
    obtain ⟨b, hb⟩ := h a mem_cons_self
    obtain ⟨rest, hrest⟩ := ih fun a' ha' => h a' (mem_cons_of_mem _ ha')
    refine ⟨b :: rest, ?_⟩
    rw [mapM_cons, hb, ok_bind, hrest]
    rfl

end Chelix.Library
