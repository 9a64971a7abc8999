import Mathlib.Data.Nat.Notation

/-!
# Critical sections

A section reads and writes a state and may fail; what it wrote before it failed stays written.
The state after a section is known from its result, and a sequence of two sections that succeeds
is a success of both.
-/

namespace Chelix.Library

/-- A section of a state `σ` that fails with an error of type `ε`. -/
abbrev CriticalSection (ε σ α : Type) := EStateM ε σ α

namespace CriticalSection

variable {ε σ α β : Type} {s s' : σ}

/-- The state that a section leaves, whether it succeeds or not. -/
def stateAfter (x : CriticalSection ε σ α) (s : σ) : σ :=
  match x s with
  | .ok _ s' => s'
  | .error _ s' => s'

def result (x : CriticalSection ε σ α) (s : σ) : Except ε α :=
  match x s with
  | .ok a _ => .ok a
  | .error e _ => .error e

/-- Runs a fallible computation that does not use the state. -/
def lift (x : Except ε α) : CriticalSection ε σ α :=
  match x with
  | .ok a => pure a
  | .error e => throw e

variable {f : α → CriticalSection ε σ β}

theorem bind_ok_iff {x : CriticalSection ε σ α} {b : β} :
    (x >>= f) s = .ok b s' ↔ ∃ a s₁, x s = .ok a s₁ ∧ f a s₁ = .ok b s' := by
  change EStateM.bind x f s = _ ↔ _
  unfold EStateM.bind
  cases hx : x s with
  | ok a s₁ =>
    constructor
    · intro h
      exact ⟨a, s₁, rfl, h⟩
    · rintro ⟨_, _, heq, h⟩
      cases heq
      exact h
  | error e s₁ =>
    constructor
    · intro h
      cases h
    · rintro ⟨_, _, heq, _⟩
      cases heq

variable {e : ε}

theorem bind_error_iff {x : CriticalSection ε σ α} :
    (x >>= f) s = .error e s' ↔
      x s = .error e s' ∨ ∃ a s₁, x s = .ok a s₁ ∧ f a s₁ = .error e s' := by
  change EStateM.bind x f s = _ ↔ _
  unfold EStateM.bind
  cases hx : x s with
  | ok a s₁ =>
    constructor
    · intro h
      exact .inr ⟨a, s₁, rfl, h⟩
    · rintro (heq | ⟨_, _, heq, h⟩)
      · cases heq
      · cases heq
        exact h
  | error e' s₁ =>
    constructor
    · intro h
      cases h
      exact .inl rfl
    · rintro (heq | ⟨_, _, heq, _⟩)
      · cases heq
        rfl
      · cases heq

variable {a : α}

theorem lift_ok_iff {x : Except ε α} :
    (lift x : CriticalSection ε σ α) s = .ok a s' ↔ x = .ok a ∧ s = s' := by
  cases x with
  | ok b =>
    constructor
    · intro h
      cases h
      exact ⟨rfl, rfl⟩
    · rintro ⟨h, rfl⟩
      cases h
      rfl
  | error e =>
    constructor
    · intro h
      cases h
    · rintro ⟨h, -⟩
      cases h

theorem lift_error_iff {x : Except ε α} :
    (lift x : CriticalSection ε σ α) s = .error e s' ↔ x = .error e ∧ s = s' := by
  cases x with
  | ok b =>
    constructor
    · intro h
      cases h
    · rintro ⟨h, -⟩
      cases h
  | error e' =>
    constructor
    · intro h
      cases h
      exact ⟨rfl, rfl⟩
    · rintro ⟨h, rfl⟩
      cases h
      rfl

theorem pure_ok_iff {b : α} : (pure a : CriticalSection ε σ α) s = .ok b s' ↔ a = b ∧ s = s' := by
  constructor
  · intro h
    cases h
    exact ⟨rfl, rfl⟩
  · rintro ⟨rfl, rfl⟩
    rfl

theorem get_ok_iff {a : σ} :
    (get : CriticalSection ε σ σ) s = .ok a s' ↔ s = a ∧ s = s' := by
  constructor
  · intro h
    cases h
    exact ⟨rfl, rfl⟩
  · rintro ⟨rfl, rfl⟩
    rfl

theorem modify_ok_iff {f : σ → σ} {u : Unit} :
    (modify f : CriticalSection ε σ Unit) s = .ok u s' ↔ s' = f s := by
  constructor
  · intro h
    cases h
    rfl
  · rintro rfl
    rfl

theorem set_ok_iff {a : σ} {u : PUnit} :
    (set a : CriticalSection ε σ PUnit) s = .ok u s' ↔ s' = a := by
  constructor
  · intro h
    cases h
    rfl
  · rintro rfl
    rfl

theorem throw_ok_iff : (throw e : CriticalSection ε σ α) s = .ok a s' ↔ False := by
  constructor
  · intro h
    cases h
  · exact False.elim

theorem guard_ok_iff {c : Prop} [Decidable c] {x : CriticalSection ε σ β} {b : β} :
    (if c then throw e >>= f else x) s = .ok b s' ↔ ¬c ∧ x s = .ok b s' := by
  by_cases hc : c
  · rw [if_pos hc]
    constructor
    · intro h
      cases h
    · rintro ⟨hnc, -⟩
      exact absurd hc hnc
  · rw [if_neg hc]
    exact ⟨fun h => ⟨hc, h⟩, And.right⟩

/-! ## What a section does to the state -/

section Keeps

variable (R : σ → σ → Prop)

/-- A relation between the states before and after, when a section succeeds. -/
def KeepsOnOk (x : CriticalSection ε σ α) : Prop := ∀ s a s', x s = .ok a s' → R s s'

/-- A relation between the states before and after, when a section fails. -/
def KeepsOnError (x : CriticalSection ε σ α) : Prop := ∀ s e s', x s = .error e s' → R s s'

variable {R} {x : CriticalSection ε σ α} {f : α → CriticalSection ε σ β}

theorem keepsOnError_bind (htrans : ∀ s t u, R s t → R t u → R s u) (hok : KeepsOnOk R x)
    (herror : KeepsOnError R x) (hf : ∀ a, KeepsOnError R (f a)) : KeepsOnError R (x >>= f) := by
  intro s e s' h
  rcases bind_error_iff.mp h with h | ⟨a, s₁, hx, h⟩
  · exact herror s e s' h
  · exact htrans _ _ _ (hok s a s₁ hx) (hf a s₁ e s' h)

theorem keepsOnError_return (h : KeepsOnError R x) (f : α → β) :
    KeepsOnError R (x >>= fun a => pure (f a)) := by
  intro s e s' herror
  rcases bind_error_iff.mp herror with herror | ⟨a, s₁, -, herror⟩
  · exact h s e s' herror
  · cases herror

theorem keepsOnError_of_ok {x : CriticalSection ε σ α} (h : ∀ s, ∃ a s', x s = .ok a s') :
    KeepsOnError R x := by
  intro s e s' herror
  obtain ⟨a, s₁, hok⟩ := h s
  rw [hok] at herror
  cases herror

theorem keepsOnError_throw (hrefl : ∀ s, R s s) (e : ε) :
    KeepsOnError R (throw e : CriticalSection ε σ α) := by
  intro s e' s' h
  cases h
  exact hrefl s

theorem keepsOnError_lift (hrefl : ∀ s, R s s) (x : Except ε α) :
    KeepsOnError R (lift x : CriticalSection ε σ α) := by
  intro s e s' h
  obtain ⟨-, rfl⟩ := lift_error_iff.mp h
  exact hrefl s

theorem keepsOnError_guard (hrefl : ∀ s, R s s) {c : Prop} [Decidable c] {x : CriticalSection ε σ β}
    (hx : KeepsOnError R x) : KeepsOnError R (if c then throw e >>= f else x) := by
  intro s e' s' h
  by_cases hc : c
  · rw [if_pos hc] at h
    cases h
    exact hrefl s
  · rw [if_neg hc] at h
    exact hx s e' s' h

theorem stateAfter_of_keeps (hok : KeepsOnOk R x) (herror : KeepsOnError R x) (s : σ) :
    R s (x.stateAfter s) := by
  unfold stateAfter
  cases hx : x s with
  | ok a s' => exact hok s a s' hx
  | error e s' => exact herror s e s' hx

end Keeps

end CriticalSection

end Chelix.Library
