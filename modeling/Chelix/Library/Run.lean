import Chelix.Library.KeyedSort

/-!
# Labelled runs

A system is a relation `Step s e t` (the event `e` takes `s` to `t`); a run is a list of events
taken one after another.  The rules here turn what one step does into what a whole run does.
-/

namespace Chelix.Library

variable {σ ε ι ν : Type*} {Step : σ → ε → σ → Prop}

/-- The events of the list take the first state to the last. -/
inductive Run (Step : σ → ε → σ → Prop) : σ → List ε → σ → Prop
  | nil (s : σ) : Run Step s [] s
  | cons {s t u : σ} {e : ε} {es : List ε} :
      Step s e t → Run Step t es u → Run Step s (e :: es) u

namespace Run

variable {s t : σ}

theorem nil_iff : Run Step s [] t ↔ s = t := by
  constructor
  · intro h
    cases h
    rfl
  · rintro rfl
    exact nil s

variable {u : σ} {es : List ε}

theorem cons_iff {e : ε} : Run Step s (e :: es) u ↔ ∃ t, Step s e t ∧ Run Step t es u := by
  constructor
  · intro h
    cases h with
    | cons hstep hrun => exact ⟨_, hstep, hrun⟩
  · rintro ⟨t, hstep, hrun⟩
    exact cons hstep hrun

theorem append {es' : List ε} (h : Run Step s es t) (h' : Run Step t es' u) :
    Run Step s (es ++ es') u := by
  induction h with
  | nil => exact h'
  | cons hstep _ ih => exact cons hstep (ih h')

theorem append_iff {es' : List ε} :
    Run Step s (es ++ es') u ↔ ∃ t, Run Step s es t ∧ Run Step t es' u := by
  constructor
  · intro h
    induction es generalizing s with
    | nil => exact ⟨s, nil s, h⟩
    | cons e es ih =>
      cases h with
      | cons hstep hrun =>
        obtain ⟨t, ht, hu⟩ := ih hrun
        exact ⟨t, cons hstep ht, hu⟩
  · rintro ⟨t, h, h'⟩
    exact append h h'

theorem unique (hdet : ∀ s e t t', Step s e t → Step s e t' → t = t') {t' : σ} (h : Run Step s es t)
    (h' : Run Step s es t') : t = t' := by
  induction h with
  | nil => exact nil_iff.mp h'
  | cons hstep _ ih =>
    obtain ⟨u, hstep', hrun'⟩ := cons_iff.mp h'
    cases hdet _ _ _ _ hstep hstep'
    exact ih hrun'

theorem invariant {P : σ → Prop} (hstep : ∀ s e t, P s → Step s e t → P t) (hrun : Run Step s es t)
    (hs : P s) : P t := by
  induction hrun with
  | nil => exact hs
  | cons h _ ih => exact ih (hstep _ _ _ hs h)

theorem history {P : List ε → σ → Prop} (hrun : Run Step s es t) (hnil : P [] s)
    (hstep : ∀ pre u e v, P pre u → Step u e v → P (pre ++ [e]) v) : P es t := by
  suffices h : ∀ pre, P pre s → P (pre ++ es) t from h [] hnil
  clear hnil
  induction hrun with
  | nil s =>
    intro pre hpre
    rwa [List.append_nil]
  | @cons s u t e es h _ ih =>
    intro pre hpre
    have hrest := ih (pre ++ [e]) (hstep pre s e u hpre h)
    rwa [List.append_assoc, List.singleton_append] at hrest

theorem exists_turn {P : σ → Prop} (hrun : Run Step s es t) (hs : ¬ P s) (ht : P t) :
    ∃ pre e post u v, es = pre ++ e :: post ∧ Run Step s pre u ∧ Step u e v ∧
      Run Step v post t ∧ ¬ P u ∧ P v := by
  induction hrun with
  | nil => exact absurd ht hs
  | @cons s v t e es hstep hrest ih =>
    by_cases hv : P v
    · exact ⟨[], e, es, s, v, rfl, nil s, hstep, hrest, hs, hv⟩
    · obtain ⟨pre, e', post, u, v', rfl, hpre, hturn⟩ := ih hv ht
      exact ⟨e :: pre, e', post, u, v', rfl, cons hstep hpre, hturn⟩

/-- The view that the events labelled `i` change, and no other, is the fold of those events. -/
theorem part_foldl [DecidableEq ι] (label : ε → ι) {i : ι} (view : σ → ν) {act : ν → ε → ν}
    (hsame : ∀ s e t, Step s e t → label e = i → view t = act (view s) e)
    (hother : ∀ s e t, Step s e t → label e ≠ i → view t = view s) (hrun : Run Step s es t) :
    view t = (part label i es).foldl act (view s) := by
  induction hrun with
  | nil => rfl
  | @cons s t u e es h _ ih =>
    rw [ih]
    by_cases he : label e = i
    · rw [hsame s e t h he, ← he, part_cons_self, List.foldl_cons]
    · rw [hother s e t h he, part_cons_of_ne label he]

end Run

end Chelix.Library
