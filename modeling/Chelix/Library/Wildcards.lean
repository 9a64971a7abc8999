import Chelix.Library.Search

/-!
# Patterns with wildcards

A wildcard of a pattern stands for any list, every other letter for one letter.
-/

namespace Chelix.Library

open List

variable {α β : Type*}

/-! ## Instances of a pattern -/

variable {part : List α}

section Fits

variable (wildcard : α → Bool) (letter : α → β → Bool)

/-- Whether a text is an instance of a pattern. -/
def fits : List α → List β → Bool
  | [], text => text.isEmpty
  | c :: pattern, text =>
    if wildcard c then text.tails.any (fits pattern)
    else match text with
      | [] => false
      | a :: rest => letter c a && fits pattern rest

variable {wildcard letter}

theorem fits_cons (c : α) (pattern : List α) (text : List β) :
    fits wildcard letter (c :: pattern) text =
      if wildcard c then text.tails.any (fits wildcard letter pattern)
      else match text with
        | [] => false
        | a :: rest => letter c a && fits wildcard letter pattern rest := by
  cases text <;> rfl

variable {pattern : List α}

theorem fits_wildcard_iff {c : α} (hc : wildcard c = true) {text : List β} :
    fits wildcard letter (c :: pattern) text = true ↔
      ∃ gap rest, text = gap ++ rest ∧ fits wildcard letter pattern rest = true := by
  rw [fits_cons, if_pos hc, any_eq_true]
  constructor
  · rintro ⟨rest, htail, hrest⟩
    obtain ⟨gap, rfl⟩ := (mem_tails _ _).mp htail
    exact ⟨gap, rest, rfl, hrest⟩
  · rintro ⟨gap, rest, rfl, hrest⟩
    exact ⟨rest, (mem_tails _ _).mpr ⟨gap, rfl⟩, hrest⟩

theorem fits_letter_iff {c : α} (hc : wildcard c = false) {text : List β} :
    fits wildcard letter (c :: pattern) text = true ↔
      ∃ a rest, text = a :: rest ∧ letter c a = true ∧
        fits wildcard letter pattern rest = true := by
  rw [fits_cons, if_neg (by rw [hc]; exact Bool.false_ne_true)]
  cases text with
  | nil => exact iff_of_false Bool.false_ne_true fun ⟨_, _, h, _⟩ => cons_ne_nil _ _ h.symm
  | cons a rest =>
    rw [Bool.and_eq_true]
    constructor
    · rintro ⟨hletter, hrest⟩
      exact ⟨a, rest, rfl, hletter, hrest⟩
    · rintro ⟨b, rest', heq, hletter, hrest⟩
      obtain ⟨rfl, rfl⟩ := List.cons.inj heq
      exact ⟨hletter, hrest⟩

/-- A part without wildcards stands for as many letters. -/
theorem fits_append_iff (hpart : ∀ c ∈ part, wildcard c = false) {text : List β} :
    fits wildcard letter (part ++ pattern) text = true ↔
      ∃ front rest, text = front ++ rest ∧ List.Forall₂ (fun c a => letter c a = true) part front ∧
        fits wildcard letter pattern rest = true := by
  induction part generalizing text with
  | nil =>
    constructor
    · exact fun h => ⟨[], text, rfl, .nil, h⟩
    · rintro ⟨front, rest, rfl, hfront, h⟩
      cases hfront
      exact h
  | cons c part ih =>
    obtain ⟨hc, hrest⟩ := forall_mem_cons.mp hpart
    rw [cons_append, fits_letter_iff hc]
    constructor
    · rintro ⟨a, rest, rfl, hletter, h⟩
      obtain ⟨front, rest, rfl, hfront, h⟩ := (ih hrest).mp h
      exact ⟨a :: front, rest, rfl, .cons hletter hfront, h⟩
    · rintro ⟨front, rest, rfl, hfront, h⟩
      cases hfront with
      | cons hletter hfront => exact ⟨_, _, rfl, hletter, (ih hrest).mpr ⟨_, _, rfl, hfront, h⟩⟩

end Fits

/-! ## Parts in a text -/

/-- The parts of a pattern one after the other in a text, with anything before each of them, and
what comes after the last. -/
def Placed : List (List α) → List α → List α → Prop
  | [], text, rest => text = rest
  | part :: parts, text, rest => ∃ gap back, text = gap ++ (part ++ back) ∧ Placed parts back rest

variable {text rest : List α} {parts : List (List α)}

theorem placed_of_suffix {parts : List (List α)} {text longer rest : List α}
    (h : Placed parts text rest) (hlonger : text <:+ longer) :
    parts = [] ∨ Placed parts longer rest := by
  cases parts with
  | nil => exact .inl rfl
  | cons part parts =>
    obtain ⟨front, rfl⟩ := hlonger
    obtain ⟨gap, back, rfl, hback⟩ := h
    exact .inr ⟨front ++ gap, back, (append_assoc _ _ _).symm, hback⟩

theorem placed_iff :
    Placed parts text rest ↔ ∃ front, text = front ++ rest ∧ Placed parts front [] := by
  induction parts generalizing text with
  | nil =>
    constructor
    · exact fun h => ⟨[], h, rfl⟩
    · rintro ⟨front, rfl, hfront⟩
      rw [show front = [] from hfront, nil_append]
      rfl
  | cons part parts ih =>
    constructor
    · rintro ⟨gap, back, rfl, hback⟩
      obtain ⟨front, rfl, hfront⟩ := ih.mp hback
      refine ⟨gap ++ (part ++ front), ?_, gap, front, rfl, hfront⟩
      simp only [append_assoc]
    · rintro ⟨front, rfl, gap, back, rfl, hback⟩
      refine ⟨gap, back ++ rest, ?_, ih.mpr ⟨back, rfl, hback⟩⟩
      simp only [append_assoc]

theorem placed_nil_of_getLast? (hlast : parts.getLast? = some []) (h : Placed parts text rest) :
    Placed parts text [] := by
  induction parts generalizing text with
  | nil => cases hlast
  | cons part parts ih =>
    obtain ⟨gap, back, rfl, hback⟩ := h
    cases parts with
    | nil =>
      obtain rfl : part = [] := Option.some.inj hlast
      exact ⟨gap ++ back, [], by simp, rfl⟩
    | cons next parts =>
      exact ⟨gap, back, rfl, ih (by rwa [List.getLast?_cons_cons] at hlast) hback⟩

section Seek

variable [DecidableEq α]

/-- The text after the leftmost place of a part. -/
def seekPart (part text : List α) : Option (List α) :=
  if part = [] then some text
  else (find part text).map fun k => text.drop (k + part.length)

/-- The text after the leftmost places of all parts. -/
def seek : List (List α) → List α → Option (List α)
  | [], text => some text
  | part :: parts, text => (seekPart part text).bind (seek parts)

theorem seekPart_spec {gap back : List α} (h : text = gap ++ (part ++ back)) :
    ∃ found, seekPart part text = some found ∧ back <:+ found := by
  unfold seekPart
  split
  · next hpart =>
    subst hpart
    exact ⟨text, rfl, gap, h.symm⟩
  · next hpart =>
    have hocc : OccursAt part text gap.length := by
      rw [h]
      unfold OccursAt
      rw [drop_left]
      exact prefix_append _ _
    cases hfind : find part text with
    | none => exact absurd hocc ((find_eq_none_iff hpart).mp hfind _)
    | some k =>
      have hle := ((find_eq_some_iff hpart).mp hfind).2 _ hocc
      refine ⟨_, rfl, ?_⟩
      have hback : back = (text.drop (k + part.length)).drop (gap.length - k) := by
        have hdrop : k + part.length + (gap.length - k) = gap.length + part.length := by omega
        rw [drop_drop, hdrop, h, ← append_assoc, ← length_append, drop_left]
      rw [hback]
      exact drop_suffix _ _

theorem placed_of_seekPart {found : List α} (h : seekPart part text = some found) :
    ∃ gap, text = gap ++ (part ++ found) := by
  unfold seekPart at h
  split at h
  · next hpart =>
    subst hpart
    exact ⟨[], Option.some.inj h⟩
  · next hpart =>
    obtain ⟨k, hfind, rfl⟩ := Option.map_eq_some_iff.mp h
    obtain ⟨tail, htail⟩ := ((find_eq_some_iff hpart).mp hfind).1
    refine ⟨text.take k, ?_⟩
    have hdrop : text.drop (k + part.length) = tail := by
      rw [← drop_drop, ← htail, drop_left]
    rw [hdrop, htail, take_append_drop]

theorem placed_of_seek {found : List α} (h : seek parts text = some found) :
    Placed parts text found := by
  induction parts generalizing text with
  | nil => exact Option.some.inj h
  | cons part parts ih =>
    obtain ⟨back, hpart, hback⟩ := Option.bind_eq_some_iff.mp h
    obtain ⟨gap, htext⟩ := placed_of_seekPart hpart
    exact ⟨gap, back, htext, ih hback⟩

/-- **The leftmost places leave the most of a text.** -/
theorem seek_spec (h : Placed parts text rest) :
    ∃ found, seek parts text = some found ∧ rest <:+ found := by
  induction parts generalizing text with
  | nil => exact ⟨text, rfl, h ▸ suffix_refl _⟩
  | cons part parts ih =>
    obtain ⟨gap, back, htext, hback⟩ := h
    obtain ⟨after, hafter, hsuffix⟩ := seekPart_spec htext
    rw [seek, hafter, Option.bind_some]
    rcases placed_of_suffix hback hsuffix with rfl | hplaced
    · obtain rfl : back = rest := hback
      exact ⟨after, rfl, hsuffix⟩
    · exact ih hplaced

theorem seek_eq_nil_iff :
    seek parts text = some [] ↔
      Placed parts text [] ∧ ∀ rest, Placed parts text rest → rest = [] := by
  constructor
  · intro h
    refine ⟨placed_of_seek h, fun rest hrest => ?_⟩
    obtain ⟨found, hfound, hsuffix⟩ := seek_spec hrest
    rw [h] at hfound
    rw [← Option.some.inj hfound] at hsuffix
    exact suffix_nil.mp hsuffix
  · rintro ⟨hplaced, honly⟩
    obtain ⟨found, hfound, -⟩ := seek_spec hplaced
    rw [hfound, honly found (placed_of_seek hfound)]

end Seek

end Chelix.Library
