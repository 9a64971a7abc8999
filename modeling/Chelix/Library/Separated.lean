import Chelix.Library.Delimited
import Mathlib.Data.List.Forall2

/-!
# Reading separated parts

A list is printed with a separator between its elements and a closing character behind them.
Where each element can be read off the front of a text, so can the list.
-/

namespace Chelix.Library

open List

variable {α β : Type*}

/-- A text that is empty or goes on with a delimiter. -/
def Delimited (delimiter : Char → Bool) (rest : List Char) : Prop :=
  ∀ c ∈ rest.head?, delimiter c = true

/-- Elements with a separator between them. -/
def separated (separator : Char) (texts : List (List Char)) : List Char :=
  [separator].intercalate texts

theorem separated_cons (separator : Char) (text : List Char) (texts : List (List Char)) :
    separated separator (text :: texts) =
      text ++ texts.flatMap fun text => separator :: text := by
  unfold separated
  induction texts generalizing text with
  | nil => simp
  | cons next texts ih =>
    rw [intercalate_cons_cons, ih, flatMap_cons]
    simp

section

variable {delimiter : Char → Bool} {separator close : Char} {print : α → List Char}
  {print' : β → List Char} {r : α → β → Prop}

theorem delimited_cons {c : Char} (hc : delimiter c = true) (rest : List Char) :
    Delimited delimiter (c :: rest) := by
  intro c' hc'
  obtain rfl : c = c' := Option.some.inj hc'
  exact hc

theorem delimited_tail (hseparator : delimiter separator = true) (hclose : delimiter close = true)
    (print : α → List Char) (l : List α) (rest : List Char) :
    Delimited delimiter ((l.flatMap fun a => separator :: print a) ++ close :: rest) := by
  cases l with
  | nil => exact delimited_cons hclose rest
  | cons c l => exact delimited_cons hseparator _

theorem separated_tail_inj (hne : separator ≠ close) (hseparator : delimiter separator = true)
    (hclose : delimiter close = true) {l : List α} {m : List β}
    (hread : ∀ a ∈ l, ∀ b ∈ m, ∀ x y, Delimited delimiter x → Delimited delimiter y →
      print a ++ x = print' b ++ y → r a b ∧ x = y) {x y : List Char}
    (h : (l.flatMap fun a => separator :: print a) ++ close :: x =
      (m.flatMap fun b => separator :: print' b) ++ close :: y) :
    List.Forall₂ r l m ∧ x = y := by
  induction l generalizing m with
  | nil =>
    cases m with
    | nil => exact ⟨.nil, (List.cons.inj h).2⟩
    | cons b m => exact absurd (List.cons.inj h).1 (Ne.symm hne)
  | cons a l ih =>
    cases m with
    | nil => exact absurd (List.cons.inj h).1 hne
    | cons b m =>
      rw [flatMap_cons, flatMap_cons, cons_append, cons_append,
        cons_append, cons_append, append_assoc, append_assoc] at h
      obtain ⟨hab, hrest⟩ := hread a mem_cons_self b mem_cons_self _ _
        (delimited_tail hseparator hclose print l x) (delimited_tail hseparator hclose print' m y)
        (List.cons.inj h).2
      obtain ⟨hlm, hxy⟩ := ih (fun a' ha' b' hb' => hread a' (mem_cons_of_mem a ha') b'
        (mem_cons_of_mem b hb')) hrest
      exact ⟨.cons hab hlm, hxy⟩

/-- **A separated list** in front of its closing character is determined by the text. -/
theorem separated_inj (hne : separator ≠ close) (hseparator : delimiter separator = true)
    (hclose : delimiter close = true) {l : List α} {m : List β}
    (hread : ∀ a ∈ l, ∀ b ∈ m, ∀ x y, Delimited delimiter x → Delimited delimiter y →
      print a ++ x = print' b ++ y → r a b ∧ x = y)
    (hstart : ∀ a ∈ l, ∀ rest, (print a ++ rest).head? ≠ some close)
    (hstart' : ∀ b ∈ m, ∀ rest, (print' b ++ rest).head? ≠ some close) {x y : List Char}
    (h : separated separator (l.map print) ++ close :: x =
      separated separator (m.map print') ++ close :: y) : List.Forall₂ r l m ∧ x = y := by
  cases l with
  | nil =>
    cases m with
    | nil => exact ⟨.nil, (List.cons.inj h).2⟩
    | cons b m =>
      rw [map_cons, separated_cons, append_assoc] at h
      exact absurd (congrArg List.head? h).symm (hstart' b mem_cons_self _)
  | cons a l =>
    cases m with
    | nil =>
      rw [map_cons, separated_cons, append_assoc] at h
      exact absurd (congrArg List.head? h) (hstart a mem_cons_self _)
    | cons b m =>
      have htail : separator :: (separated separator ((a :: l).map print) ++ close :: x) =
          separator :: (separated separator ((b :: m).map print') ++ close :: y) :=
        congrArg (separator :: ·) h
      refine @separated_tail_inj _ _ delimiter separator close print print' r hne hseparator hclose
        (a :: l) (b :: m) hread x y ?_
      rw [map_cons, map_cons, separated_cons, separated_cons, flatMap_map,
        flatMap_map] at htail
      exact htail

end

end Chelix.Library
