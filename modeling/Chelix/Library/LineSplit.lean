import Mathlib.Data.List.Basic

/-!
# Splitting into lines

A line ends at a carriage return, at a line feed, or at a line feed directly behind a carriage
return; the last line has no end, and is empty when the text before it ends a line.
-/

namespace Chelix.Library

open Option

open List

inductive LineEnding where
  | none
  | lf
  | cr
  | crLf
  deriving DecidableEq

def LineEnding.letters {α : Type} (ret feed : α) : LineEnding → List α
  | .none => []
  | .lf => [feed]
  | .cr => [ret]
  | .crLf => [ret, feed]

section Split

variable {α : Type} [DecidableEq α] (ret feed : α)

/-- The first line of a text with its ending, and the text behind it, unless it is the last. -/
def splitFirst : List α → (List α × LineEnding) × Option (List α)
  | [] => (([], .none), none)
  | a :: text =>
    if a = feed then (([], .lf), some text)
    else if a = ret then
      match text with
      | [] => (([], .cr), some [])
      | b :: rest => if b = feed then (([], .crLf), some rest) else (([], .cr), some (b :: rest))
    else ((a :: (splitFirst text).1.1, (splitFirst text).1.2), (splitFirst text).2)

/-- A letter before the lines of a text. -/
def consLine (a : α) : List (List α × LineEnding) → List (List α × LineEnding)
  | [] => []
  | line :: lines => (a :: line.1, line.2) :: lines

def splitLines : List α → List (List α × LineEnding)
  | [] => [([], .none)]
  | a :: text =>
    if a = feed then ([], .lf) :: splitLines text
    else if a = ret then
      match text with
      | [] => [([], .cr), ([], .none)]
      | b :: rest =>
        if b = feed then ([], .crLf) :: splitLines rest
        else ([], .cr) :: splitLines (b :: rest)
    else consLine a (splitLines text)

variable (text : List α)

theorem splitLines_eq :
    splitLines ret feed text =
      (splitFirst ret feed text).1 ::
        ((splitFirst ret feed text).2.map (splitLines ret feed)).getD [] := by
  induction text with
  | nil => rfl
  | cons a text ih =>
    unfold splitLines splitFirst
    split
    · rfl
    · split
      · cases text with
        | nil => rfl
        | cons b rest =>
          simp only
          split
          · rfl
          · rfl
      · rw [ih]
        rfl

theorem splitFirst_cons {a : α} (hret : a ≠ ret) (hfeed : a ≠ feed) (text : List α) :
    splitFirst ret feed (a :: text) =
      ((a :: (splitFirst ret feed text).1.1, (splitFirst ret feed text).1.2),
        (splitFirst ret feed text).2) := by
  exact (if_neg hfeed).trans (if_neg hret)

theorem splitFirst_append {front : List α} (h : ∀ a ∈ front, a ≠ ret ∧ a ≠ feed)
    (text : List α) :
    splitFirst ret feed (front ++ text) =
      ((front ++ (splitFirst ret feed text).1.1, (splitFirst ret feed text).1.2),
        (splitFirst ret feed text).2) := by
  induction front with
  | nil => rfl
  | cons a front ih =>
    obtain ⟨hret, hfeed⟩ := h a mem_cons_self
    rw [cons_append, splitFirst_cons ret feed hret hfeed,
      ih fun b hb => h b (mem_cons_of_mem _ hb)]
    rfl

theorem splitFirst_parts :
    (splitFirst ret feed text).1.1 ++ (splitFirst ret feed text).1.2.letters ret feed ++
      (splitFirst ret feed text).2.getD [] = text := by
  induction text with
  | nil => rfl
  | cons a text ih =>
    unfold splitFirst
    split
    · rename_i hfeed
      rw [hfeed]
      rfl
    · split
      · rename_i hret
        subst hret
        cases text with
        | nil => rfl
        | cons b rest =>
          simp only
          split
          · rename_i hb
            rw [hb]
            rfl
          · rfl
      · exact congrArg (a :: ·) ih

theorem quiet_splitFirst :
    ∀ a ∈ (splitFirst ret feed text).1.1, a ≠ ret ∧ a ≠ feed := by
  induction text with
  | nil => exact fun a h => absurd h not_mem_nil
  | cons b text ih =>
    unfold splitFirst
    split
    · exact fun a h => absurd h not_mem_nil
    · rename_i hfeed
      split
      · cases text with
        | nil => exact fun a h => absurd h not_mem_nil
        | cons c rest =>
          simp only
          split
          · exact fun a h => absurd h not_mem_nil
          · exact fun a h => absurd h not_mem_nil
      · rename_i hret
        intro a ha
        rcases mem_cons.mp ha with rfl | ha
        · exact ⟨hret, hfeed⟩
        · exact ih a ha

theorem splitFirst_ending :
    (splitFirst ret feed text).1.2 = .none ↔ (splitFirst ret feed text).2 = none := by
  induction text with
  | nil => exact iff_of_true rfl rfl
  | cons a text ih =>
    unfold splitFirst
    split
    · exact iff_of_false (fun h => by cases h) (fun h => by cases h)
    · split
      · cases text with
        | nil => exact iff_of_false (fun h => by cases h) (fun h => by cases h)
        | cons b rest =>
          simp only
          split
          · exact iff_of_false (fun h => by cases h) (fun h => by cases h)
          · exact iff_of_false (fun h => by cases h) (fun h => by cases h)
      · exact ih

theorem length_of_splitFirst {text rest : List α} (h : (splitFirst ret feed text).2 = some rest) :
    rest.length < text.length := by
  have hparts := congrArg List.length (splitFirst_parts ret feed text)
  rw [h, getD_some, length_append, length_append] at hparts
  have hne : (splitFirst ret feed text).1.2 ≠ .none := by
    rw [Ne, splitFirst_ending, h]
    exact some_ne_none rest
  have hpos : 0 < ((splitFirst ret feed text).1.2.letters ret feed).length := by
    cases hending : (splitFirst ret feed text).1.2 with
    | none => exact absurd hending hne
    | lf | cr => exact Nat.one_pos
    | crLf => exact Nat.two_pos
  omega

theorem splitLines_induction {P : List α → Prop}
    (hlast : ∀ text, (splitFirst ret feed text).2 = none → P text)
    (hmore : ∀ text rest, (splitFirst ret feed text).2 = some rest → P rest → P text)
    (text : List α) : P text := by
  induction hn : text.length using Nat.strongRecOn generalizing text with
  | _ n ih =>
    cases hrest : (splitFirst ret feed text).2 with
    | none => exact hlast text hrest
    | some rest =>
      exact hmore text rest hrest
        (ih _ (hn ▸ length_of_splitFirst ret feed hrest) rest rfl)

theorem flatMap_splitLines :
    (splitLines ret feed text).flatMap (fun line => line.1 ++ line.2.letters ret feed) = text := by
  induction text using splitLines_induction ret feed with
  | hlast text h =>
    have hparts := splitFirst_parts ret feed text
    rw [h, getD_none, append_nil] at hparts
    rw [splitLines_eq, h]
    exact (append_nil _).trans hparts
  | hmore text rest h ih =>
    have hparts := splitFirst_parts ret feed text
    rw [h, getD_some] at hparts
    rw [splitLines_eq, h, flatMap_cons, map_some, getD_some, ih]
    exact hparts

theorem quiet_of_mem_splitLines {text : List α} :
    ∀ line ∈ splitLines ret feed text, ∀ a ∈ line.1, a ≠ ret ∧ a ≠ feed := by
  induction text using splitLines_induction ret feed with
  | hlast text h =>
    rw [splitLines_eq, h]
    intro line hline
    rw [map_none, getD_none, mem_singleton] at hline
    rw [hline]
    exact quiet_splitFirst ret feed text
  | hmore text rest h ih =>
    rw [splitLines_eq, h]
    intro line hline
    rcases mem_cons.mp hline with rfl | hline
    · exact quiet_splitFirst ret feed text
    · exact ih line hline

theorem getLast?_splitLines {text : List α} (h : text.getLast? = some feed) :
    ∃ lines, lines ≠ [] ∧ splitLines ret feed text = lines ++ [([], .none)] := by
  induction text using splitLines_induction ret feed with
  | hlast text hlast =>
    -- a line without an ending ends with no separator
    have hparts := splitFirst_parts ret feed text
    rw [hlast, (splitFirst_ending ret feed text).mpr hlast, getD_none, append_nil]
      at hparts
    have hmem := mem_of_getLast? h
    rw [← hparts] at hmem
    rcases mem_append.mp hmem with hmem | hmem
    · exact absurd rfl (quiet_splitFirst ret feed text feed hmem).2
    · exact absurd hmem not_mem_nil
  | hmore text rest hrest ih =>
    rw [splitLines_eq, hrest, map_some, getD_some]
    cases rest with
    | nil => exact ⟨[_], cons_ne_nil _ _, rfl⟩
    | cons a rest =>
      have hparts := splitFirst_parts ret feed text
      rw [hrest, getD_some] at hparts
      have hlast : (a :: rest).getLast? = some feed := by
        rw [← hparts, List.getLast?_append, List.getLast?_cons] at h
        rw [List.getLast?_cons]
        exact h
      obtain ⟨lines, -, hlines⟩ := ih hlast
      rw [hlines]
      exact ⟨_ :: lines, cons_ne_nil _ _, rfl⟩

end Split

section Encoding

variable {α β : Type} [DecidableEq α] [DecidableEq β] {ret feed : α} {ret' feed' : β}
  {f : α → List β}

/-- An encoding under which each separator is one letter, and no other letter holds one. -/
structure EncodesSeparators (ret feed : α) (ret' feed' : β) (f : α → List β) : Prop where
  ne : ret' ≠ feed'
  ofRet : f ret = [ret']
  ofFeed : f feed = [feed']
  other : ∀ a, a ≠ ret → a ≠ feed → ∀ b ∈ f a, b ≠ ret' ∧ b ≠ feed'
  ne_nil : ∀ a, f a ≠ []

omit [DecidableEq β] in
/-- Nothing but a line feed begins with one. -/
theorem EncodesSeparators.head_ne (h : EncodesSeparators ret feed ret' feed' f) {a : α}
    (ha : a ≠ feed) : ∃ b tail, f a = b :: tail ∧ b ≠ feed' := by
  cases hencoded : f a with
  | nil => exact absurd hencoded (h.ne_nil a)
  | cons b tail =>
    refine ⟨b, tail, rfl, ?_⟩
    by_cases hret : a = ret
    · rw [hret, h.ofRet] at hencoded
      cases hencoded
      exact h.ne
    · exact (h.other a hret ha b (hencoded ▸ mem_cons_self)).2

theorem splitFirst_flatMap (h : EncodesSeparators ret feed ret' feed' f) (text : List α) :
    splitFirst ret' feed' (text.flatMap f) =
      (((splitFirst ret feed text).1.1.flatMap f, (splitFirst ret feed text).1.2),
        (splitFirst ret feed text).2.map fun rest => rest.flatMap f) := by
  induction text with
  | nil => rfl
  | cons a text ih =>
    rw [flatMap_cons]
    by_cases hfeed : a = feed
    · subst hfeed
      rw [h.ofFeed]
      simp [splitFirst]
    by_cases hret : a = ret
    · subst hret
      rw [h.ofRet, singleton_append]
      cases text with
      | nil => simp [splitFirst, h.ne, hfeed]
      | cons b rest =>
        by_cases hb : b = feed
        · subst hb
          rw [flatMap_cons, h.ofFeed]
          simp [splitFirst, h.ne, hfeed]
        · obtain ⟨c, tail, hencoded, hc⟩ := h.head_ne hb
          rw [flatMap_cons, hencoded]
          simp [splitFirst, h.ne, hfeed, hb, hc, hencoded]
    · rw [splitFirst_append ret' feed' (h.other a hret hfeed), ih,
        splitFirst_cons ret feed hret hfeed]
      rfl

end Encoding

end Chelix.Library
