import Chelix.Library.Search
import Chelix.Library.Utf8

/-!
# The offset of the first match

A search whose answer counts bytes, and the text around what it finds.
-/

namespace Chelix.Library

variable {needle text front back : List Char}

/-- The offset of the first match. -/
def findByte (needle text : List Char) : Option ℕ := (find needle text).map (byteAt text)

/-- The first match is between two parts of a text. -/
structure FirstMatch (needle text front back : List Char) : Prop where
  eq : text = front ++ (needle ++ back)
  first : ∀ j, OccursAt needle text j → front.length ≤ j

theorem occursAt_length (needle front back : List Char) :
    OccursAt needle (front ++ (needle ++ back)) front.length := by
  unfold OccursAt
  rw [List.drop_left]
  exact List.prefix_append _ _

theorem FirstMatch.find_eq (h : FirstMatch needle text front back) (hneedle : needle ≠ []) :
    find needle text = some front.length := by
  refine (find_eq_some_iff hneedle).mpr ⟨?_, h.first⟩
  rw [h.eq]
  exact occursAt_length needle front back

/-- **The search** answers the length of what is before the first match. -/
theorem FirstMatch.findByte_eq (h : FirstMatch needle text front back) (hneedle : needle ≠ []) :
    findByte needle text = some (utf8Len front) := by
  unfold findByte
  rw [h.find_eq hneedle, Option.map_some]
  unfold byteAt
  rw [h.eq, List.take_left]

theorem findByte_eq_none (hneedle : needle ≠ []) (h : ∀ j, ¬OccursAt needle text j) :
    findByte needle text = none := by
  unfold findByte
  rw [(find_eq_none_iff hneedle).mpr h, Option.map_none]

theorem exists_firstMatch (hneedle : needle ≠ []) :
    (∀ j, ¬OccursAt needle text j) ∨ ∃ front back, FirstMatch needle text front back := by
  cases h : find needle text with
  | none => exact .inl ((find_eq_none_iff hneedle).mp h)
  | some k =>
    obtain ⟨hocc, hfirst⟩ := (find_eq_some_iff hneedle).mp h
    have hlen := hocc.length_le hneedle
    obtain ⟨back, hback⟩ := hocc
    refine .inr ⟨text.take k, back, ?_, ?_⟩
    · rw [hback, List.take_append_drop]
    · intro j hj
      rw [List.length_take]
      exact (Nat.min_le_left _ _).trans (hfirst j hj)

theorem FirstMatch.unique {front' back' : List Char} (h : FirstMatch needle text front back)
    (h' : FirstMatch needle text front' back') (hneedle : needle ≠ []) :
    front = front' ∧ back = back' := by
  have hlen : front.length = front'.length := by
    have := (h.find_eq hneedle).symm.trans (h'.find_eq hneedle)
    exact Option.some.inj this
  obtain ⟨hfront, hrest⟩ := List.append_inj (h.eq.symm.trans h'.eq) hlen
  exact ⟨hfront, List.append_cancel_left hrest⟩

theorem FirstMatch.front_isPrefix {front' back' : List Char} (h : FirstMatch needle text front back)
    (heq : text = front' ++ (needle ++ back')) : front <+: front' := by
  have hocc : OccursAt needle text front'.length := by
    rw [heq]
    exact occursAt_length needle front' back'
  have hfront : front <+: text := by
    rw [h.eq]
    exact List.prefix_append _ _
  have hfront' : front' <+: text := by
    rw [heq]
    exact List.prefix_append _ _
  exact List.prefix_of_prefix_length_le hfront hfront' (h.first _ hocc)

end Chelix.Library
