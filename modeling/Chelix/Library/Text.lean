import Mathlib.Data.List.DropRight
import Mathlib.Data.String.Basic

/-!
# Text

Trimming and splitting of strings as the source language's library does them: white space is
the Unicode property, not the ASCII characters.
-/

namespace Chelix.Library

open List

/-- The characters with the `White_Space` property. -/
def isWhiteSpace (c : Char) : Bool :=
  let n := c.toNat
  (9 ≤ n && n ≤ 13) || n = 32 || n = 133 || n = 160 || n = 5760 || (8192 ≤ n && n ≤ 8202) ||
    n = 8232 || n = 8233 || n = 8239 || n = 8287 || n = 12288

/-- A string without the white space at its ends. -/
def trim (s : String) : String :=
  String.ofList
    ((s.toList.dropWhile isWhiteSpace).reverse.dropWhile isWhiteSpace).reverse

def trimStart (text : List Char) : List Char := text.dropWhile isWhiteSpace

theorem trimStart_append (a b : List Char) :
    trimStart (a ++ b) = if (trimStart a).isEmpty then trimStart b else trimStart a ++ b :=
  dropWhile_append

def trimEnd (text : List Char) : List Char := (text.reverse.dropWhile isWhiteSpace).reverse

/-- A list of characters without the white space at its ends. -/
def trimText (text : List Char) : List Char := trimEnd (trimStart text)

variable (text : List Char)

theorem trimEnd_prefix : trimEnd text <+: text := by
  rw [trimEnd, ← reverse_suffix, reverse_reverse]
  exact dropWhile_suffix _

theorem trimEnd_append {b : List Char} (a : List Char) (hb : trimEnd b ≠ []) :
    trimEnd (a ++ b) = a ++ trimEnd b := by
  have hne : ¬(b.reverse.dropWhile isWhiteSpace).isEmpty := by
    intro h
    refine hb ?_
    unfold trimEnd
    rw [isEmpty_iff.mp h, reverse_nil]
  unfold trimEnd
  rw [reverse_append, dropWhile_append, if_neg hne, reverse_append,
    reverse_reverse]

theorem trimEnd_append_space :
    ∃ space, trimEnd text ++ space = text ∧ ∀ c ∈ space, isWhiteSpace c = true := by
  refine ⟨(text.reverse.takeWhile isWhiteSpace).reverse, ?_, fun c hc => ?_⟩
  · unfold trimEnd
    rw [← reverse_append, takeWhile_append_dropWhile, reverse_reverse]
  · exact mem_takeWhile_imp (mem_reverse.mp hc)

theorem trimEnd_of_space {space : List Char} (h : ∀ c ∈ space, isWhiteSpace c = true)
    (a : List Char) : trimEnd (a ++ space) = trimEnd a := by
  unfold trimEnd
  rw [reverse_append, dropWhile_append_of_pos]
  exact fun c hc => h c (mem_reverse.mp hc)

theorem trimText_infix : trimText text <:+: text :=
  ( trimEnd_prefix _).isInfix.trans (dropWhile_suffix _).isInfix

theorem trimText_parts :
    ∃ before after, before ++ trimText text ++ after = text ∧
      (∀ c ∈ before, isWhiteSpace c = true) ∧ ∀ c ∈ after, isWhiteSpace c = true := by
  obtain ⟨space, hspace, hspaces⟩ := trimEnd_append_space (trimStart text)
  refine ⟨text.takeWhile isWhiteSpace, space, ?_, fun c hc => mem_takeWhile_imp hc, hspaces⟩
  rw [append_assoc, trimText, hspace]
  exact takeWhile_append_dropWhile

theorem trimEnd_trimText : trimEnd (trimText text) = trimText text := by
  unfold trimText trimEnd
  rw [reverse_reverse, dropWhile_idempotent]

theorem trimText_trimText : trimText (trimText text) = trimText text := by
  have hstart : trimStart (trimText text) = trimText text := by
    rw [trimStart, dropWhile_eq_self_iff]
    intro hlength
    obtain ⟨rest, hrest⟩ := trimEnd_prefix (trimStart text)
    have hne : trimStart text ≠ [] := by
      intro hnil
      rw [trimText, hnil] at hlength
      exact absurd hlength (Nat.lt_irrefl 0)
    have hhead := head_dropWhile_not isWhiteSpace hne
    have hsame : (trimText text)[0] = (trimStart text).head hne := by
      rw [getElem_append_left' hlength rest, head_eq_getElem]
      exact getElem_congr_coll hrest
    rw [hsame, Bool.not_eq_true]
    exact hhead
  rw [trimText, hstart, trimText, trimEnd, trimEnd, reverse_reverse,
    dropWhile_idempotent]

theorem toList_trim (s : String) : (trim s).toList = trimText s.toList := String.toList_ofList

theorem trim_trim (s : String) : trim (trim s) = trim s := by
  apply String.toList_injective
  rw [toList_trim, toList_trim, trimText_trimText]

/-- Whether nothing is left of a string when it is trimmed. -/
def isBlank (s : String) : Bool := s.toList.all isWhiteSpace

/-- What follows a leading part of a list. -/
def stripPrefix (lead : List Char) (text : List Char) : Option (List Char) :=
  if lead.isPrefixOf text then some (text.drop lead.length) else none

/-- The parts of a list before and after the first occurrence of another. -/
def splitOnce (separator : List Char) : List Char → Option (List Char × List Char)
  | [] => if separator = [] then some ([], []) else none
  | c :: text =>
    match stripPrefix separator (c :: text) with
    | some rest => some ([], rest)
    | none => (splitOnce separator text).map fun parts => (c :: parts.1, parts.2)

end Chelix.Library
