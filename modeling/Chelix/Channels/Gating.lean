import Chelix.Library.Wildcards

/-!
# Allowlists

Who may write to a channel: the peers whose id an entry of the allowlist matches.

* **`allowed_iff`**: when an allowlist means what it says.
-/

namespace Chelix.Channels

open Chelix.Library List

/-! ## Matching -/

/-- The parts of a pattern between its wildcards. -/
def splitStar : List Char → List (List Char)
  | [] => [[]]
  | c :: rest =>
    if c = '*' then [] :: splitStar rest
    else match splitStar rest with
      | [] => [[c]]
      | part :: parts => (c :: part) :: parts

/-- The text after all parts, from a part on. -/
def afterParts (i : ℕ) : List (List Char) → List Char → Option (List Char)
  | [], text => some text
  | part :: parts, text =>
    if part = [] then afterParts (i + 1) parts text
    else match find part text with
      | some k =>
        -- the first part has to be at the start
        if i = 0 ∧ k ≠ 0 then none else afterParts (i + 1) parts (text.drop (k + part.length))
      | none => none

def globMatch (pattern text : List Char) : Bool :=
  let parts := splitStar pattern
  if parts.length = 1 then pattern = text
  else match afterParts 0 parts text with
    | none => false
    -- the last part has to be at the end
    | some rest => if parts.getLast?.getD [] ≠ [] then rest = [] else true

/-- An empty allowlist allows everyone. -/
def isAllowed (toLowercase : List Char → List Char) (peerId : List Char)
    (allowlist : List (List Char)) : Bool :=
  if allowlist.isEmpty then true
  else allowlist.any fun pattern =>
    let pat := toLowercase pattern
    if '*' ∈ pat then globMatch pat (toLowercase peerId) else pat = toLowercase peerId

/-! ## What patterns stand for -/

/-- A pattern with each wildcard replaced by one of some texts. -/
def replaceStars : List Char → List (List Char) → List Char
  | [], _ => []
  | c :: rest, texts =>
    if c = '*' then texts.headD [] ++ replaceStars rest texts.tail
    else c :: replaceStars rest texts

/-- **A text is obtained from a pattern** if it is the pattern with each wildcard replaced. -/
def Obtainable (pattern text : List Char) : Prop := ∃ texts, replaceStars pattern texts = text

/-- A text goes on after a part of it that is obtained from the same pattern, which ends with
letters. -/
def Early (pattern text : List Char) : Prop :=
  '*' ∈ pattern ∧ pattern.getLast? ≠ some '*' ∧
    ∃ shorter, shorter <+: text ∧ shorter ≠ text ∧ Obtainable pattern shorter

theorem obtainable_nil_iff {text : List Char} : Obtainable [] text ↔ text = [] :=
  ⟨fun ⟨_, h⟩ => h.symm, fun h => ⟨[], h.symm⟩⟩

theorem obtainable_star_iff {rest text : List Char} :
    Obtainable ('*' :: rest) text ↔ ∃ gap back, text = gap ++ back ∧ Obtainable rest back := by
  constructor
  · rintro ⟨texts, rfl⟩
    refine ⟨texts.headD [], _, ?_, texts.tail, rfl⟩
    rw [replaceStars, if_pos rfl]
  · rintro ⟨gap, back, rfl, texts, rfl⟩
    refine ⟨gap :: texts, ?_⟩
    rw [replaceStars, if_pos rfl]
    rfl

theorem obtainable_cons_iff {c : Char} (hc : c ≠ '*') {rest text : List Char} :
    Obtainable (c :: rest) text ↔ ∃ back, text = c :: back ∧ Obtainable rest back := by
  constructor
  · rintro ⟨texts, rfl⟩
    refine ⟨_, ?_, texts, rfl⟩
    rw [replaceStars, if_neg hc]
  · rintro ⟨back, rfl, texts, rfl⟩
    refine ⟨texts, ?_⟩
    rw [replaceStars, if_neg hc]

/-! ## Parts of a pattern -/

attribute [local simp] splitStar in
theorem splitStar_of_notMem {pattern : List Char} (h : '*' ∉ pattern) :
    splitStar pattern = [pattern] := by
  induction pattern with
  | nil => simp
  | cons c rest ih =>
    obtain ⟨hc, hrest⟩ := not_or.mp (mt mem_cons.mpr h)
    rw [splitStar, if_neg (Ne.symm hc), ih hrest]

theorem splitStar_ne_nil (pattern : List Char) : splitStar pattern ≠ [] := by
  induction pattern with
  | nil => exact cons_ne_nil _ _
  | cons c rest ih =>
    rw [splitStar]
    split
    · exact cons_ne_nil _ _
    · split <;> exact cons_ne_nil _ _

/-- A text is obtained from a pattern if the first part is at the start, the last at the end, and
the others between. -/
theorem obtainable_iff_placed {pattern text : List Char} {part : List Char}
    {parts : List (List Char)} (h : splitStar pattern = part :: parts) :
    Obtainable pattern text ↔ ∃ back, text = part ++ back ∧ Placed parts back [] := by
  induction pattern generalizing text part parts with
  | nil =>
    obtain ⟨rfl, rfl⟩ := List.cons.inj h
    rw [obtainable_nil_iff]
    exact ⟨fun h => ⟨[], h, rfl⟩, fun ⟨back, htext, hback⟩ => htext.trans hback⟩
  | cons c rest ih =>
    rw [splitStar] at h
    split at h
    · next hc =>
      obtain ⟨rfl, rfl⟩ := List.cons.inj h
      obtain ⟨first, others, hrest⟩ := exists_cons_of_ne_nil (splitStar_ne_nil rest)
      subst hc
      rw [obtainable_star_iff, hrest]
      constructor
      · rintro ⟨gap, back, rfl, hback⟩
        obtain ⟨after, rfl, hafter⟩ := (ih hrest).mp hback
        exact ⟨_, rfl, gap, after, rfl, hafter⟩
      · rintro ⟨back, rfl, gap, after, rfl, hafter⟩
        exact ⟨gap, first ++ after, rfl, (ih hrest).mpr ⟨after, rfl, hafter⟩⟩
    · next hc =>
      obtain ⟨first, others, hrest⟩ := exists_cons_of_ne_nil (splitStar_ne_nil rest)
      rw [hrest] at h
      obtain ⟨rfl, rfl⟩ := List.cons.inj h
      rw [obtainable_cons_iff hc]
      constructor
      · rintro ⟨back, rfl, hback⟩
        obtain ⟨after, rfl, hafter⟩ := (ih hrest).mp hback
        exact ⟨after, rfl, hafter⟩
      · rintro ⟨after, rfl, hafter⟩
        exact ⟨first ++ after, rfl, (ih hrest).mpr ⟨after, rfl, hafter⟩⟩

theorem mem_iff_of_splitStar {pattern part : List Char} {parts : List (List Char)}
    (h : splitStar pattern = part :: parts) : '*' ∈ pattern ↔ parts ≠ [] := by
  induction pattern generalizing part parts with
  | nil =>
    obtain ⟨-, rfl⟩ := List.cons.inj h
    exact iff_of_false not_mem_nil fun hne => hne rfl
  | cons c rest ih =>
    obtain ⟨first, others, hrest⟩ := exists_cons_of_ne_nil (splitStar_ne_nil rest)
    rw [splitStar, hrest] at h
    split at h
    · next hc =>
      obtain ⟨-, rfl⟩ := List.cons.inj h
      exact iff_of_true (mem_cons.mpr (.inl hc.symm)) (cons_ne_nil _ _)
    · next hc =>
      obtain ⟨-, rfl⟩ := List.cons.inj h
      rw [mem_cons, ← ih hrest]
      exact or_iff_right (Ne.symm hc)

theorem getLast?_splitStar (pattern : List Char) :
    (splitStar pattern).getLast? = some [] ↔ pattern = [] ∨ pattern.getLast? = some '*' := by
  induction pattern with
  | nil => exact iff_of_true rfl (.inl rfl)
  | cons c rest ih =>
    obtain ⟨first, others, hrest⟩ := exists_cons_of_ne_nil (splitStar_ne_nil rest)
    have hmem := mem_iff_of_splitStar hrest
    rw [hrest] at ih
    rw [splitStar, hrest, or_iff_right (cons_ne_nil c rest)]
    split
    · next hc =>
      rw [List.getLast?_cons_cons, ih]
      cases rest with
      | nil => exact iff_of_true (.inl rfl) (congrArg some hc)
      | cons d rest => rw [List.getLast?_cons_cons, or_iff_right (cons_ne_nil d rest)]
    · next hc =>
      cases others with
      | nil =>
        have hnone : '*' ∉ c :: rest := by
          rw [mem_cons, hmem, not_or]
          exact ⟨Ne.symm hc, fun hne => hne rfl⟩
        refine iff_of_false (fun h => cons_ne_nil c first (Option.some.inj h)) fun h => ?_
        exact hnone (mem_of_getLast? h)
      | cons second others =>
        rw [List.getLast?_cons_cons] at ih ⊢
        rw [ih]
        cases rest with
        | nil => cases List.cons.inj hrest |>.2
        | cons d rest => rw [List.getLast?_cons_cons, or_iff_right (cons_ne_nil d rest)]

/-! ## What the matcher finds -/

theorem afterParts_succ (i : ℕ) (parts : List (List Char)) (text : List Char) :
    afterParts (i + 1) parts text = seek parts text := by
  induction parts generalizing i text with
  | nil => rfl
  | cons part parts ih =>
    rw [afterParts, seek, seekPart]
    split
    · exact ih _ _
    · cases find part text with
      | none => rfl
      | some k =>
        have hlater : ¬ (i + 1 = 0 ∧ k ≠ 0) := fun h => Nat.succ_ne_zero i h.1
        simp only [hlater, if_false]
        exact ih _ _

/-- The first part is looked for at the start only. -/
theorem afterParts_zero_iff {first : List Char} {others : List (List Char)}
    {text rest : List Char} :
    afterParts 0 (first :: others) text = some rest ↔
      ∃ back, text = first ++ back ∧ seek others back = some rest := by
  rw [afterParts]
  split
  · next hfirst =>
    subst hfirst
    rw [afterParts_succ]
    exact ⟨fun h => ⟨text, rfl, h⟩, fun ⟨back, htext, h⟩ => by rwa [htext]⟩
  · next hfirst =>
    have hstart : (∃ back, text = first ++ back) ↔ find first text = some 0 := by
      rw [find_eq_some_iff hfirst]
      constructor
      · rintro ⟨back, rfl⟩
        exact ⟨prefix_append _ _, fun j _ => Nat.zero_le j⟩
      · rintro ⟨⟨back, hback⟩, -⟩
        exact ⟨back, hback.symm⟩
    constructor
    · intro h
      split at h
      · next k hfind =>
        split at h
        · cases h
        · next hzero =>
          obtain rfl : k = 0 := by omega
          obtain ⟨back, rfl⟩ := hstart.mpr hfind
          rw [afterParts_succ, Nat.zero_add, drop_left] at h
          exact ⟨back, rfl, h⟩
      · cases h
    · rintro ⟨back, rfl, h⟩
      rw [hstart.mp ⟨back, rfl⟩]
      simp only [ne_eq, not_true_eq_false, and_false, if_false]
      rw [afterParts_succ, Nat.zero_add, drop_left, h]

/-- **A pattern matches a text that is obtained from it, unless it ends with letters and an earlier
part of the text is obtained from it as well.** -/
theorem globMatch_eq_true_iff (pattern text : List Char) :
    globMatch pattern text = true ↔ Obtainable pattern text ∧ ¬ Early pattern text := by
  obtain ⟨first, others, hsplit⟩ := exists_cons_of_ne_nil (splitStar_ne_nil pattern)
  have hmem := mem_iff_of_splitStar hsplit
  have hlast := getLast?_splitStar pattern
  have hobtain := fun text => @obtainable_iff_placed pattern text _ _ hsplit
  unfold globMatch
  rw [hsplit] at hlast ⊢
  cases others with
  | nil =>
    -- no wildcard
    have hno : '*' ∉ pattern := fun h => hmem.mp h rfl
    rw [splitStar_of_notMem hno] at hsplit
    obtain ⟨rfl, -⟩ := List.cons.inj hsplit
    have hsingle : [pattern].length = 1 := rfl
    simp only [hsingle, if_true, decide_eq_true_eq]
    rw [hobtain]
    constructor
    · rintro rfl
      exact ⟨⟨[], (append_nil _).symm, rfl⟩, fun h => hno h.1⟩
    · rintro ⟨⟨back, rfl, hback⟩, -⟩
      rw [show back = [] from hback, append_nil]
  | cons second others =>
    have hlength : (first :: second :: others).length ≠ 1 := by simp
    have hne : pattern ≠ [] := ne_nil_of_mem (hmem.mpr (cons_ne_nil _ _))
    rw [List.getLast?_cons_cons, or_iff_right hne] at hlast
    simp only [hlength, if_false, List.getLast?_cons_cons]
    by_cases hend : pattern.getLast? = some '*'
    · -- the last part is empty
      have hnotEarly : ¬ Early pattern text := fun h => h.2.1 hend
      rw [hobtain, and_iff_left hnotEarly]
      have hnil : (second :: others).getLast?.getD [] = [] := by rw [hlast.mpr hend]; rfl
      simp only [hnil, ne_eq, not_true_eq_false, if_false]
      constructor
      · intro h
        cases hafter : afterParts 0 (first :: second :: others) text with
        | none => rw [hafter] at h; cases h
        | some rest =>
          obtain ⟨back, rfl, hseek⟩ := afterParts_zero_iff.mp hafter
          exact ⟨back, rfl, placed_nil_of_getLast? (hlast.mpr hend) (placed_of_seek hseek)⟩
      · rintro ⟨back, rfl, hplaced⟩
        obtain ⟨rest, hseek, -⟩ := seek_spec hplaced
        rw [afterParts_zero_iff.mpr ⟨back, rfl, hseek⟩]
    · have hletters : (second :: others).getLast?.getD [] ≠ [] := by
        intro hnil
        refine hend (hlast.mp ?_)
        cases h : (second :: others).getLast? with
        | none => exact absurd (List.getLast?_eq_none_iff.mp h) (cons_ne_nil _ _)
        | some last => rw [h] at hnil; exact congrArg some hnil
      simp only [hletters, ne_eq, not_false_eq_true, if_true]
      have hfound : (match afterParts 0 (first :: second :: others) text with
          | none => false
          | some rest => decide (rest = [])) = true ↔
            afterParts 0 (first :: second :: others) text = some [] := by
        cases afterParts 0 (first :: second :: others) text with
        | none => exact iff_of_false Bool.false_ne_true (fun h => by cases h)
        | some rest => rw [decide_eq_true_eq, Option.some.injEq]
      have hearly : Early pattern text ↔ ∃ back, text = first ++ back ∧
          ∃ rest, Placed (second :: others) back rest ∧ rest ≠ [] := by
        constructor
        · rintro ⟨-, -, shorter, ⟨tail, rfl⟩, hne, hshorter⟩
          obtain ⟨front, rfl, hfront⟩ := (hobtain _).mp hshorter
          refine ⟨front ++ tail, append_assoc _ _ _, tail,
            placed_iff.mpr ⟨front, rfl, hfront⟩, ?_⟩
          rintro rfl
          exact hne (append_nil _).symm
        · rintro ⟨back, rfl, rest, hplaced, hrest⟩
          obtain ⟨front, rfl, hfront⟩ := placed_iff.mp hplaced
          refine ⟨hmem.mpr (cons_ne_nil _ _), hend, first ++ front,
            ⟨rest, append_assoc _ _ _⟩, fun heq => hrest ?_,
            (hobtain _).mpr ⟨front, rfl, hfront⟩⟩
          rw [← append_assoc] at heq
          exact self_eq_append_right.mp heq
      rw [hfound, afterParts_zero_iff, hobtain, hearly]
      constructor
      · rintro ⟨back, rfl, hseek⟩
        obtain ⟨hplaced, honly⟩ := seek_eq_nil_iff.mp hseek
        refine ⟨⟨back, rfl, hplaced⟩, ?_⟩
        rintro ⟨back', heq, rest, hrest, hne⟩
        rw [← append_cancel_left heq] at hrest
        exact hne (honly rest hrest)
      · rintro ⟨⟨back, rfl, hplaced⟩, hnot⟩
        refine ⟨back, rfl, seek_eq_nil_iff.mpr ⟨hplaced, fun rest hrest => ?_⟩⟩
        by_contra hne
        exact hnot ⟨back, rfl, rest, hrest, hne⟩

theorem isAllowed_cons_iff (toLowercase : List Char → List Char) (peerId entry : List Char)
    (entries : List (List Char)) :
    isAllowed toLowercase peerId (entry :: entries) = true ↔
      ∃ pattern ∈ entry :: entries, Obtainable (toLowercase pattern) (toLowercase peerId) ∧
        ¬ Early (toLowercase pattern) (toLowercase peerId) := by
  have hentry : ∀ pat : List Char, (if '*' ∈ pat then globMatch pat (toLowercase peerId)
      else decide (pat = toLowercase peerId)) = globMatch pat (toLowercase peerId) := by
    intro pat
    split
    · rfl
    · next hno =>
      unfold globMatch
      rw [splitStar_of_notMem hno]
      rfl
  have hne : (entry :: entries).isEmpty = false := rfl
  unfold isAllowed
  rw [hne, if_neg Bool.false_ne_true, any_eq_true]
  refine exists_congr fun pattern => and_congr_right fun _ => ?_
  exact (Bool.eq_iff_iff.mp (hentry (toLowercase pattern))).trans (globMatch_eq_true_iff _ _)

/-- **When wildcards mean what they say.**  A pattern matches what is obtained from it exactly if it
has no earlier match, and an allowlist allows exactly whom an entry stands for if one of the entries
that do so has none. -/
theorem allowed_iff (pattern text : List Char) (toLowercase : List Char → List Char)
    (peerId entry : List Char) (entries : List (List Char)) :
    ((globMatch pattern text = true ↔ Obtainable pattern text) ↔
      ¬ (Obtainable pattern text ∧ Early pattern text)) ∧
    ((isAllowed toLowercase peerId (entry :: entries) = true ↔
        ∃ pattern ∈ entry :: entries, Obtainable (toLowercase pattern) (toLowercase peerId)) ↔
      ((∃ pattern ∈ entry :: entries, Obtainable (toLowercase pattern) (toLowercase peerId)) →
        ∃ pattern ∈ entry :: entries, Obtainable (toLowercase pattern) (toLowercase peerId) ∧
          ¬ Early (toLowercase pattern) (toLowercase peerId))) := by
  rw [globMatch_eq_true_iff, isAllowed_cons_iff]
  constructor
  · tauto
  · constructor
    · exact fun h => h.mpr
    · exact fun h => ⟨fun ⟨pattern, hmem, hobtain, _⟩ => ⟨pattern, hmem, hobtain⟩, h⟩

theorem repeated_suffix_rejected : ¬ ∀ pattern text : List Char,
    globMatch pattern text = true ↔ Obtainable pattern text := by
  intro h
  have hmatch := (h "*a".toList "aa".toList).mpr ⟨["a".toList], by decide⟩
  revert hmatch
  decide

end Chelix.Channels
