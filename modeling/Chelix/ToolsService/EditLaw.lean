import Chelix.ToolsService.FileEdit

/-!
# What an exact edit changes

An edit should replace the only occurrence of the old text, or all occurrences that a scan from
the left finds, and nothing else.  It counts the occurrences that do not overlap, so it takes
several that overlap for one; and with the line breaks of Windows it writes one carriage return
too many where the new text has them already.
-/

namespace Chelix.ToolsService

open Chelix.Library List

/-! ## Line breaks -/

/-- A text with each line break written as a carriage return and a line feed;
`afterReturn` tells whether a carriage return was the last character. -/
def breaksAsCrlf : (afterReturn : Bool) → List Char → List Char
  | _, [] => []
  | afterReturn, c :: text =>
    if c = '\n' then (if afterReturn then ['\n'] else crlf) ++ breaksAsCrlf false text
    else c :: breaksAsCrlf (c = '\r') text

/-- The carriage return before a text. -/
def returnBefore (afterReturn : Bool) (text : List Char) : List Char :=
  if afterReturn then '\r' :: text else text

theorem crlf_infix_cons_iff (c : Char) (text : List Char) :
    crlf <:+: c :: text ↔ crlf <:+: returnBefore (c = '\r') text := by
  unfold returnBefore
  by_cases hc : c = '\r'
  · rw [if_pos (decide_eq_true hc), hc]
  · rw [if_neg (by simpa using hc), infix_cons_iff, or_iff_right]
    intro hpre
    obtain ⟨rest, hrest⟩ := hpre
    exact hc (List.cons.inj hrest).1.symm

theorem crlf_infix_returnBefore_iff (afterReturn : Bool) (c : Char) (text : List Char) :
    crlf <:+: returnBefore afterReturn (c :: text) ↔
      afterReturn = true ∧ c = '\n' ∨ crlf <:+: returnBefore (c = '\r') text := by
  rw [← crlf_infix_cons_iff]
  unfold returnBefore
  cases afterReturn with
  | false => simp
  | true =>
    rw [if_pos rfl, infix_cons_iff]
    refine or_congr ?_ Iff.rfl
    unfold crlf
    rw [cons_prefix_cons, cons_prefix_cons]
    simp [eq_comm]

/-- **The line breaks of the new text** come out right if it has no carriage return before a line
feed, and too long otherwise. -/
theorem replaceNewlines_cases (afterReturn : Bool) (text : List Char) :
    (crlf <:+: returnBefore afterReturn text →
      (breaksAsCrlf afterReturn text).length < (replaceNewlines text).length) ∧
    (¬crlf <:+: returnBefore afterReturn text →
      replaceNewlines text = breaksAsCrlf afterReturn text) := by
  induction text generalizing afterReturn with
  | nil =>
    refine ⟨fun h => ?_, fun _ => rfl⟩
    have hlen := h.length_le
    unfold returnBefore crlf at hlen
    cases afterReturn <;> simp at hlen
  | cons c text ih =>
    have hsplit : replaceNewlines (c :: text) =
        (if c = '\n' then crlf else [c]) ++ replaceNewlines text := rfl
    rw [crlf_infix_returnBefore_iff, hsplit]
    unfold breaksAsCrlf
    by_cases hc : c = '\n'
    · subst hc
      have hreturn : (decide ('\n' = '\r')) = false := by decide
      obtain ⟨hlt, heq⟩ := ih false
      have hle : (breaksAsCrlf false text).length ≤ (replaceNewlines text).length := by
        by_cases h : crlf <:+: returnBefore false text
        · exact Nat.le_of_lt (hlt h)
        · exact Nat.le_of_eq (congrArg List.length (heq h).symm)
      rw [if_pos rfl, if_pos rfl, hreturn]
      cases afterReturn with
      | true =>
        refine ⟨fun _ => ?_, fun h => absurd (.inl ⟨rfl, rfl⟩) h⟩
        rw [if_pos rfl]
        simp only [crlf, length_append, length_cons, length_nil]
        omega
      | false =>
        refine ⟨fun h => ?_, fun h => ?_⟩
        · have h := hlt (h.resolve_left (by simp))
          simp only [Bool.false_eq_true, if_false, length_append]
          omega
        · rw [if_neg (by simp), heq fun h' => h (.inr h')]
    · obtain ⟨hlt, heq⟩ := ih (c = '\r')
      rw [if_neg hc, if_neg hc]
      refine ⟨fun h => ?_, fun h => ?_⟩
      · have h := hlt (h.resolve_left fun h => hc h.2)
        simp only [length_append, length_cons, length_nil]
        omega
      · rw [heq fun h' => h (.inr h')]
        rfl

/-! ## The law -/

/-- The text that should be written for a match. -/
def insertedFor (newString : List Char) : Option EditFileRecovery → List Char
  | some .crlf => breaksAsCrlf false newString
  | none | some .smartQuotes => newString

/-- An edit cuts only between characters, and if it succeeds it changes the only occurrence of
what it looked for, or all that a scan from the left finds. -/
def EditLaw (content oldString newString : List Char) (replaceAll : Bool) : Prop :=
  applyEdit content oldString newString replaceAll ≠ .error .panic ∧
  ∀ outcome, applyEdit content oldString newString replaceAll = .ok outcome →
    let needle := needleFor oldString outcome.recovery
    let text := textFor content outcome.recovery
    let inserted := insertedFor newString outcome.recovery
    (replaceAll = false → ∃ k, (∀ j, OccursAt needle text j ↔ j = k) ∧
      outcome.content = content.take k ++ inserted ++ content.drop (k + needle.length)) ∧
    (replaceAll = true → ∃ ks, Leftmost needle text ks ∧
      outcome.content = replaceSpans content needle.length inserted 0 ks ∧
      outcome.replacements = ks.length)

/-- There are several occurrences, and any two of them overlap. -/
def SelfOverlapping (needle text : List Char) : Prop :=
  (∃ i j, OccursAt needle text i ∧ OccursAt needle text j ∧ i ≠ j) ∧
    ∀ i j, OccursAt needle text i → OccursAt needle text j → j < i + needle.length

/-- Only one occurrence may be replaced, and there are two that do not overlap. -/
def Refused (needle text : List Char) (replaceAll : Bool) : Prop :=
  replaceAll = false ∧
    ∃ i j, OccursAt needle text i ∧ OccursAt needle text j ∧ i + needle.length ≤ j

section Law

variable {content oldString newString : List Char} {replaceAll : Bool}

theorem applyEdit_ne_panic (hold : oldString ≠ []) (hne : oldString ≠ newString) :
    applyEdit content oldString newString replaceAll ≠ .error .panic := by
  rw [applyEdit_eq hold hne]
  unfold editWith
  split
  · rintro ⟨⟩
  · split <;> rintro ⟨⟩

theorem applyEdit_ok_iff (hold : oldString ≠ []) (hne : oldString ≠ newString)
    {outcome : EditOutcome} :
    applyEdit content oldString newString replaceAll = .ok outcome ↔
      matchesOf content oldString (recoveryFor content oldString) ≠ [] ∧
      ¬Refused (needleFor oldString (recoveryFor content oldString))
        (textFor content (recoveryFor content oldString)) replaceAll ∧
      outcome = outcomeFor content oldString newString replaceAll
        (recoveryFor content oldString) := by
  have hleft := leftmost_matchesOf content hold (recoveryFor content oldString)
  have hrefused : (matchesOf content oldString (recoveryFor content oldString)).length > 1 ∧
      replaceAll = false ↔ Refused (needleFor oldString (recoveryFor content oldString))
        (textFor content (recoveryFor content oldString)) replaceAll :=
    and_comm.trans (and_congr_right' hleft.one_lt_length_iff)
  rw [applyEdit_eq hold hne, ← hrefused]
  unfold editWith
  split
  · rename_i hnil
    exact ⟨fun h => (by cases h), fun h => absurd hnil h.1⟩
  · rename_i hnil
    split
    · rename_i hmany
      exact ⟨fun h => (by cases h), fun h => absurd hmany h.2.1⟩
    · rename_i hmany
      exact ⟨fun h => ⟨hnil, hmany, (Except.ok.inj h).symm⟩, fun h => congrArg Except.ok h.2.2.symm⟩

/-- A single match is the only occurrence, unless others overlap it. -/
theorem occursAt_iff_of_singleton {needle text : List Char} {k : ℕ}
    (h : Leftmost needle text [k]) (hself : ¬SelfOverlapping needle text) (j : ℕ) :
    OccursAt needle text j ↔ j = k := by
  have hk : OccursAt needle text k := h.occurs k mem_cons_self
  constructor
  · intro hj
    by_contra hne
    refine hself ⟨⟨j, k, hj, hk, hne⟩, fun i i' hi hi' => ?_⟩
    have hle := (h.singleton hi).1
    have hlt := (h.singleton hi').2
    omega
  · rintro rfl
    exact hk

theorem exists_matchesOf_eq_singleton {recovery : Option EditFileRecovery}
    (hold : oldString ≠ []) (hnil : matchesOf content oldString recovery ≠ [])
    (hrefused : ¬Refused (needleFor oldString recovery) (textFor content recovery) false) :
    ∃ k, matchesOf content oldString recovery = [k] := by
  have hleft := leftmost_matchesOf content hold recovery
  have hle : ¬1 < (matchesOf content oldString recovery).length :=
    fun h => hrefused ⟨rfl, hleft.one_lt_length_iff.mp h⟩
  have hpos := length_pos_iff.mpr hnil
  exact length_eq_one_iff.mp (by omega)

theorem writtenFor_eq {recovery : Option EditFileRecovery}
    (h : recovery = some .crlf → ¬crlf <:+: newString) :
    writtenFor newString recovery = insertedFor newString recovery := by
  match recovery with
  | none => rfl
  | some .crlf => exact (replaceNewlines_cases false newString).2 (h rfl)
  | some .smartQuotes => rfl

theorem not_selfOverlapping_of_editLaw (hold : oldString ≠ []) (hne : oldString ≠ newString)
    (h : EditLaw content oldString newString false) :
    ¬SelfOverlapping (needleFor oldString (recoveryFor content oldString))
      (textFor content (recoveryFor content oldString)) := by
  rintro ⟨⟨i, j, hi, hj, hij⟩, hoverlap⟩
  have hleft := leftmost_matchesOf content hold (recoveryFor content oldString)
  have hok : applyEdit content oldString newString false = .ok _ :=
    (applyEdit_ok_iff hold hne).mpr ⟨hleft.ne_nil_iff.mpr ⟨i, hi⟩, fun hrefused => ?_, rfl⟩
  · obtain ⟨k, hk, -⟩ := (h.2 _ hok).1 rfl
    exact hij (((hk i).mp hi).trans ((hk j).mp hj).symm)
  · obtain ⟨-, i', j', hi', hj', hle⟩ := hrefused
    have hlt := hoverlap i' j' hi' hj'
    omega

theorem not_crlf_of_editLaw (hold : oldString ≠ []) (hne : oldString ≠ newString)
    (h : EditLaw content oldString newString replaceAll)
    (hrecovery : recoveryFor content oldString = some .crlf)
    (hrefused : ¬Refused (needleFor oldString (some .crlf)) (textFor content (some .crlf))
      replaceAll) : ¬crlf <:+: newString := by
  intro hcrlf
  have hlonger := (replaceNewlines_cases false newString).1 hcrlf
  have hneedle := needleFor_ne_nil hold (some .crlf)
  have hleft := leftmost_matchesOf content hold (some .crlf)
  have hocc : replaceNewlines oldString <:+: content := by
    unfold recoveryFor at hrecovery
    split at hrecovery
    · cases hrecovery
    · split at hrecovery
      · rename_i hwindows
        exact hwindows.2.2.2
      · cases hrecovery
  have hnil : matchesOf content oldString (some .crlf) ≠ [] :=
    mt (matchesOf_eq_nil_iff hold (some .crlf)).mp (not_not.mpr hocc)
  have hok : applyEdit content oldString newString replaceAll = .ok _ :=
    (applyEdit_ok_iff hold hne).mpr ⟨hrecovery ▸ hnil, hrecovery ▸ hrefused, rfl⟩
  rw [hrecovery] at hok
  obtain ⟨hone, hall⟩ := h.2 _ hok
  cases replaceAll with
  | false =>
    obtain ⟨k, hk, hcontent⟩ := hone rfl
    obtain ⟨k', hk'⟩ := exists_matchesOf_eq_singleton hold hnil hrefused
    have hsame : k' = k := (hk k').mp (hleft.occurs k' (hk' ▸ mem_cons_self))
    have hlen := congrArg List.length hcontent
    unfold outcomeFor at hlen
    simp only [hk', Bool.false_eq_true, if_false, take_succ_cons, take_zero,
      replaceSpans_singleton, hsame, length_append, writtenFor, insertedFor] at hlen
    omega
  | true =>
    obtain ⟨ks, hks, hcontent, hcount⟩ := hall rfl
    change Leftmost (needleFor oldString (some .crlf)) (textFor content (some .crlf)) ks at hks
    have hlen := congrArg List.length hcontent
    have hwritten := length_replaceSpans (writtenFor newString (some .crlf))
      (Nat.zero_le content.length)
      (fun k hk => ⟨Nat.zero_le k, hleft.length_le hneedle hk⟩) hleft.apart
    have hinserted := length_replaceSpans (insertedFor newString (some .crlf))
      (Nat.zero_le content.length)
      (fun k hk => ⟨Nat.zero_le k, hks.length_le hneedle hk⟩) hks.apart
    have hpos := length_pos_iff.mpr hnil
    change (matchesOf content oldString (some .crlf)).length = ks.length at hcount
    change (replaceSpans content (needleFor oldString (some .crlf)).length
      (writtenFor newString (some .crlf)) 0 (matchesOf content oldString (some .crlf))).length =
      (replaceSpans content (needleFor oldString (some .crlf)).length
        (insertedFor newString (some .crlf)) 0 ks).length at hlen
    rw [← hcount] at hinserted
    have hmul : (matchesOf content oldString (some .crlf)).length *
        (writtenFor newString (some .crlf)).length =
        (matchesOf content oldString (some .crlf)).length *
        (insertedFor newString (some .crlf)).length := by
      omega
    have heq := Nat.eq_of_mul_eq_mul_left hpos hmul
    unfold writtenFor insertedFor at heq
    simp only at heq
    omega

/-- **When an edit does what it should**: with one occurrence to replace, the text is not one that
occurs several times with any two occurrences overlapping, and unless the edit is refused the new
text has no line break of Windows where these are recovered. -/
theorem editLaw_iff (hold : oldString ≠ []) (hne : oldString ≠ newString) :
    EditLaw content oldString newString replaceAll ↔
      (replaceAll = false →
        ¬SelfOverlapping (needleFor oldString (recoveryFor content oldString))
          (textFor content (recoveryFor content oldString))) ∧
      (recoveryFor content oldString = some .crlf →
        ¬Refused (needleFor oldString (some .crlf)) (textFor content (some .crlf)) replaceAll →
        ¬crlf <:+: newString) := by
  constructor
  · intro h
    refine ⟨?_, not_crlf_of_editLaw hold hne h⟩
    rintro rfl
    exact not_selfOverlapping_of_editLaw hold hne h
  · rintro ⟨hself, hcrlf⟩
    refine ⟨applyEdit_ne_panic hold hne, fun outcome houtcome => ?_⟩
    obtain ⟨hnil, hrefused, rfl⟩ := (applyEdit_ok_iff hold hne).mp houtcome
    have hleft := leftmost_matchesOf content hold (recoveryFor content oldString)
    have hwritten : writtenFor newString (recoveryFor content oldString) =
        insertedFor newString (recoveryFor content oldString) :=
      writtenFor_eq fun h => hcrlf h (h ▸ hrefused)
    unfold outcomeFor
    simp only [hwritten]
    constructor
    · rintro rfl
      obtain ⟨k, hk⟩ := exists_matchesOf_eq_singleton hold hnil hrefused
      refine ⟨k, occursAt_iff_of_singleton (hk ▸ hleft) (hself rfl), ?_⟩
      rw [hk]
      rfl
    · rintro rfl
      exact ⟨_, hleft, rfl, rfl⟩

theorem editLaw_iff_quotes :
    EditLaw "Keep ‘this’ and “a”, “a”.".toList "\"a\"".toList "b".toList true :=
  (editLaw_iff (by decide) (by decide)).mpr ⟨fun h => (by cases h), fun h => absurd h (by decide)⟩

theorem not_editLaw_overlapping : ¬EditLaw "aaa".toList "aa".toList "b".toList false := by
  intro h
  obtain ⟨k, hk, -⟩ := (h.2 ⟨"ba".toList, 1, none⟩ (by decide)).1 rfl
  have hzero : 0 = k := (hk 0).mp (by decide)
  have hone : 1 = k := (hk 1).mp (by decide)
  omega

end Law

end Chelix.ToolsService
