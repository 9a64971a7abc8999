import Chelix.Agents.BlobScan

/-!
# Truncation is bounded and faithful
-/

namespace Chelix.Agents

open Library

/-- The part of a text that is kept when its end is what counts: a part of its front and its end,
cut between characters; each misses at most three bytes of its share of the budget. -/
structure EndCut (result : List Char) (maxBytes preservePrefix : ℕ) (head tail : List Char) :
    Prop where
  parts : ∃ middle, result = head ++ (middle ++ tail)
  head_le : utf8Len head ≤ preservePrefix
  kept_le : utf8Len head + utf8Len tail ≤ maxBytes
  head_near : min preservePrefix maxBytes ≤ utf8Len head + 3
  tail_near : maxBytes ≤ utf8Len head + utf8Len tail + 3

/-- The longest part at the front of a text within a budget. -/
structure FrontCut (result : List Char) (maxBytes : ℕ) (kept : List Char) : Prop where
  isPrefix : kept <+: result
  kept_le : utf8Len kept ≤ maxBytes
  longest : ∀ front, front <+: result → utf8Len front ≤ maxBytes → front <+: kept

/-- The copy of a sanitized result that enters the context. -/
inductive CopyOf (stored : Option PersistedToolResult) (result : List Char) (maxBytes : ℕ)
    (preservePrefix : ℕ) : Truncation → List Char → Prop
  | off : CopyOf stored result maxBytes preservePrefix .off result
  | fits {truncation : Truncation} : utf8Len result ≤ maxBytes →
      CopyOf stored result maxBytes preservePrefix truncation result
  | standard {persisted : PersistedToolResult} {kept : List Char} : maxBytes < utf8Len result →
      stored = some persisted → FrontCut result maxBytes kept →
      CopyOf stored result maxBytes preservePrefix .standard (kept ++ fullOutputPointer persisted)
  | end_ {persisted : PersistedToolResult} {head tail : List Char} : maxBytes < utf8Len result →
      stored = some persisted → EndCut result maxBytes preservePrefix head tail →
      CopyOf stored result maxBytes preservePrefix .end_
        (head ++ tail ++ fullOutputPointer persisted)

variable {result : List Char} {maxBytes preservePrefix : ℕ}

/-! ## The cuts -/

theorem truncate_of_isCharBoundary {n : ℕ} (h : isCharBoundary result n = true) :
    ∃ front back, result = front ++ back ∧ utf8Len front = n ∧
      truncate result n = some front ∧ splitAtByte n result = some (front, back) := by
  obtain ⟨front, ⟨back, rfl⟩, rfl⟩ := isCharBoundary_iff.mp h
  refine ⟨front, back, rfl, rfl, ?_, splitAtByte_utf8Len _ _⟩
  unfold truncate
  rw [if_pos (by rw [utf8Len_append]; omega), splitAtByte_utf8Len]
  rfl

/-- **The leading bytes** are the longest prefix within the budget. -/
theorem truncateAtCharBoundary_spec (result : List Char) (maxBytes : ℕ) :
    ∃ kept, truncateAtCharBoundary result maxBytes = some kept ∧ FrontCut result maxBytes kept := by
  obtain ⟨kept, back, heq, hlen, hcut, -⟩ :=
    truncate_of_isCharBoundary (isCharBoundary_floorBoundary result maxBytes)
  have hkept : kept <+: result := ⟨back, heq.symm⟩
  refine ⟨kept, hcut, hkept, ?_, fun front hfront hle => ?_⟩
  · rw [hlen]
    exact floorBoundary_le result maxBytes
  · refine prefix_of_utf8Len_le hfront hkept ?_
    rw [hlen]
    exact le_floorBoundary (isCharBoundary_iff.mpr ⟨front, hfront, rfl⟩) hle

/-- **A prefix and the trailing bytes.** -/
theorem truncateEndAtCharBoundary_spec (preservePrefix : ℕ) (hlong : maxBytes < utf8Len result) :
    ∃ head tail, truncateEndAtCharBoundary result maxBytes preservePrefix = some (head ++ tail) ∧
      EndCut result maxBytes preservePrefix head tail := by
  have hfloor := floorBoundary_le result (min preservePrefix maxBytes)
  have hnear := @le_floorBoundary_add_three result (min preservePrefix maxBytes) (by omega)
  obtain ⟨head, back, hback, hhead, hcut, -⟩ := truncate_of_isCharBoundary
    (isCharBoundary_floorBoundary result (min preservePrefix maxBytes))
  unfold truncateEndAtCharBoundary
  rw [if_neg (by omega)]
  by_cases hbudget : maxBytes - floorBoundary result (min preservePrefix maxBytes) = 0
  · -- nothing is left for the end
    refine ⟨head, [], ?_, ⟨back, by rw [List.append_nil]; exact hback⟩, ?_, ?_, ?_, ?_⟩
    · rw [List.append_nil]
      exact (if_pos hbudget).trans hcut
    all_goals
      try rw [utf8Len_nil]
      omega
  · have hceil := @ceilBoundary_spec result
      (utf8Len result - (maxBytes - floorBoundary result (min preservePrefix maxBytes))) (by omega)
    obtain ⟨hbound, hfrom, hto⟩ := hceil
    obtain ⟨front, tail, htail, hfront, -, hsplit⟩ := truncate_of_isCharBoundary hbound
    -- the end begins behind the prefix
    have hlens : utf8Len front + utf8Len tail = utf8Len result := by
      rw [htail, utf8Len_append]
    have hle : utf8Len head ≤ utf8Len front := by omega
    obtain ⟨middle, hmiddle⟩ :=
      prefix_of_utf8Len_le ⟨back, hback.symm⟩ ⟨tail, htail.symm⟩ hle
    refine ⟨head, tail, ?_, ⟨middle, ?_⟩, ?_, ?_, ?_, ?_⟩
    · rw [if_neg hbudget]
      simp only [hsplit, hcut, Option.bind_eq_bind, Option.bind_some]
    · rw [← List.append_assoc, hmiddle]
      exact htail
    all_goals omega

theorem truncatedCopy_spec (result : List Char) (maxBytes : ℕ) (truncation : Truncation)
    (preservePrefix : ℕ) (persisted : PersistedToolResult) :
    (truncatedCopy result maxBytes truncation preservePrefix = some none ∧
        ∀ stored, CopyOf stored result maxBytes preservePrefix truncation result) ∨
      (truncation ≠ .off ∧ maxBytes < utf8Len result) ∧
        ∃ kept, truncatedCopy result maxBytes truncation preservePrefix = some (some kept) ∧
          CopyOf (some persisted) result maxBytes preservePrefix truncation
            (kept ++ fullOutputPointer persisted) := by
  unfold truncatedCopy
  by_cases hfits : utf8Len result ≤ maxBytes
  · refine .inl ⟨?_, fun _ => .fits hfits⟩
    cases truncation with
    | standard | end_ => exact if_pos hfits
    | off => rfl
  · have hlong : maxBytes < utf8Len result := by omega
    cases truncation with
    | standard =>
      obtain ⟨kept, hkept, hcut⟩ := truncateAtCharBoundary_spec result maxBytes
      refine .inr ⟨⟨nofun, hlong⟩, kept, ?_, .standard hlong rfl hcut⟩
      simp only [if_neg hfits, hkept, Option.map_some]
    | end_ =>
      obtain ⟨head, tail, hkept, hcut⟩ := truncateEndAtCharBoundary_spec preservePrefix hlong
      refine .inr ⟨⟨nofun, hlong⟩, head ++ tail, ?_, .end_ hlong rfl hcut⟩
      simp only [if_neg hfits, hkept, Option.map_some]
    | off => exact .inl ⟨rfl, fun _ => .off⟩

section

variable (store : ToolResultStore) (toStringPretty : Json → Except String (List Char))
  (sessionKey callId : String) (resultValue : Json) (maxBytes : ℕ) (truncation : Truncation)
  (persistence : ToolResultPersistence)

/-- Why a call fails: the value has no text, the store refuses it, or a text that has to be cut is
not to be persisted. -/
inductive Refused : String → Prop
  | render {e : String} : renderResult toStringPretty resultValue = .error e → Refused e
  | store {raw : List Char} {e : String} : renderResult toStringPretty resultValue = .ok raw →
      persistResult store sessionKey callId resultValue raw persistence = .error e → Refused e
  | disabled {raw result : List Char} : renderResult toStringPretty resultValue = .ok raw →
      sanitizeToolResult raw = some result → persistence = .off → truncation ≠ .off →
      maxBytes < utf8Len result →
      Refused "tool result persistence cannot be disabled when truncation is required"

/-- **Truncation is bounded and faithful.**  For every value, budget and way to truncate, no slice
is taken off a character boundary; the call fails only if the value, the store or the persistence
does not let it answer; and its answer is a copy of the sanitized text, cut within the budget where
it is truncated. -/
theorem persistAndTruncate_copies (preservePrefix : ℕ) :
    (∃ e, persistAndTruncate store toStringPretty sessionKey callId resultValue maxBytes truncation
        persistence preservePrefix = some (.error e) ∧
      Refused store toStringPretty sessionKey callId resultValue maxBytes truncation persistence e) ∨
      ∃ raw stored result out,
        renderResult toStringPretty resultValue = .ok raw ∧
        persistResult store sessionKey callId resultValue raw persistence = .ok stored ∧
        sanitizeToolResult raw = some result ∧
        persistAndTruncate store toStringPretty sessionKey callId resultValue maxBytes truncation
          persistence preservePrefix = some (.ok out) ∧
        CopyOf stored result maxBytes preservePrefix truncation out := by
  unfold persistAndTruncate
  cases hraw : renderResult toStringPretty resultValue with
  | error e => exact .inl ⟨e, rfl, .render hraw⟩
  | ok raw =>
    cases hstored : persistResult store sessionKey callId resultValue raw persistence with
    | error e => exact .inl ⟨e, by simp only [hstored], .store hraw hstored⟩
    | ok stored =>
      obtain ⟨result, hresult⟩ := sanitizeToolResult_eq raw
      simp only [hstored, hresult, Option.bind_eq_bind, Option.bind_some]
      cases stored with
      | none =>
        rcases truncatedCopy_spec result maxBytes truncation preservePrefix ⟨"", none, 0, 0⟩
          with ⟨hcopy, hwhole⟩ | ⟨⟨hcut, hlong⟩, kept, hcopy, -⟩
        · refine .inr ⟨raw, none, result, result, rfl, hstored, hresult, ?_, hwhole none⟩
          rw [hcopy]
          rfl
        · have hoff : persistence = .off := by
            cases persistence with
            | off => rfl
            | on =>
              -- a store that answers has stored the text
              unfold persistResult at hstored
              cases resultValue <;> simp only [Except.map] at hstored <;> split at hstored <;>
                cases hstored
          refine .inl ⟨_, ?_, .disabled hraw hresult hoff hcut hlong⟩
          rw [hcopy]
          rfl
      | some persisted =>
        rcases truncatedCopy_spec result maxBytes truncation preservePrefix persisted
          with ⟨hcopy, hwhole⟩ | ⟨-, kept, hcopy, hkept⟩
        · refine .inr ⟨raw, some persisted, result, result, rfl, hstored, hresult, ?_, hwhole _⟩
          rw [hcopy]
          rfl
        · refine .inr ⟨raw, some persisted, result, _, rfl, hstored, hresult, ?_, hkept⟩
          rw [hcopy]
          rfl

end

/-- A store that accepts everything. -/
def acceptingStore : ToolResultStore where
  persistText _ _ _ := .ok ⟨"/results/call.txt", none, 10, 1⟩
  persist _ _ _ := .ok ⟨"/results/call.txt", none, 10, 1⟩

/-- Three letters of two bytes each, of which five bytes are kept, three of them at the end: both
cuts move to the boundary of a letter. -/
theorem persistAndTruncate_copies_letters : ∃ head tail : List Char,
    persistAndTruncate acceptingStore (fun _ => .error "") "session" "call" (.str "éàü") 5 .end_ .on
        3 = some (.ok (head ++ tail ++ fullOutputPointer ⟨"/results/call.txt", none, 10, 1⟩)) ∧
      EndCut "éàü".toList 5 3 head tail := by
  rcases persistAndTruncate_copies acceptingStore (fun _ => .error "") "session" "call"
    (.str "éàü") 5 .end_ .on 3 with ⟨e, -, hrefused⟩ | ⟨raw, stored, result, out, hraw, hstored,
      hresult, hout, hcopy⟩
  · cases hrefused with
    | render hraw => cases hraw
    | store hraw hstored =>
      cases hraw
      cases hstored
    | disabled _ _ hoff => cases hoff
  · cases hraw
    cases hstored
    have hplain : sanitizeToolResult "éàü".toList = some "éàü".toList := by decide
    rw [hplain] at hresult
    cases hresult
    cases hcopy with
    | fits hfits => exact absurd hfits (by decide)
    | end_ _ hpersisted hcut =>
      cases hpersisted
      exact ⟨_, _, hout, hcut⟩

end Chelix.Agents
