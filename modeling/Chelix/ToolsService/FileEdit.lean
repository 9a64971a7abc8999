import Chelix.Library.Results
import Chelix.Library.Search
import Chelix.Library.Utf8

/-!
# Exact edits

An edit replaces occurrences of one text by another.  If the old text does not occur, it is
looked for with the line breaks of Windows, and then with straight quotes, in a copy of the
content with straight quotes.
-/

namespace Chelix.ToolsService

open Chelix.Library List

/-! ## The edit -/

inductive EditFileRecovery where
  | crlf
  | smartQuotes
  deriving DecidableEq

structure EditOutcome where
  content : List Char
  replacements : ℕ
  recovery : Option EditFileRecovery
  deriving DecidableEq

/-- What ends an edit: an error, or a slice that is not between characters. -/
inductive EditFault where
  | error (message : String)
  | panic
  deriving DecidableEq

def sliceOrPanic (text : List Char) (start stop : ℕ) : Except EditFault (List Char) :=
  match slice text start stop with
  | some part => .ok part
  | none => .error .panic

/-- The offsets of the matches of a text, from the left. -/
def matchIndices (needle text : List Char) : List ℕ :=
  (matchPositions needle text).map (byteAt text)

/-- The text with all its matches replaced. -/
def replace (text needle new : List Char) : List Char :=
  replaceSpans text needle.length new 0 (matchPositions needle text)

/-- The text with its first matches replaced. -/
def replacen (text needle new : List Char) (count : ℕ) : List Char :=
  replaceSpans text needle.length new 0 ((matchPositions needle text).take count)

def replaceNewlines (text : List Char) : List Char :=
  text.flatMap fun c => if c = '\n' then ['\r', '\n'] else [c]

def straightQuote (c : Char) : Char :=
  if c = '\u2018' ∨ c = '\u2019' then '\''
  else if c = '\u201C' ∨ c = '\u201D' then '"'
  else c

def normalizeSmartQuotes (value : List Char) : List Char := value.map straightQuote

def ambiguousMessage (matchCount : ℕ) (matchContext : String) : String :=
  "oldString matches " ++ toString matchCount ++ " locations in the file" ++ matchContext ++
    "; refusing to edit. Supply a larger oldString with more context to make the match unique, " ++
    "or set replaceAll=true."

def enforceUniqueness (matchCount : ℕ) (replaceAll : Bool) (matchContext : String) :
    Except EditFault Unit :=
  if matchCount > 1 ∧ replaceAll = false then
    .error (.error (ambiguousMessage matchCount matchContext))
  else .ok ()

def finishEdit (content needle replacement : List Char) (replaceAll : Bool) (matchCount : ℕ)
    (recovery : Option EditFileRecovery) : Except EditFault EditOutcome := do
  enforceUniqueness matchCount replaceAll ""
  return {
    content :=
      if replaceAll then replace content needle replacement
      else replacen content needle replacement 1
    replacements := if replaceAll then matchCount else 1
    recovery }

def originalByteOffset (contentChars : List (ℕ × Char)) (charOffset contentLen : ℕ) :
    Except EditFault ℕ :=
  if charOffset = contentChars.length then .ok contentLen
  else
    match contentChars[charOffset]? with
    | some entry => .ok entry.1
    | none => .error (.error "smart-quote match could not be mapped to the original file")

/-- One match after the other: `result` is what was written, up to the offset `previousByte` of
the content. -/
def spliceMatches (content normalizedContent normalizedOld newString : List Char)
    (replaceAll : Bool) :
    (previousByte : ℕ) → (result : List Char) → List ℕ → Except EditFault (List Char)
  | previousByte, result, [] => do
      let rest ← sliceOrPanic content previousByte (utf8Len content)
      return result ++ rest
  | previousByte, result, normalizedByte :: matches' => do
      let before ← sliceOrPanic normalizedContent 0 normalizedByte
      let startChar := before.length
      let endChar := startChar + normalizedOld.length
      let startByte ← originalByteOffset (charIndices content) startChar (utf8Len content)
      let endByte ← originalByteOffset (charIndices content) endChar (utf8Len content)
      let kept ← sliceOrPanic content previousByte startByte
      if replaceAll then
        spliceMatches content normalizedContent normalizedOld newString replaceAll endByte
          (result ++ kept ++ newString) matches'
      else do
        let rest ← sliceOrPanic content endByte (utf8Len content)
        return result ++ kept ++ newString ++ rest

def spliceViaNormalized (content normalizedContent normalizedOld newString : List Char)
    (replaceAll : Bool) : Except EditFault (List Char) :=
  spliceMatches content normalizedContent normalizedOld newString replaceAll 0 []
    (matchIndices normalizedOld normalizedContent)

def crlf : List Char := ['\r', '\n']

/-- The last resort: straight quotes. -/
def recoverSmartQuotes (content oldString newString : List Char) (replaceAll : Bool) :
    Except EditFault EditOutcome :=
  let normalizedOld := normalizeSmartQuotes oldString
  let normalizedContent := normalizeSmartQuotes content
  let matchCount := (matchIndices normalizedOld normalizedContent).length
  if (normalizedOld ≠ oldString ∨ normalizedContent ≠ content) ∧ matchCount > 0 then do
    enforceUniqueness matchCount replaceAll " after smart-quote normalization"
    let spliced ← spliceViaNormalized content normalizedContent normalizedOld newString replaceAll
    return {
      content := spliced
      replacements := if replaceAll then matchCount else 1
      recovery := some .smartQuotes }
  else .error (.error "oldString not found in file; edit refused.")

def applyEdit (content oldString newString : List Char) (replaceAll : Bool) :
    Except EditFault EditOutcome :=
  if oldString = [] then .error (.error "oldString must not be empty.")
  else if oldString = newString then
    .error (.error "newString must differ from oldString.")
  else
    let matchCount := (matchIndices oldString content).length
    if matchCount > 0 then
      finishEdit content oldString newString replaceAll matchCount none
    else
      let crlfOld := replaceNewlines oldString
      let crlfNew := replaceNewlines newString
      let crlfCount := (matchIndices crlfOld content).length
      if (crlf <:+: content ∧ '\n' ∈ oldString ∧ ¬crlf <:+: oldString) ∧ crlfCount > 0 then
        finishEdit content crlfOld crlfNew replaceAll crlfCount (some .crlf)
      else recoverSmartQuotes content oldString newString replaceAll

/-! ## Offsets and positions -/

section Offsets

variable {content : List Char}

theorem sliceOrPanic_byteAt (text : List Char) {i j : ℕ} (h : i ≤ j) :
    sliceOrPanic text (byteAt text i) (byteAt text j) = .ok ((text.drop i).take (j - i)) := by
  unfold sliceOrPanic
  rw [slice_byteAt text h, drop_take]

theorem sliceOrPanic_start (text : List Char) (j : ℕ) :
    sliceOrPanic text 0 (byteAt text j) = .ok (text.take j) :=
  sliceOrPanic_byteAt text (Nat.zero_le j)

theorem sliceOrPanic_rest (text : List Char) {i : ℕ} (h : i ≤ text.length) :
    sliceOrPanic text (byteAt text i) (utf8Len text) = .ok (text.drop i) := by
  rw [← byteAt_length, sliceOrPanic_byteAt text h]
  exact congrArg Except.ok (take_of_length_le (by rw [length_drop]))

theorem originalByteOffset_eq {k : ℕ} (h : k ≤ content.length) :
    originalByteOffset (charIndices content) k (utf8Len content) = .ok (byteAt content k) := by
  unfold originalByteOffset
  rw [length_charIndices]
  split
  · rename_i heq
    rw [heq, byteAt_length]
  · rename_i hne
    have hlt : k < content.length := by omega
    rw [getElem?_charIndices, List.getElem?_eq_getElem hlt]
    rfl

@[simp] theorem length_normalizeSmartQuotes (value : List Char) :
    (normalizeSmartQuotes value).length = value.length := length_map _

/-- **The offsets are those of characters**: the positions in the copy are those in the content. -/
theorem spliceMatches_eq {normalizedOld newString : List Char} {replaceAll : Bool} :
    ∀ (ks : List ℕ) (previous : ℕ) (result : List Char), previous ≤ content.length →
      (∀ k ∈ ks, previous ≤ k ∧ k + normalizedOld.length ≤ content.length) →
      (ks.Pairwise fun k k' => k + normalizedOld.length ≤ k') →
      spliceMatches content (normalizeSmartQuotes content) normalizedOld newString replaceAll
          (byteAt content previous) result (ks.map (byteAt (normalizeSmartQuotes content))) =
        .ok (result ++ replaceSpans content normalizedOld.length newString previous
          (if replaceAll then ks else ks.take 1)) := by
  intro ks
  induction ks with
  | nil =>
    intro previous result hprevious _ _
    have hks : (if replaceAll then [] else ([] : List ℕ).take 1) = [] := by
      cases replaceAll <;> rfl
    rw [hks]
    simp only [map_nil, spliceMatches, sliceOrPanic_rest content hprevious, ok_bind,
      replaceSpans]
    rfl
  | cons k ks ih =>
    intro previous result hprevious hks hapart
    obtain ⟨hle, hend⟩ := hks k mem_cons_self
    have hapart := pairwise_cons.mp hapart
    have hstart : k ≤ content.length := by omega
    have hlength : ((normalizeSmartQuotes content).take k).length = k := by
      rw [length_take, length_normalizeSmartQuotes]
      omega
    simp only [map_cons, spliceMatches, sliceOrPanic_start, ok_bind, hlength,
      originalByteOffset_eq hstart, originalByteOffset_eq hend,
      sliceOrPanic_byteAt content hle]
    cases replaceAll with
    | true =>
      simp only [if_true]
      refine (ih (k + normalizedOld.length) _ hend (fun k' hk' => ?_) hapart.2).trans ?_
      · exact ⟨hapart.1 k' hk', (hks k' (mem_cons_of_mem _ hk')).2⟩
      · simp only [if_true, replaceSpans, append_assoc]
    | false =>
      simp only [sliceOrPanic_rest content hend, ok_bind, Bool.false_eq_true, if_false,
        take_succ_cons, take_zero, replaceSpans, append_assoc]
      rfl

end Offsets

/-! ## What is matched -/

/-- The recovery that an edit falls back on. -/
def recoveryFor (content oldString : List Char) : Option EditFileRecovery :=
  if oldString <:+: content then none
  else if crlf <:+: content ∧ '\n' ∈ oldString ∧ ¬crlf <:+: oldString ∧
      replaceNewlines oldString <:+: content then some .crlf
  else some .smartQuotes

/-- The text that is looked for. -/
def needleFor (oldString : List Char) : Option EditFileRecovery → List Char
  | none => oldString
  | some .crlf => replaceNewlines oldString
  | some .smartQuotes => normalizeSmartQuotes oldString

/-- The text in which it is looked for; its characters are at the positions of the content's. -/
def textFor (content : List Char) : Option EditFileRecovery → List Char
  | some .smartQuotes => normalizeSmartQuotes content
  | none | some .crlf => content

/-- The text that is written for a match. -/
def writtenFor (newString : List Char) : Option EditFileRecovery → List Char
  | some .crlf => replaceNewlines newString
  | none | some .smartQuotes => newString

def matchContextFor : Option EditFileRecovery → String
  | some .smartQuotes => " after smart-quote normalization"
  | none | some .crlf => ""

def matchesOf (content oldString : List Char) (recovery : Option EditFileRecovery) : List ℕ :=
  matchPositions (needleFor oldString recovery) (textFor content recovery)

section Matched

variable {content oldString newString : List Char} {replaceAll : Bool}

theorem needleFor_ne_nil (h : oldString ≠ []) (recovery : Option EditFileRecovery) :
    needleFor oldString recovery ≠ [] := by
  match recovery with
  | none => exact h
  | some .crlf =>
    obtain ⟨c, hc⟩ := exists_mem_of_ne_nil oldString h
    intro hnil
    have hpart := flatMap_eq_nil_iff.mp hnil c hc
    split at hpart <;> cases hpart
  | some .smartQuotes => exact fun hnil => h (map_eq_nil_iff.mp hnil)

theorem length_textFor (content : List Char) (recovery : Option EditFileRecovery) :
    (textFor content recovery).length = content.length := by
  match recovery with
  | none => rfl
  | some .crlf => rfl
  | some .smartQuotes => exact length_normalizeSmartQuotes content

theorem leftmost_matchesOf (content : List Char) (h : oldString ≠ [])
    (recovery : Option EditFileRecovery) :
    Leftmost (needleFor oldString recovery) (textFor content recovery)
      (matchesOf content oldString recovery) :=
  leftmost_matchPositions (needleFor_ne_nil h recovery) _

theorem matchesOf_eq_nil_iff (h : oldString ≠ []) (recovery : Option EditFileRecovery) :
    matchesOf content oldString recovery = [] ↔
      ¬needleFor oldString recovery <:+: textFor content recovery := by
  rw [← exists_occursAt_iff, ← (leftmost_matchesOf content h recovery).ne_nil_iff, not_not]

theorem length_matchIndices (needle text : List Char) :
    (matchIndices needle text).length = (matchPositions needle text).length :=
  length_map _

theorem length_matchIndices_pos_iff {needle text : List Char} (h : needle ≠ []) :
    (matchIndices needle text).length > 0 ↔ needle <:+: text := by
  rw [length_matchIndices, gt_iff_lt, length_pos_iff, ← exists_occursAt_iff]
  exact (leftmost_matchPositions h text).ne_nil_iff

/-- The outcome of an edit whose matches are known. -/
def outcomeFor (content oldString newString : List Char) (replaceAll : Bool)
    (recovery : Option EditFileRecovery) : EditOutcome where
  content := replaceSpans content (needleFor oldString recovery).length
    (writtenFor newString recovery) 0
    (if replaceAll then matchesOf content oldString recovery
      else (matchesOf content oldString recovery).take 1)
  replacements := if replaceAll then (matchesOf content oldString recovery).length else 1
  recovery := recovery

/-- The edit with its matches known: it is refused, or has the outcome. -/
def editWith (content oldString newString : List Char) (replaceAll : Bool)
    (recovery : Option EditFileRecovery) : Except EditFault EditOutcome :=
  if (matchesOf content oldString recovery).length > 1 ∧ replaceAll = false then
    .error (.error (ambiguousMessage (matchesOf content oldString recovery).length
      (matchContextFor recovery)))
  else .ok (outcomeFor content oldString newString replaceAll recovery)

theorem finishEdit_eq (recovery : Option EditFileRecovery)
    (hrecovery : recovery ≠ some .smartQuotes) :
    finishEdit content (needleFor oldString recovery) (writtenFor newString recovery) replaceAll
        (matchIndices (needleFor oldString recovery) content).length recovery =
      editWith content oldString newString replaceAll recovery := by
  have htext : textFor content recovery = content := by
    match recovery with
    | none => rfl
    | some .crlf => rfl
    | some .smartQuotes => exact absurd rfl hrecovery
  have hcontext : matchContextFor recovery = "" := by
    match recovery with
    | none => rfl
    | some .crlf => rfl
    | some .smartQuotes => exact absurd rfl hrecovery
  unfold finishEdit enforceUniqueness editWith outcomeFor matchesOf
  rw [htext, hcontext, length_matchIndices]
  split
  · rfl
  · cases replaceAll <;> rfl

theorem recoverSmartQuotes_eq (hold : oldString ≠ []) (hnone : ¬oldString <:+: content) :
    recoverSmartQuotes content oldString newString replaceAll =
      if matchesOf content oldString (some .smartQuotes) = [] then
        .error (.error "oldString not found in file; edit refused.")
      else editWith content oldString newString replaceAll (some .smartQuotes) := by
  have hleft := leftmost_matchesOf content hold (some .smartQuotes)
  have hneedle := needleFor_ne_nil hold (some .smartQuotes)
  unfold recoverSmartQuotes
  simp only
  by_cases hnil : matchesOf content oldString (some .smartQuotes) = []
  · have hcount : (matchIndices (normalizeSmartQuotes oldString)
        (normalizeSmartQuotes content)).length = 0 :=
      (length_matchIndices _ _).trans (length_eq_zero_iff.mpr hnil)
    rw [if_pos hnil, if_neg fun h => absurd h.2 (by omega)]
  · have hcount : (matchIndices (normalizeSmartQuotes oldString)
        (normalizeSmartQuotes content)).length > 0 := by
      rw [length_matchIndices]
      exact length_pos_iff.mpr hnil
    have hchanged : normalizeSmartQuotes oldString ≠ oldString ∨
        normalizeSmartQuotes content ≠ content := by
      by_contra hsame
      push Not at hsame
      have hocc := (length_matchIndices_pos_iff hneedle).mp hcount
      rw [show needleFor oldString (some .smartQuotes) = oldString from hsame.1, hsame.2] at hocc
      exact hnone hocc
    rw [if_neg hnil, if_pos ⟨hchanged, hcount⟩]
    have hspliced : spliceViaNormalized content (normalizeSmartQuotes content)
        (normalizeSmartQuotes oldString) newString replaceAll =
        .ok (replaceSpans content (normalizeSmartQuotes oldString).length newString 0
          (if replaceAll then matchesOf content oldString (some .smartQuotes)
            else (matchesOf content oldString (some .smartQuotes)).take 1)) := by
      refine spliceMatches_eq (matchesOf content oldString (some .smartQuotes)) 0 []
        (Nat.zero_le _) (fun k hk => ⟨Nat.zero_le _, ?_⟩) hleft.apart
      have hle := (hleft.occurs k hk).length_le hneedle
      rw [length_textFor] at hle
      exact hle
    have hlength : (matchIndices (normalizeSmartQuotes oldString)
        (normalizeSmartQuotes content)).length =
        (matchesOf content oldString (some .smartQuotes)).length := length_matchIndices _ _
    unfold enforceUniqueness editWith outcomeFor
    rw [hspliced, hlength]
    by_cases hmany : (matchesOf content oldString (some .smartQuotes)).length > 1 ∧
        replaceAll = false
    · rw [if_pos hmany, if_pos hmany]
      rfl
    · rw [if_neg hmany, if_neg hmany]
      rfl

/-- **What an edit computes.** -/
theorem applyEdit_eq (hold : oldString ≠ []) (hne : oldString ≠ newString) :
    applyEdit content oldString newString replaceAll =
      if matchesOf content oldString (recoveryFor content oldString) = [] then
        .error (.error "oldString not found in file; edit refused.")
      else editWith content oldString newString replaceAll (recoveryFor content oldString) := by
  have hcrlf : (matchIndices (replaceNewlines oldString) content).length > 0 ↔
      replaceNewlines oldString <:+: content :=
    length_matchIndices_pos_iff (needleFor_ne_nil hold (some .crlf))
  unfold applyEdit
  simp only [if_neg hold, if_neg hne, length_matchIndices_pos_iff hold]
  by_cases hplain : oldString <:+: content
  · have hrecovery : recoveryFor content oldString = none := if_pos hplain
    rw [if_pos hplain, hrecovery,
      if_neg (mt (matchesOf_eq_nil_iff hold none).mp (not_not.mpr hplain))]
    exact finishEdit_eq none (by decide)
  · rw [if_neg hplain]
    by_cases hwindows : crlf <:+: content ∧ '\n' ∈ oldString ∧ ¬crlf <:+: oldString ∧
        replaceNewlines oldString <:+: content
    · have hrecovery : recoveryFor content oldString = some .crlf := by
        unfold recoveryFor
        rw [if_neg hplain, if_pos hwindows]
      obtain ⟨hcontent, hbreak, hold', hocc⟩ := hwindows
      rw [if_pos ⟨⟨hcontent, hbreak, hold'⟩, hcrlf.mpr hocc⟩, hrecovery,
        if_neg (mt (matchesOf_eq_nil_iff hold (some .crlf)).mp (not_not.mpr hocc))]
      exact finishEdit_eq (some .crlf) (by decide)
    · have hrecovery : recoveryFor content oldString = some .smartQuotes := by
        unfold recoveryFor
        rw [if_neg hplain, if_neg hwindows]
      rw [if_neg fun h => hwindows ⟨h.1.1, h.1.2.1, h.1.2.2, hcrlf.mp h.2⟩, hrecovery]
      exact recoverSmartQuotes_eq hold hplain

end Matched

end Chelix.ToolsService
