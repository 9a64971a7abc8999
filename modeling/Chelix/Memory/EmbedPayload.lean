import Chelix.Library.CharBoundary
import Chelix.Library.Json
import Chelix.Splitter.Markdown

/-!
# Oversize chunks of embedding requests

A chunk whose embedding request is longer than the body limit of the provider is split, at the
line break or white space nearest to its middle, until its parts fit.
-/

namespace Chelix.Memory

open Chelix.Library Chelix.Splitter

/-- The error of an embedding, or a text that is cut inside a character. -/
inductive SplitFailure where
  | embedding (message : String)
  | cutInsideCharacter
  deriving DecidableEq

/-! ## Requests -/

def embeddingPriorityIndex : ℕ := 0

/-- The body of a request: `text` and `priority`. -/
def embeddingRequest (text : List Char) : Json :=
  .obj [("text", .str (String.ofList text)), ("priority", .num (.posInt embeddingPriorityIndex))]

def embedRequestBytes (text : List Char) : ℕ := utf8Len (embeddingRequest text).toText.toList

/-! ## Where a text is split -/

/-- An offset 0 is moved behind the first character. -/
def charBoundaryAtOrBefore (text : List Char) (offset : ℕ) : ℕ :=
  let found := floorBoundary text (min offset (utf8Len text))
  if found = 0 then (text.head?.map Char.utf8Size).getD 0 else found

def absDiff (a b : ℕ) : ℕ := if a ≤ b then b - a else a - b

/-- One character of the search.  Of two splits at the same distance the first is kept, and a split
before or behind the whole text is none. -/
def nearestStep (text : List Char) (mid : ℕ) (p : Char → Bool) (best : Option (ℕ × ℕ))
    (indexed : ℕ × Char) : Option (ℕ × ℕ) :=
  if p indexed.2 then
    let split := indexed.1 + indexed.2.utf8Size
    if split = 0 ∨ split = utf8Len text then best
    else
      let distance := absDiff split mid
      match best with
      | some (bestDistance, _) =>
        if bestDistance ≤ distance then best else some (distance, split)
      | none => some (distance, split)
  else best

def nearestSplitAfter (text : List Char) (mid : ℕ) (p : Char → Bool) : Option ℕ :=
  ((charIndices text).foldl (nearestStep text mid p) none).map Prod.snd

def splitAt (text : List Char) (offset : ℕ) : Except SplitFailure (List Char × List Char) :=
  match splitAtByte offset text with
  | some parts => .ok parts
  | none => .error .cutInsideCharacter

/-- The offset of the split: behind a line break, else behind white space, else in the middle. -/
def splitOffset (text : List Char) : Option ℕ :=
  let mid := charBoundaryAtOrBefore text (utf8Len text / 2)
  match nearestSplitAfter text mid (· == '\n') with
  | some offset => some offset
  | none =>
    match nearestSplitAfter text mid isWhiteSpace with
    | some offset => some offset
    | none =>
      if mid = 0 ∨ mid = utf8Len text then
        match text.head? with
        | none => none
        | some c => if c.utf8Size = utf8Len text then none else some c.utf8Size
      else some mid

def splitText (text : List Char) : Option (Except SplitFailure (List Char × List Char)) :=
  (splitOffset text).map (splitAt text)

/-! ## Parts -/

def chunkPart (parent : Chunk) (byteOffset : ℕ) (part : List Char) : Except SplitFailure Chunk :=
  match splitAt parent.text byteOffset with
  | .error failure => .error failure
  | .ok (front, _) =>
    let startLine := parent.startLine + front.count '\n'
    let newlines := part.count '\n'
    let endLine := startLine + newlines - if part.getLast? = some '\n' then 1 else 0
    .ok ⟨part, startLine, endLine⟩

def payloadError : SplitFailure := .embedding "embedding payload exceeds the provider body limit"

/-! ## Every split is inside the text -/

/-- An offset that cuts a text into two parts, neither of them empty. -/
def CutsInside (text : List Char) (offset : ℕ) : Prop :=
  ∃ left right, left ++ right = text ∧ left ≠ [] ∧ right ≠ [] ∧ utf8Len left = offset

section Offsets

variable {text : List Char} {offset : ℕ}

theorem CutsInside.of_lengths {front back : List Char} (happend : front ++ back = text)
    (hzero : utf8Len front ≠ 0) (hlen : utf8Len front ≠ utf8Len text) :
    CutsInside text (utf8Len front) := by
  refine ⟨front, back, happend, ?_, ?_, rfl⟩
  · rintro rfl
    exact hzero utf8Len_nil
  · rintro rfl
    rw [← happend, List.append_nil] at hlen
    exact hlen rfl

theorem mem_charIndicesFrom {offset index : ℕ} {c : Char}
    (h : (index, c) ∈ charIndicesFrom offset text) :
    ∃ front back, front ++ c :: back = text ∧ index = offset + utf8Len front := by
  induction text generalizing offset with
  | nil => exact absurd h List.not_mem_nil
  | cons d text ih =>
    rcases List.mem_cons.mp h with heq | hmem
    · cases heq
      exact ⟨[], text, rfl, rfl⟩
    · obtain ⟨front, back, rfl, rfl⟩ := ih hmem
      refine ⟨d :: front, back, rfl, ?_⟩
      rw [utf8Len_cons]
      omega

theorem nearestStep_cutsInside {mid : ℕ} {p : Char → Bool} {best : Option (ℕ × ℕ)}
    {indexed : ℕ × Char} (hmem : indexed ∈ charIndices text)
    (hbest : ∀ found ∈ best, CutsInside text found.2) :
    ∀ found ∈ nearestStep text mid p best indexed, CutsInside text found.2 := by
  unfold nearestStep
  split
  · obtain ⟨front, back, happend, hindex⟩ := mem_charIndicesFrom hmem
    simp only
    split
    · exact hbest
    · next hinside =>
      have hsplit : CutsInside text (indexed.1 + indexed.2.utf8Size) := by
        have hlen : utf8Len (front ++ [indexed.2]) = indexed.1 + indexed.2.utf8Size := by
          rw [hindex, utf8Len_append, utf8Len_cons, utf8Len_nil]
          omega
        rw [← hlen] at hinside ⊢
        have hparts : (front ++ [indexed.2]) ++ back = text := by
          rw [← happend, List.append_assoc, List.singleton_append]
        exact CutsInside.of_lengths hparts (fun h => hinside (.inl h)) fun h => hinside (.inr h)
      split
      · split
        · exact hbest
        · rintro found ⟨⟩
          exact hsplit
      · rintro found ⟨⟩
        exact hsplit
  · exact hbest

theorem nearestSplitAfter_cutsInside {mid : ℕ} {p : Char → Bool}
    (h : nearestSplitAfter text mid p = some offset) : CutsInside text offset := by
  have hfold : ∀ (indexed : List (ℕ × Char)) (best : Option (ℕ × ℕ)),
      (∀ entry ∈ indexed, entry ∈ charIndices text) →
      (∀ found ∈ best, CutsInside text found.2) →
      ∀ found ∈ indexed.foldl (nearestStep text mid p) best, CutsInside text found.2 := by
    intro indexed
    induction indexed with
    | nil => exact fun best _ hbest => hbest
    | cons entry indexed ih =>
      intro best hall hbest
      exact ih _ (fun other hother => hall other (List.mem_cons_of_mem _ hother))
        (nearestStep_cutsInside (hall entry List.mem_cons_self) hbest)
  obtain ⟨found, hfound, rfl⟩ := Option.map_eq_some_iff.mp h
  refine hfold _ none (fun _ h => h) ?_ found hfound
  intro found hnone
  cases hnone

theorem charBoundaryAtOrBefore_prefix (text : List Char) (offset : ℕ) :
    ∃ front, front <+: text ∧ utf8Len front = charBoundaryAtOrBefore text offset := by
  unfold charBoundaryAtOrBefore
  simp only
  split
  · cases text with
    | nil => exact ⟨[], List.prefix_rfl, rfl⟩
    | cons c text =>
      refine ⟨[c], ⟨text, rfl⟩, ?_⟩
      rw [utf8Len_cons, utf8Len_nil]
      rfl
  · exact isCharBoundary_iff.mp (isCharBoundary_floorBoundary _ _)

theorem splitOffset_cutsInside (h : splitOffset text = some offset) : CutsInside text offset := by
  unfold splitOffset at h
  simp only at h
  split at h
  · next found hfound =>
    cases h
    exact nearestSplitAfter_cutsInside hfound
  split at h
  · next found hfound =>
    cases h
    exact nearestSplitAfter_cutsInside hfound
  split at h
  · cases text with
    | nil => cases h
    | cons c text =>
      simp only [List.head?_cons] at h
      split at h
      · cases h
      · next hlen =>
        cases h
        have hone : utf8Len [c] = c.utf8Size := by rw [utf8Len_cons, utf8Len_nil, Nat.add_zero]
        rw [← hone] at hlen ⊢
        have hpos := c.utf8Size_pos
        exact CutsInside.of_lengths rfl (by omega) hlen
  · next hmid =>
    cases h
    obtain ⟨front, ⟨back, happend⟩, hlen⟩ :=
      charBoundaryAtOrBefore_prefix text (utf8Len text / 2)
    rw [← hlen] at hmid ⊢
    exact CutsInside.of_lengths happend (fun h => hmid (.inl h)) fun h => hmid (.inr h)

theorem length_of_splitOffset_eq_none (h : splitOffset text = none) : text.length ≤ 1 := by
  unfold splitOffset at h
  simp only at h
  split at h
  · cases h
  split at h
  · cases h
  split at h
  · cases text with
    | nil => exact Nat.zero_le 1
    | cons c text =>
      simp only [List.head?_cons] at h
      split at h
      · next hlen =>
        rw [utf8Len_cons] at hlen
        have hnil : text = [] := utf8Len_eq_zero (by omega)
        rw [hnil]
        rfl
      · cases h
  · cases h

theorem splitAt_of_append (front back : List Char) :
    splitAt (front ++ back) (utf8Len front) = .ok (front, back) := by
  unfold splitAt
  rw [splitAtByte_utf8Len]

/-- **A text of more than one character is split in two**, neither part empty. -/
theorem splitText_eq (h : 1 < text.length) : ∃ left right, left ++ right = text ∧ left ≠ [] ∧
    right ≠ [] ∧ splitText text = some (.ok (left, right)) := by
  unfold splitText
  cases hoffset : splitOffset text with
  | none =>
    have := length_of_splitOffset_eq_none hoffset
    omega
  | some offset =>
    obtain ⟨left, right, rfl, hleft, hright, rfl⟩ := splitOffset_cutsInside hoffset
    exact ⟨left, right, rfl, hleft, hright, by rw [Option.map_some, splitAt_of_append]⟩

theorem length_of_splitText {left right : List Char}
    (h : splitText text = some (.ok (left, right))) :
    left.length < text.length ∧ right.length < text.length := by
  obtain ⟨offset, hoffset, hsplit⟩ := Option.map_eq_some_iff.mp h
  obtain ⟨front, back, rfl, hfront, hback, rfl⟩ := splitOffset_cutsInside hoffset
  rw [splitAt_of_append] at hsplit
  cases hsplit
  have hleft := List.length_pos_of_ne_nil hfront
  have hright := List.length_pos_of_ne_nil hback
  rw [List.length_append]
  omega

theorem text_of_chunkPart {parent chunk : Chunk} {part : List Char}
    (h : chunkPart parent offset part = .ok chunk) : chunk.text = part := by
  unfold chunkPart at h
  split at h
  · cases h
  · cases h
    rfl

end Offsets

/-! ## The recursion -/

def splitChunk (limit : ℕ) (chunk : Chunk) : Except SplitFailure (List Chunk) :=
  if embedRequestBytes chunk.text ≤ limit then .ok [chunk]
  else if chunk.text.length ≤ 1 then .error payloadError
  else
    match _hsplit : splitText chunk.text with
    | none => .error payloadError
    | some (.error failure) => .error failure
    | some (.ok (left, right)) =>
      match _hleft : chunkPart chunk 0 left with
      | .error failure => .error failure
      | .ok leftChunk =>
        match splitChunk limit leftChunk with
        | .error failure => .error failure
        | .ok parts =>
          match _hright : chunkPart chunk (utf8Len left) right with
          | .error failure => .error failure
          | .ok rightChunk =>
            match splitChunk limit rightChunk with
            | .error failure => .error failure
            | .ok rest => .ok (parts ++ rest)
termination_by chunk.text.length
decreasing_by
  · rw [text_of_chunkPart _hleft]
    exact (length_of_splitText _hsplit).1
  · rw [text_of_chunkPart _hright]
    exact (length_of_splitText _hsplit).2

/-- The parts of all chunks, up to the first failure. -/
def splitOversizeEmbedChunks (limit : ℕ) : List Chunk → Except SplitFailure (List Chunk)
  | [] => .ok []
  | chunk :: chunks =>
    match splitChunk limit chunk with
    | .error failure => .error failure
    | .ok parts =>
      match splitOversizeEmbedChunks limit chunks with
      | .error failure => .error failure
      | .ok rest => .ok (parts ++ rest)

end Chelix.Memory
