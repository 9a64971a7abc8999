import Chelix.Memory.EmbedPayload

/-!
# What the splitting of oversize chunks gives

* **`splitOversizeEmbedChunks_spec`**: when all chunks are split, and into what.
-/

namespace Chelix.Memory

open Chelix.Library Chelix.Splitter List

/-! ## The length of a request -/

theorem toList_embeddingRequest (text : List Char) : (embeddingRequest text).toText.toList =
    "\x7b\"text\":\"".toList ++ text.flatMap Json.escapeChar ++ "\",\"priority\":0\x7d".toList := by
  have hpair : ∀ a b : String, ",".intercalate [a, b] = a ++ "," ++ b := fun _ _ => rfl
  have htext : Json.escape "text" = "\"text\"" := by decide
  have hpriority : Json.escape "priority" = "\"priority\"" := by decide
  have hindex : (JsonNumber.posInt embeddingPriorityIndex).toString = "0" := rfl
  unfold embeddingRequest
  simp only [Json.toText, Json.toTextFields]
  rw [hpair, htext, hpriority, hindex, Json.escape]
  simp [String.toList_append, String.toList_ofList]

theorem embedRequestBytes_eq (text : List Char) :
    embedRequestBytes text = embedRequestBytes [] + utf8Len (text.flatMap Json.escapeChar) := by
  unfold embedRequestBytes
  rw [toList_embeddingRequest, toList_embeddingRequest]
  simp only [utf8Len_append, flatMap_nil, utf8Len_nil]
  omega

theorem embedRequestBytes_le_append (front text back : List Char) :
    embedRequestBytes text ≤ embedRequestBytes (front ++ text ++ back) := by
  rw [embedRequestBytes_eq text, embedRequestBytes_eq (front ++ text ++ back), flatMap_append,
    flatMap_append, utf8Len_append, utf8Len_append]
  omega

theorem embedRequestBytes_le_of_mem {c : Char} {text : List Char} (h : c ∈ text) :
    embedRequestBytes [c] ≤ embedRequestBytes text := by
  obtain ⟨front, back, rfl⟩ := append_of_mem h
  have hle := embedRequestBytes_le_append front [c] back
  rwa [append_assoc, singleton_append] at hle

/-! ## Parts of a chunk -/

/-- The last line is that of the last character. -/
def WellLocated (chunk : Chunk) : Prop :=
  chunk.endLine = chunk.startLine + chunk.text.dropLast.count '\n'

/-- A chunk that is too long and has no parts that fit. -/
def Refused (limit : ℕ) (chunk : Chunk) : Prop :=
  limit < embedRequestBytes chunk.text ∧
    (chunk.text = [] ∨ ∃ c ∈ chunk.text, limit < embedRequestBytes [c])

/-- The parts of a chunk: its text in order, all within the limit, at their lines. -/
structure SplitInto (limit : ℕ) (chunk : Chunk) (parts : List Chunk) : Prop where
  text_eq : parts.flatMap Chunk.text = chunk.text
  fits : ∀ part ∈ parts, embedRequestBytes part.text ≤ limit
  nonempty : chunk.text ≠ [] → ∀ part ∈ parts, part.text ≠ []
  unchanged : embedRequestBytes chunk.text ≤ limit → parts = [chunk]
  located : ∀ before part after, parts = before ++ part :: after →
    part.startLine = chunk.startLine + (before.flatMap Chunk.text).count '\n' ∧
    part.endLine = chunk.startLine + (before.flatMap Chunk.text ++ part.text.dropLast).count '\n'

theorem count_eq_dropLast (part : List Char) : part.count '\n' =
    part.dropLast.count '\n' + if part.getLast? = some '\n' then 1 else 0 := by
  induction part using List.reverseRecOn with
  | nil => rfl
  | append_singleton part c _ =>
    rw [dropLast_concat, List.getLast?_concat, count_append, count_singleton]
    simp

/-- A part behind a text, with the line that it starts on. -/
def partAt (parent : Chunk) (front part : List Char) : Chunk where
  text := part
  startLine := parent.startLine + front.count '\n'
  endLine := parent.startLine + front.count '\n' + part.dropLast.count '\n'

theorem chunkPart_eq {parent : Chunk} {front part : List Char} (h : parent.text = front ++ part)
    (sub : List Char) :
    chunkPart parent (utf8Len front) sub = .ok (partAt parent front sub) := by
  unfold chunkPart partAt
  rw [h, splitAt_of_append]
  have hcount := count_eq_dropLast sub
  simp only [Except.ok.injEq, Chunk.mk.injEq, true_and]
  by_cases hlast : sub.getLast? = some '\n'
  · rw [if_pos hlast] at hcount ⊢
    omega
  · rw [if_neg hlast] at hcount ⊢
    omega

variable {limit : ℕ} {chunk : Chunk}

theorem splitInto_self {limit : ℕ} {chunk : Chunk} (hlocated : WellLocated chunk)
    (hfits : embedRequestBytes chunk.text ≤ limit) : SplitInto limit chunk [chunk] := by
  refine ⟨?_, ?_, ?_, fun _ => rfl, ?_⟩
  · rw [flatMap_singleton]
  · intro part hmem
    rwa [mem_singleton.mp hmem]
  · intro hne part hmem
    rwa [mem_singleton.mp hmem]
  · intro before part after heq
    cases before with
    | nil =>
      obtain ⟨rfl, -⟩ := List.cons.inj heq
      exact ⟨rfl, hlocated⟩
    | cons first before =>
      have hlength := congrArg List.length heq
      simp at hlength

variable {left right : List Char}

/-- **The parts of both halves are parts of the whole.** -/
theorem SplitInto.append {parts rest : List Chunk} (htext : left ++ right = chunk.text)
    (hleftNe : left ≠ []) (hrightNe : right ≠ []) (hover : limit < embedRequestBytes chunk.text)
    (hleft : SplitInto limit (partAt chunk [] left) parts)
    (hright : SplitInto limit (partAt chunk left right) rest) :
    SplitInto limit chunk (parts ++ rest) := by
  have hpartsText : parts.flatMap Chunk.text = left := hleft.text_eq
  have hrestText : rest.flatMap Chunk.text = right := hright.text_eq
  refine ⟨?_, ?_, ?_, fun hle => absurd hle (by omega), ?_⟩
  · rw [flatMap_append, hpartsText, hrestText, htext]
  · exact forall_mem_append.mpr ⟨hleft.fits, hright.fits⟩
  · exact fun _ => forall_mem_append.mpr ⟨hleft.nonempty hleftNe, hright.nonempty hrightNe⟩
  · intro before part after heq
    rcases append_eq_append_iff.mp heq with ⟨middle, rfl, hrest⟩ | ⟨middle, hparts, hafter⟩
    · obtain ⟨hstart, hend⟩ := hright.located middle part after hrest
      simp only [partAt, flatMap_append, hpartsText, count_append] at hstart hend ⊢
      omega
    · cases middle with
      | nil =>
        rw [append_nil] at hparts
        subst hparts
        obtain ⟨hstart, hend⟩ := hright.located [] part after hafter.symm
        simp only [partAt, flatMap_nil, count_nil, hpartsText, count_append,
          nil_append] at hstart hend ⊢
        omega
      | cons first middle =>
        obtain ⟨rfl, -⟩ := List.cons.inj hafter
        obtain ⟨hstart, hend⟩ := hleft.located before part middle hparts
        simp only [partAt, count_nil, Nat.add_zero] at hstart hend ⊢
        exact ⟨hstart, hend⟩

theorem splitChunk_of_splitText (htext : left ++ right = chunk.text)
    (hover : limit < embedRequestBytes chunk.text) (hlength : 1 < chunk.text.length)
    (hsplit : splitText chunk.text = some (.ok (left, right))) :
    splitChunk limit chunk =
      match splitChunk limit (partAt chunk [] left) with
      | .error failure => .error failure
      | .ok parts =>
        match splitChunk limit (partAt chunk left right) with
        | .error failure => .error failure
        | .ok rest => .ok (parts ++ rest) := by
  have hleft : chunkPart chunk 0 left = .ok (partAt chunk [] left) :=
    @chunkPart_eq chunk [] chunk.text rfl left
  have hright := chunkPart_eq htext.symm right
  rw [splitChunk, if_neg (by omega), if_neg (by omega)]
  split
  · next h =>
    rw [hsplit] at h
    cases h
  · next h =>
    rw [hsplit] at h
    cases h
  · next l r h =>
    rw [hsplit] at h
    cases h
    split
    · next hfail =>
      rw [hleft] at hfail
      cases hfail
    · next leftChunk hchunk =>
      rw [hleft] at hchunk
      cases hchunk
      cases splitChunk limit (partAt chunk [] left) with
      | error failure => rfl
      | ok parts =>
        simp only
        split
        · next hfail =>
          rw [hright] at hfail
          cases hfail
        · next rightChunk hchunk =>
          rw [hright] at hchunk
          cases hchunk
          rfl

theorem refused_iff_of_append (htext : left ++ right = chunk.text) (hleft : left ≠ [])
    (hright : right ≠ []) (hover : limit < embedRequestBytes chunk.text) :
    Refused limit chunk ↔
      Refused limit (partAt chunk [] left) ∨ Refused limit (partAt chunk left right) := by
  have hover_of_mem : ∀ {part : List Char}, (∃ c ∈ part, limit < embedRequestBytes [c]) →
      limit < embedRequestBytes part := by
    rintro part ⟨c, hc, hlt⟩
    exact hlt.trans_le (embedRequestBytes_le_of_mem hc)
  constructor
  · rintro ⟨-, hempty | ⟨c, hc, hlt⟩⟩
    · rw [← htext] at hempty
      exact absurd (append_eq_nil_iff.mp hempty).1 hleft
    · rw [← htext] at hc
      rcases mem_append.mp hc with hc | hc
      · exact .inl ⟨hover_of_mem ⟨c, hc, hlt⟩, .inr ⟨c, hc, hlt⟩⟩
      · exact .inr ⟨hover_of_mem ⟨c, hc, hlt⟩, .inr ⟨c, hc, hlt⟩⟩
  · rintro (⟨-, hempty | ⟨c, hc, hlt⟩⟩ | ⟨-, hempty | ⟨c, hc, hlt⟩⟩)
    · exact absurd hempty hleft
    · exact ⟨hover, .inr ⟨c, htext ▸ mem_append_left _ hc, hlt⟩⟩
    · exact absurd hempty hright
    · exact ⟨hover, .inr ⟨c, htext ▸ mem_append_right _ hc, hlt⟩⟩

theorem wellLocated_partAt (parent : Chunk) (front part : List Char) :
    WellLocated (partAt parent front part) := rfl

/-- **One chunk is split into parts that fit, unless it is refused.** -/
theorem splitChunk_spec (limit : ℕ) (chunk : Chunk) (hlocated : WellLocated chunk) :
    (∃ parts, splitChunk limit chunk = .ok parts ∧ SplitInto limit chunk parts ∧
      ¬ Refused limit chunk) ∨
    (splitChunk limit chunk = .error payloadError ∧ Refused limit chunk) := by
  induction hn : chunk.text.length using Nat.strong_induction_on generalizing chunk with
  | h n ih =>
    subst hn
    by_cases hfits : embedRequestBytes chunk.text ≤ limit
    · refine .inl ⟨[chunk], ?_, splitInto_self hlocated hfits, fun h => absurd h.1 (by omega)⟩
      rw [splitChunk, if_pos hfits]
    have hover : limit < embedRequestBytes chunk.text := not_le.mp hfits
    by_cases hshort : chunk.text.length ≤ 1
    · -- no character, or a single one
      refine .inr ⟨by rw [splitChunk, if_neg hfits, if_pos hshort], hover, ?_⟩
      cases htext : chunk.text with
      | nil => exact .inl rfl
      | cons c rest =>
        rw [htext, length_cons] at hshort
        have hnil : rest = [] := length_eq_zero_iff.mp (by omega)
        rw [htext, hnil] at hover
        exact .inr ⟨c, mem_cons_self, hover⟩
    obtain ⟨left, right, htext, hleft, hright, hsplit⟩ := splitText_eq (not_le.mp hshort)
    have hlengths := length_of_splitText hsplit
    rw [splitChunk_of_splitText htext hover (not_le.mp hshort) hsplit,
      refused_iff_of_append htext hleft hright hover]
    rcases ih left.length hlengths.1 (partAt chunk [] left) (wellLocated_partAt ..) rfl with
      ⟨parts, hparts, hinto, hnot⟩ | ⟨herror, hrefused⟩
    · rcases ih right.length hlengths.2 (partAt chunk left right) (wellLocated_partAt ..) rfl with
        ⟨rest, hrest, hinto', hnot'⟩ | ⟨herror, hrefused⟩
      · refine .inl ⟨parts ++ rest, by rw [hparts, hrest], ?_, not_or.mpr ⟨hnot, hnot'⟩⟩
        exact SplitInto.append htext hleft hright hover hinto hinto'
      · exact .inr ⟨by rw [hparts, herror], .inr hrefused⟩
    · exact .inr ⟨by rw [herror], .inl hrefused⟩

/-- **Splitting oversize chunks loses nothing.**  It fails exactly if a chunk that is too long is
empty or has a character whose request alone is too long; otherwise the result is, chunk by
chunk, the chunk's text in parts that fit and have their lines. -/
theorem splitOversizeEmbedChunks_spec (limit : ℕ) {chunks : List Chunk}
    (hlocated : ∀ chunk ∈ chunks, WellLocated chunk) :
    (splitOversizeEmbedChunks limit chunks = .error payloadError ↔
      ∃ chunk ∈ chunks, Refused limit chunk) ∧
    ((¬ ∃ chunk ∈ chunks, Refused limit chunk) → ∃ parts : List (List Chunk),
      splitOversizeEmbedChunks limit chunks = .ok parts.flatten ∧
        List.Forall₂ (SplitInto limit) chunks parts) := by
  induction chunks with
  | nil =>
    refine ⟨iff_of_false (fun h => ?_) (fun ⟨_, h, _⟩ => absurd h List.not_mem_nil), fun _ => ?_⟩
    · cases h
    · exact ⟨[], rfl, .nil⟩
  | cons chunk chunks ih =>
    obtain ⟨hfirst, hrest⟩ := List.forall_mem_cons.mp hlocated
    obtain ⟨hiff, hparts⟩ := ih hrest
    have hcons : (∃ other ∈ chunk :: chunks, Refused limit other) ↔
        Refused limit chunk ∨ ∃ other ∈ chunks, Refused limit other := by
      simp only [List.mem_cons, exists_eq_or_imp]
    rw [hcons, splitOversizeEmbedChunks]
    rcases splitChunk_spec limit chunk hfirst with ⟨first, hok, hinto, hnot⟩ | ⟨herror, hrefused⟩
    · rw [hok]
      simp only
      rw [or_iff_right hnot]
      by_cases hbad : ∃ chunk ∈ chunks, Refused limit chunk
      · rw [hiff.mpr hbad]
        exact ⟨iff_of_true rfl hbad, fun h => absurd hbad h⟩
      · obtain ⟨parts, heq, hforall⟩ := hparts hbad
        rw [heq]
        refine ⟨iff_of_false (fun h => ?_) hbad, fun _ => ⟨first :: parts, rfl, hforall.cons hinto⟩⟩
        cases h
    · rw [herror]
      exact ⟨iff_of_true rfl (.inl hrefused), fun h => absurd (.inl hrefused) h⟩

/-- A note that fits a request of 32 bytes, and three lines of which no two fit. -/
def notes : List Chunk :=
  [⟨"a note".toList, 1, 1⟩, ⟨"one\ntwo\nthree\n".toList, 2, 4⟩]

theorem splitOversizeEmbedChunks_spec_line :
    (∃ chunk ∈ notes, 32 < embedRequestBytes chunk.text) ∧ ∃ parts : List (List Chunk),
      splitOversizeEmbedChunks 32 notes = .ok parts.flatten ∧
        List.Forall₂ (SplitInto 32) notes parts :=
  ⟨by decide +kernel, (splitOversizeEmbedChunks_spec 32
    (by decide : ∀ chunk ∈ notes,
      chunk.endLine = chunk.startLine + chunk.text.dropLast.count '\n')).2
    (by
      have hsingle : ∀ chunk ∈ notes, chunk.text ≠ [] ∧
          chunk.text.all (fun c => embedRequestBytes [c] ≤ 32) = true := by
        decide +kernel
      rintro ⟨chunk, hmem, -, hnil | ⟨c, hc, hover⟩⟩
      · exact (hsingle chunk hmem).1 hnil
      · have hle := of_decide_eq_true (all_eq_true.mp (hsingle chunk hmem).2 c hc)
        exact absurd hle (not_le.mpr hover))⟩

/-- An empty chunk has no character whose request could be too long, and is refused all the same. -/
theorem empty_chunk_refused :
    splitOversizeEmbedChunks 0 [⟨[], 1, 1⟩] = .error payloadError ∧
      ¬ ∃ chunk ∈ [(⟨[], 1, 1⟩ : Chunk)], ∃ c ∈ chunk.text, 0 < embedRequestBytes [c] := by
  refine ⟨?_, ?_⟩
  · rw [splitOversizeEmbedChunks, splitChunk, if_neg (by decide), if_pos (by decide)]
  · rintro ⟨chunk, hmem, c, hc, -⟩
    rw [List.mem_singleton.mp hmem] at hc
    exact List.not_mem_nil hc

end Chelix.Memory
