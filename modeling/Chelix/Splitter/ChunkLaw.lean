import Chelix.Splitter.Markdown
import Mathlib.Algebra.Order.BigOperators.Group.List
import Mathlib.Algebra.Order.Ring.Nat
import Mathlib.Data.List.Chain

/-!
# Chunks cover the lines

* **`chunks_cover_iff`**: chunks cover the lines, and each adds a line exactly if every chunk leaves
  room for the next.
-/

namespace Chelix.Splitter

open Chelix.Library List

section Law

variable (lines : List (List Char)) (tokens : List ℕ) (chunkSize overlap : ℕ)

/-- The tokens of the lines from one on and before another. -/
def tokensBetween (start stop : ℕ) : ℕ := ((tokens.drop start).take (stop - start)).sum

/-- Chunks cover the lines from one on. -/
structure Covers (start : ℕ) (chunks : List Chunk) : Prop where
  text : ∀ chunk ∈ chunks, 1 ≤ chunk.startLine ∧ chunk.startLine ≤ chunk.endLine ∧
    chunk.endLine ≤ lines.length ∧ chunk.text = ['\n'].intercalate
      ((lines.drop (chunk.startLine - 1)).take (chunk.endLine - (chunk.startLine - 1)))
  first : start < lines.length → chunks.head?.map Chunk.startLine = some (start + 1)
  last : start < lines.length → chunks.getLast?.map Chunk.endLine = some lines.length
  /-- No line between two chunks is left out. -/
  adjoin : chunks.IsChain fun chunk next => next.startLine ≤ chunk.endLine + 1
  /-- Only a single line has more tokens than a chunk is to have. -/
  bounded : ∀ chunk ∈ chunks,
    chunkSize < tokensBetween tokens (chunk.startLine - 1) chunk.endLine →
      chunk.startLine = chunk.endLine

/-- Every chunk ends later than the chunk before it. -/
def Progressive (chunks : List Chunk) : Prop :=
  chunks.IsChain fun chunk next => chunk.endLine < next.endLine

/-- The loop goes from the first line of a chunk to that of the next. -/
def NextChunk (start next : ℕ) : Prop :=
  chunkEnd tokens chunkSize start < tokens.length ∧
    next = nextStart tokens chunkSize overlap start

/-- **The lines that are taken again leave room** for the first line that the chunk did not take. -/
def Roomy (start : ℕ) : Prop :=
  chunkEnd tokens chunkSize start < tokens.length →
    nextStart tokens chunkSize overlap start < chunkEnd tokens chunkSize start →
      tokensBetween tokens (nextStart tokens chunkSize overlap start)
        (chunkEnd tokens chunkSize start + 1) ≤ chunkSize

variable {tokens chunkSize overlap}

/-! ## One chunk -/

theorem le_fill_iff {k taken : ℕ} {rest : List ℕ} :
    k ≤ fill chunkSize taken rest ↔
      k = 0 ∨ k ≤ rest.length ∧ taken + (rest.take k).sum ≤ chunkSize := by
  induction rest generalizing k taken with
  | nil =>
    rw [fill, length_nil]
    omega
  | cons count rest ih =>
    cases k with
    | zero => exact iff_of_true (Nat.zero_le _) (.inl rfl)
    | succ k =>
      rw [fill, length_cons, take_succ_cons, sum_cons]
      split
      · have hnext := @ih k (taken + count)
        constructor
        · intro hle
          rcases hnext.mp (by omega) with rfl | ⟨hlen, hsum⟩
          · exact .inr ⟨by omega, by rw [take_zero, sum_nil]; omega⟩
          · exact .inr ⟨by omega, by omega⟩
        · rintro (h | ⟨hlen, hsum⟩)
          · omega
          · have := hnext.mpr (.inr ⟨by omega, by omega⟩)
            omega
      · constructor
        · intro hle
          omega
        · rintro (h | ⟨-, hsum⟩)
          · omega
          · omega

variable {start : ℕ}

theorem le_chunkEnd_iff {stop : ℕ} (h : start < stop) (hlen : start ≤ tokens.length) :
    stop ≤ chunkEnd tokens chunkSize start ↔
      stop = start + 1 ∨ stop ≤ tokens.length ∧ tokensBetween tokens start stop ≤ chunkSize := by
  have hfill := @le_fill_iff chunkSize (stop - start) 0 (tokens.drop start)
  rw [length_drop, Nat.zero_add] at hfill
  have hend : stop ≤ chunkEnd tokens chunkSize start ↔
      stop = start + 1 ∨ stop - start ≤ fill chunkSize 0 (tokens.drop start) := by
    simp only [chunkEnd]
    split <;> omega
  rw [hend, hfill]
  unfold tokensBetween
  constructor
  · rintro (h | h | ⟨hle, hsum⟩)
    · exact .inl h
    · omega
    · exact .inr ⟨by omega, hsum⟩
  · rintro (h | ⟨hle, hsum⟩)
    · exact .inl h
    · exact .inr (.inr ⟨by omega, hsum⟩)

theorem chunkEnd_le (h : start < tokens.length) :
    chunkEnd tokens chunkSize start ≤ tokens.length := by
  have hlt := start_lt_chunkEnd tokens chunkSize start
  rcases (le_chunkEnd_iff hlt h.le).mp le_rfl with heq | ⟨hle, -⟩
  · omega
  · exact hle

theorem tokensBetween_chunkEnd (h : start < tokens.length)
    (hmore : chunkSize < tokensBetween tokens start (chunkEnd tokens chunkSize start)) :
    chunkEnd tokens chunkSize start = start + 1 := by
  have hlt := start_lt_chunkEnd tokens chunkSize start
  rcases (le_chunkEnd_iff hlt h.le).mp le_rfl with heq | ⟨-, hsum⟩
  · exact heq
  · omega

theorem walkBack_le (start taken line : ℕ) :
    walkBack tokens overlap start taken line ≤ line := by
  induction line generalizing taken with
  | zero => exact le_rfl
  | succ line ih =>
    rw [walkBack]
    split
    · exact (ih _).trans (Nat.le_succ line)
    · exact le_rfl

theorem nextStart_le_chunkEnd (start : ℕ) :
    nextStart tokens chunkSize overlap start ≤ chunkEnd tokens chunkSize start := by
  have hlt := start_lt_chunkEnd tokens chunkSize start
  have hback := @walkBack_le tokens overlap start 0 (chunkEnd tokens chunkSize start)
  simp only [nextStart]
  split <;> omega

/-- **The next chunk ends later exactly if there is room for a further line.** -/
theorem chunkEnd_lt_iff (h : chunkEnd tokens chunkSize start < tokens.length) :
    chunkEnd tokens chunkSize start <
        chunkEnd tokens chunkSize (nextStart tokens chunkSize overlap start) ↔
      Roomy tokens chunkSize overlap start := by
  have hle := @nextStart_le_chunkEnd tokens chunkSize overlap start
  rw [Nat.lt_iff_add_one_le, le_chunkEnd_iff (by omega) (by omega)]
  constructor
  · rintro (heq | ⟨-, hsum⟩) - hlt
    · omega
    · exact hsum
  · intro hroomy
    rcases hle.lt_or_eq with hlt | heq
    · exact .inr ⟨h, hroomy h hlt⟩
    · exact .inl (by omega)

/-! ## All chunks -/

variable {lines}

theorem chunksFrom_of_lt (h : start < lines.length) :
    chunksFrom lines tokens chunkSize overlap start =
      chunkOf lines start (chunkEnd tokens chunkSize start) ::
        if lines.length ≤ chunkEnd tokens chunkSize start then []
        else chunksFrom lines tokens chunkSize overlap
          (nextStart tokens chunkSize overlap start) := by
  rw [chunksFrom, if_pos h]

theorem chunksFrom_of_le (h : lines.length ≤ start) :
    chunksFrom lines tokens chunkSize overlap start = [] := by
  rw [chunksFrom, if_neg (not_lt.mpr h)]

theorem Covers.cons {stop next : ℕ} {rest : List Chunk}
    (h : Covers lines tokens chunkSize next rest) (hlt : start < stop) (hstop : stop < lines.length)
    (hnext : next ≤ stop)
    (hbounded : chunkSize < tokensBetween tokens start stop → stop = start + 1) :
    Covers lines tokens chunkSize start (chunkOf lines start stop :: rest) := by
  have hfirst := h.first (by omega)
  have hlast := h.last (by omega)
  constructor
  · refine forall_mem_cons.mpr ⟨⟨?_, ?_, hstop.le, rfl⟩, h.text⟩
    · exact Nat.le_add_left 1 start
    · exact hlt
  · exact fun _ => rfl
  · intro _
    cases rest with
    | nil => cases hfirst
    | cons chunk rest => rwa [List.getLast?_cons_cons]
  · refine isChain_cons.mpr ⟨fun chunk hchunk => ?_, h.adjoin⟩
    rw [Option.mem_def.mp hchunk] at hfirst
    rw [Option.some.inj hfirst]
    exact Nat.succ_le_succ hnext
  · exact forall_mem_cons.mpr ⟨fun hmore => (hbounded hmore).symm, h.bounded⟩

theorem covers_singleton (hlt : start < lines.length)
    (hbounded : chunkSize < tokensBetween tokens start lines.length → lines.length = start + 1) :
    Covers lines tokens chunkSize start [chunkOf lines start lines.length] := by
  constructor
  · refine forall_mem_singleton.mpr ⟨?_, hlt, le_rfl, rfl⟩
    exact Nat.le_add_left 1 start
  · exact fun _ => rfl
  · exact fun _ => rfl
  · exact List.IsChain.singleton _
  · exact forall_mem_singleton.mpr fun hmore => (hbounded hmore).symm

theorem covers_chunksFrom (htokens : tokens.length = lines.length) (start : ℕ) :
    Covers lines tokens chunkSize start (chunksFrom lines tokens chunkSize overlap start) := by
  induction start using chunksFrom.induct lines tokens chunkSize overlap with
  | case1 start hlt ih =>
    have hbounded := @tokensBetween_chunkEnd tokens chunkSize start (htokens ▸ hlt)
    rw [chunksFrom_of_lt hlt]
    split
    · next hstop =>
      have hend : chunkEnd tokens chunkSize start = lines.length :=
        le_antisymm (htokens ▸ chunkEnd_le (htokens ▸ hlt)) hstop
      rw [hend] at hbounded ⊢
      exact covers_singleton hlt hbounded
    · next hstop =>
      exact ih.cons (start_lt_chunkEnd tokens chunkSize start) (not_le.mp hstop)
        (nextStart_le_chunkEnd start) hbounded
  | case2 start hlt =>
    rw [chunksFrom_of_le (not_lt.mp hlt)]
    exact ⟨fun _ h => absurd h not_mem_nil, fun h => absurd h hlt, fun h => absurd h hlt,
      List.IsChain.nil, fun _ h => absurd h not_mem_nil⟩

/-- **Every chunk adds a line exactly if every chunk leaves room for the next.** -/
theorem progressive_chunksFrom_iff (htokens : tokens.length = lines.length) (start : ℕ) :
    Progressive (chunksFrom lines tokens chunkSize overlap start) ↔
      ∀ later, Relation.ReflTransGen (NextChunk tokens chunkSize overlap) start later →
        Roomy tokens chunkSize overlap later := by
  induction start using chunksFrom.induct lines tokens chunkSize overlap with
  | case1 start hlt ih =>
    rw [chunksFrom_of_lt hlt]
    split
    · next hstop =>
      refine iff_of_true (List.IsChain.singleton _) fun later hreach => ?_
      rcases hreach.cases_head with rfl | ⟨next, hnext, -⟩
      · exact fun hless => absurd hless (by omega)
      · exact absurd hnext.1 (by omega)
    · next hstop =>
      have hless : chunkEnd tokens chunkSize start < tokens.length := by omega
      have hnextLt : nextStart tokens chunkSize overlap start < lines.length :=
        (nextStart_le_chunkEnd start).trans_lt (not_le.mp hstop)
      have hhead : (∀ chunk ∈ (chunksFrom lines tokens chunkSize overlap
            (nextStart tokens chunkSize overlap start)).head?,
          chunkEnd tokens chunkSize start < chunk.endLine) ↔
            Roomy tokens chunkSize overlap start := by
        rw [chunksFrom_of_lt hnextLt, List.head?_cons, ← chunkEnd_lt_iff hless]
        exact ⟨fun h => h _ rfl, fun h chunk hchunk => Option.some.inj hchunk ▸ h⟩
      unfold Progressive at ih ⊢
      rw [isChain_cons, ih]
      constructor
      · rintro ⟨hfirst, hrest⟩ later hreach
        rcases hreach.cases_head with rfl | ⟨next, hnext, hlater⟩
        · exact hhead.mp hfirst
        · exact hrest later (hnext.2 ▸ hlater)
      · intro hall
        refine ⟨hhead.mpr (hall start .refl), fun later hreach => hall later ?_⟩
        exact .head ⟨hless, rfl⟩ hreach
  | case2 start hlt =>
    rw [chunksFrom_of_le (not_lt.mp hlt)]
    refine iff_of_true List.IsChain.nil fun later hreach hless => ?_
    -- no line is left from which the loop could go on
    have hlate : lines.length ≤ later := by
      clear hless
      induction hreach with
      | refl => exact not_lt.mp hlt
      | tail _ hnext ih =>
        rw [hnext.2]
        exact ih.trans (start_lt_nextStart tokens chunkSize overlap _).le
    have := start_lt_chunkEnd tokens chunkSize later
    omega

end Law

/-! ## Texts -/

/-- **Chunks cover the lines of a text, and each adds a line exactly if every chunk leaves room for
the next.** -/
theorem chunks_cover_iff (text : List Char) {chunkSize : ℕ} (hsize : 0 < chunkSize)
    (overlap : ℕ) :
    (Covers (textLines text) ((textLines text).map lineTokens) chunkSize 0
        (chunkMarkdown chunkSize overlap text) ∧
      Progressive (chunkMarkdown chunkSize overlap text)) ↔
    ∀ start, Relation.ReflTransGen
      (NextChunk ((textLines text).map lineTokens) chunkSize overlap) 0 start →
        Roomy ((textLines text).map lineTokens) chunkSize overlap start := by
  have hchunks : chunkMarkdown chunkSize overlap text = chunksFrom (textLines text)
      ((textLines text).map lineTokens) chunkSize overlap 0 := by
    unfold chunkMarkdown
    by_cases htext : text = []
    · subst htext
      rw [if_pos (.inl rfl), chunksFrom_of_le (Nat.zero_le _)]
    · rw [if_neg (not_or.mpr ⟨htext, hsize.ne'⟩)]
  rw [hchunks, progressive_chunksFrom_iff (List.length_map _)]
  exact and_iff_right (covers_chunksFrom (List.length_map _) 0)

theorem chunks_cover_iff_two_lines :
    (chunkMarkdown 2 1 "a\nb\nc".toList).map (fun chunk => (chunk.startLine, chunk.endLine)) =
        [(1, 2), (2, 3)] ∧
      Covers (textLines "a\nb\nc".toList) ((textLines "a\nb\nc".toList).map lineTokens) 2 0
        (chunkMarkdown 2 1 "a\nb\nc".toList) ∧
      Progressive (chunkMarkdown 2 1 "a\nb\nc".toList) := by
  refine ⟨by decide +kernel,
    (chunks_cover_iff "a\nb\nc".toList (by decide) 1).mpr fun start hreach => ?_⟩
  have hstart : start = 0 ∨ start = 1 := by
    induction hreach with
    | refl => exact .inl rfl
    | tail _ hnext ih =>
      rcases ih with rfl | rfl
      · exact .inr (hnext.2.trans (by decide +kernel))
      · exact absurd hnext.1 (by decide +kernel)
  unfold Roomy
  rcases hstart with rfl | rfl
  · decide +kernel
  · decide +kernel

/-- A long line after short ones gives a chunk of lines that are all taken already. -/
theorem long_line_adds_nothing : ¬ ∀ (text : List Char) (chunkSize overlap : ℕ), 0 < chunkSize →
    Progressive (chunkMarkdown chunkSize overlap text) := by
  intro h
  have hchain := h "a\nb\nc c".toList 2 1 (by decide)
  have hchunks : (chunkMarkdown 2 1 "a\nb\nc c".toList).map Chunk.endLine = [2, 2, 3] := by
    decide +kernel
  have hmap := (List.isChain_map Chunk.endLine).mpr hchain
  rw [hchunks] at hmap
  revert hmap
  decide

end Chelix.Splitter
