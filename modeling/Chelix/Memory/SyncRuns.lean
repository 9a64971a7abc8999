import Chelix.Memory.SyncFile

/-!
# What a sync does to the rows of a file

* **`failed_sync_keeps_rows_iff`**: when a failed sync keeps the rows.
-/

namespace Chelix.Memory.Syncing

open Chelix.Library Chelix.Splitter

variable {Embedding : Type} {m : MemoryManager Embedding} {faults : StoreFaults}
  {disk : String → Option (MarkdownFile (List Char))} {s s' : Store Embedding}
  {path other : String} {file : MarkdownFile (List Char)}

/-! ## Embedding touches no rows -/

theorem embedTexts_rows (embedder : Embedder Embedding) (texts : List (List Char)) :
    (embedTexts m faults embedder s texts).1.files = s.files ∧
    (embedTexts m faults embedder s texts).1.chunks = s.chunks ∧
    (embedTexts m faults embedder s texts).1.epochs = s.epochs := by
  unfold embedTexts
  simp only
  split
  · exact ⟨rfl, rfl, rfl⟩
  split
  · exact ⟨rfl, rfl, rfl⟩
  split
  · exact ⟨rfl, rfl, rfl⟩
  split
  · exact ⟨rfl, rfl, rfl⟩
  · exact ⟨rfl, rfl, rfl⟩

theorem embedChunks_rows (texts : List (List Char)) :
    (embedChunks m faults s texts).1.files = s.files ∧
    (embedChunks m faults s texts).1.chunks = s.chunks ∧
    (embedChunks m faults s texts).1.epochs = s.epochs := by
  unfold embedChunks
  split
  · exact ⟨rfl, rfl, rfl⟩
  · next embedder _ =>
    have hrows := @embedTexts_rows _ m faults s embedder texts
    split
    · next heq =>
      rw [heq] at hrows
      exact hrows
    · next heq =>
      rw [heq] at hrows
      exact hrows

/-- Where a sync fails after the content was read: at the splitter, at a lookup, at the embedder, at
the write of the cache or at that of the rows. -/
def FailurePoint (m : MemoryManager Embedding) (faults : StoreFaults) (s : Store Embedding)
    (path : String) (file : MarkdownFile (List Char)) : Prop :=
  (∃ failure, rawChunks m path file.content = .error failure) ∨
  (∃ chunks embedder, rawChunks m path file.content = .ok chunks ∧ m.embedder = some embedder ∧
    ((List.range chunks.length).any faults.getCachedEmbedding = true ∨
      missTexts m embedder s (chunks.map Chunk.text) ≠ [] ∧
        ((∃ message, embedder.embedBatch (missTexts m embedder s (chunks.map Chunk.text)) =
            .error message) ∨ faults.putCachedEmbeddings = true))) ∨
  faults.replaceFileIndex = true

theorem embedTexts_error_iff (embedder : Embedder Embedding) (texts : List (List Char)) :
    (∃ e, (embedTexts m faults embedder s texts).2 = .error e) ↔
      (List.range texts.length).any faults.getCachedEmbedding = true ∨
      missTexts m embedder s texts ≠ [] ∧
        ((∃ message, embedder.embedBatch (missTexts m embedder s texts) = .error message) ∨
          faults.putCachedEmbeddings = true) := by
  unfold embedTexts
  simp only
  by_cases hlookup : (List.range texts.length).any faults.getCachedEmbedding = true
  · rw [if_pos hlookup]
    exact iff_of_true ⟨_, rfl⟩ (.inl hlookup)
  rw [if_neg hlookup, or_iff_right hlookup]
  by_cases hmisses : missTexts m embedder s texts = []
  · rw [if_pos hmisses]
    exact iff_of_false (fun ⟨_, h⟩ => by cases h) fun h => h.1 hmisses
  rw [if_neg hmisses, and_iff_right hmisses]
  cases embedder.embedBatch (missTexts m embedder s texts) with
  | error message => exact iff_of_true ⟨_, rfl⟩ (.inl ⟨_, rfl⟩)
  | ok new =>
    simp only
    by_cases hput : faults.putCachedEmbeddings = true
    · rw [if_pos hput]
      exact iff_of_true ⟨_, rfl⟩ (.inr hput)
    · rw [if_neg hput]
      refine iff_of_false (fun ⟨_, h⟩ => by cases h) ?_
      rintro (⟨message, h⟩ | h)
      · cases h
      · exact hput h

theorem embedChunks_error_iff {chunks : List Chunk} :
    (∃ e, (embedChunks m faults s (chunks.map Chunk.text)).2 = .error e) ↔
      ∃ embedder, m.embedder = some embedder ∧
        ((List.range chunks.length).any faults.getCachedEmbedding = true ∨
          missTexts m embedder s (chunks.map Chunk.text) ≠ [] ∧
            ((∃ message, embedder.embedBatch (missTexts m embedder s (chunks.map Chunk.text)) =
                .error message) ∨ faults.putCachedEmbeddings = true)) := by
  unfold embedChunks
  cases hembedder : m.embedder with
  | none =>
    refine iff_of_false (fun ⟨_, h⟩ => by cases h) ?_
    rintro ⟨_, h, -⟩
    cases h
  | some embedder =>
    have hiff := @embedTexts_error_iff _ m faults s embedder (chunks.map Chunk.text)
    rw [List.length_map] at hiff
    simp only [Option.some.injEq, exists_eq_left']
    rw [← hiff]
    rcases embedTexts m faults embedder s (chunks.map Chunk.text) with ⟨s', e | embeddings⟩
    · exact iff_of_true ⟨_, rfl⟩ ⟨_, rfl⟩
    · exact iff_of_false (fun ⟨_, h⟩ => by cases h) fun ⟨_, h⟩ => by cases h

/-- **What a sync does after the content was read**: it fails and leaves the rows, or replaces
them. -/
theorem reindexFile_cases {startEpoch : ℕ} (hepoch : s.epochs path = startEpoch)
    (hfile : disk path = some file) :
    (FailurePoint m faults s path file ∧ ∃ e s', s'.files = s.files ∧ s'.chunks = s.chunks ∧
      reindexFile m faults disk s path file startEpoch = (s', .error e)) ∨
    (¬ FailurePoint m faults s path file ∧ ∃ chunks embeddings model s',
      rawChunks m path file.content = .ok chunks ∧ s'.files = s.files ∧ s'.chunks = s.chunks ∧
      embedChunks m faults s (chunks.map Chunk.text) = (s', .ok (embeddings, model)) ∧
      reindexFile m faults disk s path file startEpoch =
        (replaceFileIndex s' path (fileRow m path file)
          (chunks.mapIdx (chunkRow m path embeddings model)), .ok true)) := by
  cases hraw : rawChunks m path file.content with
  | error failure =>
    refine .inl ⟨.inl ⟨failure, hraw⟩, .split failure, s, rfl, rfl, ?_⟩
    unfold reindexFile
    rw [hraw]
  | ok chunks =>
    have hrows := @embedChunks_rows _ m faults s (chunks.map Chunk.text)
    have hiff := @embedChunks_error_iff _ m faults s chunks
    rcases hembed : embedChunks m faults s (chunks.map Chunk.text) with
      ⟨s', e | ⟨embeddings, model⟩⟩
    · rw [hembed] at hrows hiff
      obtain ⟨embedder, hembedder, hpoint⟩ := hiff.mp ⟨e, rfl⟩
      refine .inl ⟨.inr (.inl ⟨chunks, embedder, hraw, hembedder, hpoint⟩), e, s', hrows.1,
        hrows.2.1, ?_⟩
      unfold reindexFile
      simp only [hraw, hembed]
    · rw [hembed] at hrows hiff
      have hreaches : ¬ (s'.epochs path ≠ startEpoch ∨ (disk path).isNone = true) := by
        rw [hrows.2.2, hfile]
        simpa using hepoch
      by_cases hfault : faults.replaceFileIndex = true
      · refine .inl ⟨.inr (.inr hfault), .store, s', hrows.1, hrows.2.1, ?_⟩
        unfold reindexFile
        simp only [hraw, hembed]
        rw [if_neg hreaches, if_pos hfault]
      · refine .inr ⟨?_, chunks, embeddings, model, s', rfl, hrows.1, hrows.2.1, hembed, ?_⟩
        · rintro (⟨failure, h⟩ | ⟨others, embedder, h, hembedder, hpoint⟩ | h)
          · rw [hraw] at h
            cases h
          · rw [hraw] at h
            cases h
            obtain ⟨e, he⟩ := hiff.mpr ⟨embedder, hembedder, hpoint⟩
            cases he
          · exact hfault h
        · unfold reindexFile
          simp only [hraw, hembed]
          rw [if_neg hreaches, if_neg hfault]

/-- A sync reads the content, and finds neither the stat nor the hash of a file whose embeddings are
current. -/
def Reindexes (m : MemoryManager Embedding) (s : Store Embedding) (path : String)
    (file : MarkdownFile (List Char)) : Prop :=
  unchangedStat m s path file.stat = false ∧
  ∀ existing ∈ s.files[path]?, existing.hash = m.sha256Hex file.content →
    fileEmbeddingsCurrent m s path = false

theorem failurePoint_dropRows : FailurePoint m faults (dropRows s path) path file ↔
    FailurePoint m faults s path file := Iff.rfl

/-- **A sync that fails after the content was read keeps the rows exactly if the stored hash is that
of the content.**  Rows with another hash are dropped before the chunks are split and embedded. -/
theorem failed_sync_keeps_rows_iff {existing : FileRow} (hrow : s.files[path]? = some existing)
    (hfile : disk path = some file) (hreindex : Reindexes m s path file)
    (hfailure : FailurePoint m faults s path file) :
    (∃ e, (syncFile m faults disk s path).2 = .error e) ∧
    (((syncFile m faults disk s path).1.files[path]? = s.files[path]? ∧
      (syncFile m faults disk s path).1.chunks path = s.chunks path) ↔
        existing.hash = m.sha256Hex file.content) := by
  have hsync : syncFile m faults disk s path =
      syncContent m faults disk s path file (s.epochs path) := by
    unfold syncFile
    rw [hfile]
    simp only [hreindex.1, Bool.false_eq_true, if_false]
  have hfail : ∀ {t : Store Embedding}, FailurePoint m faults t path file →
      ∃ e t', t'.files = t.files ∧ t'.chunks = t.chunks ∧
        reindexFile m faults disk t path file (t.epochs path) = (t', .error e) := by
    intro t hpoint
    rcases reindexFile_cases rfl hfile with ⟨-, h⟩ | ⟨hnot, -⟩
    · exact h
    · exact absurd hpoint hnot
  rw [hsync]
  unfold syncContent
  simp only [hrow]
  by_cases hhash : existing.hash = m.sha256Hex file.content
  · have hcurrent : fileEmbeddingsCurrent m s path = false := hreindex.2 existing hrow hhash
    obtain ⟨e, t, hfiles, hchunks, heq⟩ := hfail hfailure
    simp only [hhash, if_true, hcurrent, Bool.false_eq_true, if_false, heq, iff_true]
    exact ⟨⟨e, rfl⟩, by rw [hfiles, hrow], by rw [hchunks]⟩
  · obtain ⟨e, t, hfiles, hchunks, heq⟩ := hfail (failurePoint_dropRows.mpr hfailure)
    simp only [hhash, if_false, heq, iff_false]
    refine ⟨⟨e, rfl⟩, fun h => ?_⟩
    have hgone : t.files[path]? = none := by
      rw [hfiles]
      unfold dropRows
      rw [Std.ExtTreeMap.getElem?_erase, if_pos (by simp)]
    rw [hgone] at h
    cases h.1

/-! A note with one chunk, and an embedder that does not answer. -/

def noteFile : MarkdownFile (List Char) := ⟨"new".toList, ⟨2, 3⟩⟩

def noteDisk (path : String) : Option (MarkdownFile (List Char)) :=
  if path = "notes.md" then some noteFile else none

def deafEmbedder : Embedder Unit := ⟨"local", "m", none, fun _ => .error "unavailable"⟩

def deafManager : MemoryManager Unit where
  embedder := some deafEmbedder
  sha256Hex := String.ofList
  chunkContent _ content := [⟨content, 1, 1⟩]
  emptyEmbedding := ()
  evict cache := cache

/-- The stored rows of the note, with a content and the model of its embeddings. -/
def noteStore (content : String) (model : String) : Store Unit where
  files := (∅ : OrderedMap String FileRow).insert "notes.md"
    ⟨"notes.md", "daily", content, ⟨1, 3⟩⟩
  chunks path := if path = "notes.md" then
    [⟨"notes.md:0", "notes.md", "daily", 1, 1, content, model, content.toList, some ()⟩] else []
  cache _ := none
  epochs _ := 0
  batches := []

theorem noteStore_fails : FailurePoint deafManager .none (noteStore "new" "old model") "notes.md"
    noteFile :=
  .inr (.inl ⟨[⟨"new".toList, 1, 1⟩], deafEmbedder, rfl, rfl,
    .inr ⟨by decide, .inl ⟨"unavailable", rfl⟩⟩⟩)

theorem failed_sync_keeps_rows_iff_old_model :
    (syncFile deafManager .none noteDisk (noteStore "new" "old model") "notes.md").1.chunks
      "notes.md" = (noteStore "new" "old model").chunks "notes.md" :=
  ((failed_sync_keeps_rows_iff
    (by decide : (noteStore "new" "old model").files["notes.md"]? =
      some ⟨"notes.md", "daily", "new", ⟨1, 3⟩⟩)
    (by decide : noteDisk "notes.md" = some noteFile)
    ⟨by decide, fun _ _ _ => by decide⟩ noteStore_fails).2.mpr
      (by decide)).2

theorem failed_sync_drops_rows :
    (syncFile deafManager .none noteDisk (noteStore "old" "m") "notes.md").2 =
        .error (.embedder "unavailable") ∧
      (syncFile deafManager .none noteDisk (noteStore "old" "m") "notes.md").1.chunks "notes.md" =
        [] ∧
      (noteStore "old" "m").chunks "notes.md" ≠ [] := by
  decide

end Chelix.Memory.Syncing
