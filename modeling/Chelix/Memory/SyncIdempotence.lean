import Chelix.Memory.SyncRuns

/-!
# A second sync

* **`sync_idempotent_iff`**: when a second sync has nothing to do.
-/

namespace Chelix.Memory.Syncing

open Chelix.Library Chelix.Splitter List OrderedMap

variable {Embedding : Type} {m : MemoryManager Embedding} {faults : StoreFaults}
  {disk : String → Option (MarkdownFile (List Char))} {s t : Store Embedding}
  {path other : String} {file : MarkdownFile (List Char)}

/-! ## One file -/

/-- Two stores have the same rows of a file. -/
def SameAt (s t : Store Embedding) (path : String) : Prop :=
  t.files[path]? = s.files[path]? ∧ t.chunks path = s.chunks path

/-- A sync finds the file unchanged by its stat. -/
def Settled (m : MemoryManager Embedding) (disk : String → Option (MarkdownFile (List Char)))
    (s : Store Embedding) (path : String) : Prop :=
  ∃ file, disk path = some file ∧ unchangedStat m s path file.stat = true

/-- The file has rows of the same stat or content with current embeddings. -/
def WasCurrent (m : MemoryManager Embedding) (s : Store Embedding) (path : String)
    (file : MarkdownFile (List Char)) : Prop :=
  ∃ existing, s.files[path]? = some existing ∧
    (existing.stat = file.stat ∨ existing.hash = m.sha256Hex file.content) ∧
    fileEmbeddingsCurrent m s path = true

/-- The content gives no chunk, and the file has a row and no rows of chunks. -/
def Chunkless (m : MemoryManager Embedding) (disk : String → Option (MarkdownFile (List Char)))
    (s : Store Embedding) (path : String) : Prop :=
  ∃ file existing, disk path = some file ∧ s.files[path]? = some existing ∧
    existing.hash = m.sha256Hex file.content ∧ m.embedder.isSome ∧
    rawChunks m path file.content = .ok [] ∧ s.chunks path = []

/-- A second sync of the file has nothing to do. -/
def Indexable (m : MemoryManager Embedding) (disk : String → Option (MarkdownFile (List Char)))
    (s : Store Embedding) (path : String) : Prop :=
  ∃ file, disk path = some file ∧
    (m.embedder = none ∨ rawChunks m path file.content ≠ .ok [] ∨ WasCurrent m s path file)

theorem fileEmbeddingsCurrent_congr (h : t.chunks path = s.chunks path) :
    fileEmbeddingsCurrent m t path = fileEmbeddingsCurrent m s path := by
  unfold fileEmbeddingsCurrent
  rw [h]

theorem unchangedStat_congr (h : SameAt s t path) (stat : FileStat) :
    unchangedStat m t path stat = unchangedStat m s path stat := by
  unfold unchangedStat
  rw [h.1, fileEmbeddingsCurrent_congr h.2]

theorem settled_congr (h : SameAt s t path) : Settled m disk t path ↔ Settled m disk s path := by
  unfold Settled
  simp only [unchangedStat_congr h]

theorem indexable_congr (h : SameAt s t path) :
    Indexable m disk t path ↔ Indexable m disk s path := by
  unfold Indexable WasCurrent
  simp only [h.1, fileEmbeddingsCurrent_congr h.2]

theorem chunkless_congr (h : SameAt s t path) :
    Chunkless m disk t path ↔ Chunkless m disk s path := by
  unfold Chunkless
  simp only [h.1, h.2]

theorem SameAt.refl (s : Store Embedding) (path : String) : SameAt s s path := ⟨rfl, rfl⟩

theorem SameAt.trans {u : Store Embedding} (h : SameAt s t path) (h' : SameAt t u path) :
    SameAt s u path :=
  ⟨h'.1.trans h.1, h'.2.trans h.2⟩

theorem current_replaceFileIndex {u : Store Embedding} {chunks : List Chunk}
    {embeddings : Option (List Embedding)} {model : String}
    (hembed : embedChunks m faults s (chunks.map Chunk.text) = (u, .ok (embeddings, model)))
    (row : FileRow) :
    fileEmbeddingsCurrent m
      (replaceFileIndex u path row (chunks.mapIdx (chunkRow m path embeddings model))) path = true ↔
      m.embedder = none ∨ chunks ≠ [] := by
  unfold embedChunks at hembed
  unfold fileEmbeddingsCurrent replaceFileIndex
  simp only [Function.update_self]
  cases hembedder : m.embedder with
  | none => exact iff_of_true rfl (.inl rfl)
  | some embedder =>
    rw [hembedder] at hembed
    simp only at hembed ⊢
    rcases hresult : embedTexts m faults embedder s (chunks.map Chunk.text) with ⟨v, e | new⟩
    · rw [hresult] at hembed
      cases congrArg Prod.snd hembed
    · rw [hresult] at hembed
      obtain ⟨rfl, hok⟩ := Prod.mk.inj hembed
      obtain ⟨rfl, rfl⟩ := Prod.mk.inj (Except.ok.inj hok)
      have hempty : (chunks.mapIdx (chunkRow m path (some new) embedder.modelName)).isEmpty = true ↔
          chunks = [] := by
        rw [List.isEmpty_iff, mapIdx_eq_nil_iff]
      by_cases hnil : chunks = []
      · rw [if_pos (hempty.mpr hnil)]
        refine iff_of_false Bool.false_ne_true ?_
        rintro (h | h)
        · cases h
        · exact h hnil
      · rw [if_neg (hempty.not.mpr hnil)]
        refine iff_of_true ?_ (.inr hnil)
        rw [all_eq_true]
        intro row hrow
        obtain ⟨i, hi, rfl⟩ := mem_mapIdx.mp hrow
        simp [chunkRow]

theorem getElem?_insert_files (files : OrderedMap String FileRow) (path : String) (row : FileRow) :
    (files.insert path row)[path]? = some row := get_insert_self files path row

/-- **After the rows of a file were replaced**, a second sync has nothing to do unless the content
gives no chunk and there is an embedder. -/
theorem reindexFile_ok {startEpoch : ℕ} {changed : Bool} (hepoch : s.epochs path = startEpoch)
    (hfile : disk path = some file)
    (h : reindexFile m faults disk s path file startEpoch = (t, .ok changed)) :
    (Settled m disk t path ↔ m.embedder = none ∨ rawChunks m path file.content ≠ .ok []) ∧
    (Settled m disk t path ∨ Chunkless m disk t path) ∧ t.files[path]? ≠ none := by
  rcases reindexFile_cases hepoch hfile with ⟨-, e, u, -, -, heq⟩ |
    ⟨-, chunks, embeddings, model, u, hraw, -, -, hembed, heq⟩
  · rw [h] at heq
    cases congrArg Prod.snd heq
  rw [h] at heq
  obtain ⟨rfl, -⟩ := Prod.mk.inj heq
  have hrow : (replaceFileIndex u path (fileRow m path file)
      (chunks.mapIdx (chunkRow m path embeddings model))).files[path]? =
        some (fileRow m path file) := get_insert_self ..
  have hsettled : Settled m disk (replaceFileIndex u path (fileRow m path file)
      (chunks.mapIdx (chunkRow m path embeddings model))) path ↔
        m.embedder = none ∨ chunks ≠ [] := by
    rw [← current_replaceFileIndex hembed (fileRow m path file)]
    unfold Settled unchangedStat
    rw [hrow]
    constructor
    · rintro ⟨found, -, hunchanged⟩
      exact (Bool.and_eq_true_iff.mp hunchanged).2
    · intro hcurrent
      exact ⟨file, hfile, Bool.and_eq_true_iff.mpr ⟨decide_eq_true rfl, hcurrent⟩⟩
  have hne : rawChunks m path file.content ≠ .ok [] ↔ chunks ≠ [] := by
    rw [hraw]
    exact not_congr ⟨fun h => Except.ok.inj h, fun h => by rw [h]⟩
  refine ⟨hsettled.trans (or_congr_right hne.symm), ?_, by rw [hrow]; exact Option.some_ne_none _⟩
  by_cases hchunks : chunks = []
  · cases hembedder : m.embedder with
    | none => exact .inl (hsettled.mpr (.inl hembedder))
    | some embedder =>
      refine .inr ⟨file, fileRow m path file, hfile, hrow, rfl, by rw [hembedder]; rfl, ?_, ?_⟩
      · rw [hraw, hchunks]
      · unfold replaceFileIndex
        simp only [Function.update_self, hchunks, mapIdx_nil]
  · exact .inl (hsettled.mpr (.inr hchunks))

/-- **A sync of a file that succeeds** settles it exactly if a second sync has nothing to do. -/
theorem syncFile_ok {changed : Bool} (h : syncFile m faults disk s path = (t, .ok changed)) :
    (Settled m disk t path ↔ Indexable m disk s path) ∧
    (Settled m disk t path ∨ Chunkless m disk t path) ∧ t.files[path]? ≠ none := by
  unfold syncFile at h
  cases hfile : disk path with
  | none =>
    rw [hfile] at h
    cases congrArg Prod.snd h
  | some file =>
    rw [hfile] at h
    simp only at h
    by_cases hstat : unchangedStat m s path file.stat = true
    · rw [if_pos hstat] at h
      obtain ⟨rfl, -⟩ := Prod.mk.inj h
      have hsettled : Settled m disk s path := ⟨file, hfile, hstat⟩
      unfold unchangedStat at hstat
      cases hrow : s.files[path]? with
      | none =>
        rw [hrow] at hstat
        cases hstat
      | some existing =>
        rw [hrow] at hstat
        obtain ⟨hsame, hcurrent⟩ := Bool.and_eq_true_iff.mp hstat
        refine ⟨iff_of_true hsettled ⟨file, hfile, .inr (.inr ?_)⟩, .inl hsettled,
          Option.some_ne_none _⟩
        exact ⟨existing, hrow, .inl (of_decide_eq_true hsame), hcurrent⟩
    rw [if_neg hstat] at h
    -- where the rows were replaced, they were not current before
    have hreindexed : ∀ {u : Store Embedding} {epoch : ℕ}, u.epochs path = epoch →
        ¬ WasCurrent m s path file →
        reindexFile m faults disk u path file epoch = (t, .ok changed) →
        (Settled m disk t path ↔ Indexable m disk s path) ∧
          (Settled m disk t path ∨ Chunkless m disk t path) ∧ t.files[path]? ≠ none := by
      intro u epoch hepoch hnot hreindex
      obtain ⟨hiff, hrest⟩ := reindexFile_ok hepoch hfile hreindex
      refine ⟨hiff.trans ?_, hrest⟩
      constructor
      · exact fun h => ⟨file, hfile, h.imp_right .inl⟩
      · rintro ⟨found, hfound, h⟩
        rw [hfile] at hfound
        cases hfound
        exact h.imp_right fun h => h.resolve_right hnot
    unfold syncContent at h
    cases hrow : s.files[path]? with
    | none =>
      rw [hrow] at h
      refine hreindexed rfl ?_ h
      rintro ⟨existing, hexisting, -⟩
      rw [hrow] at hexisting
      cases hexisting
    | some existing =>
      rw [hrow] at h
      simp only at h
      by_cases hhash : existing.hash = m.sha256Hex file.content
      · rw [if_pos hhash] at h
        by_cases hcurrent : fileEmbeddingsCurrent m s path = true
        · rw [if_pos hcurrent] at h
          obtain ⟨rfl, -⟩ := Prod.mk.inj h
          have hsettled : ∀ row : FileRow, row.stat = file.stat →
              Settled m disk { s with files := s.files.insert path row } path := by
            intro row hsame
            refine ⟨file, hfile, ?_⟩
            unfold unchangedStat
            rw [getElem?_insert_files]
            exact Bool.and_eq_true_iff.mpr ⟨decide_eq_true hsame, hcurrent⟩
          refine ⟨iff_of_true (hsettled _ rfl) ⟨file, hfile, .inr (.inr ?_)⟩, .inl (hsettled _ rfl),
            ?_⟩
          · exact ⟨existing, hrow, .inr hhash, hcurrent⟩
          · rw [getElem?_insert_files]
            exact Option.some_ne_none _
        · rw [if_neg hcurrent] at h
          exact hreindexed rfl (fun ⟨_, _, _, h⟩ => hcurrent h) h
      · rw [if_neg hhash] at h
        refine hreindexed rfl ?_ h
        rintro ⟨found, hfound, hsame, hcurrent⟩
        rw [hrow] at hfound
        cases hfound
        rcases hsame with hsame | hsame
        · refine hstat ?_
          unfold unchangedStat
          rw [hrow]
          exact Bool.and_eq_true_iff.mpr ⟨decide_eq_true hsame, hcurrent⟩
        · exact hhash hsame

/-! ## Other files -/

theorem reindexFile_sameAt_of_ne {startEpoch : ℕ} (hepoch : s.epochs path = startEpoch)
    (hfile : disk path = some file) (hne : path ≠ other) :
    SameAt s (reindexFile m faults disk s path file startEpoch).1 other := by
  rcases reindexFile_cases hepoch hfile with ⟨-, e, u, hfiles, hchunks, heq⟩ |
    ⟨-, chunks, embeddings, model, u, -, hfiles, hchunks, -, heq⟩
  · rw [heq]
    exact ⟨by rw [hfiles], by rw [hchunks]⟩
  · rw [heq]
    unfold replaceFileIndex
    refine ⟨?_, ?_⟩
    · rw [get_insert_of_ne _ hne, hfiles]
    · simp only [Function.update_of_ne hne.symm, hchunks]

theorem dropRows_sameAt_of_ne (hne : path ≠ other) : SameAt s (dropRows s path) other := by
  unfold dropRows
  exact ⟨get_erase_of_ne _ hne, Function.update_of_ne hne.symm _ _⟩

theorem syncFile_sameAt_of_ne (hne : path ≠ other) :
    SameAt s (syncFile m faults disk s path).1 other := by
  unfold syncFile
  cases hfile : disk path with
  | none => exact SameAt.refl s other
  | some file =>
    simp only
    split
    · exact SameAt.refl s other
    unfold syncContent
    split
    · split
      · split
        · exact ⟨get_insert_of_ne _ hne _, rfl⟩
        · exact reindexFile_sameAt_of_ne rfl hfile hne
      · exact (dropRows_sameAt_of_ne hne).trans (reindexFile_sameAt_of_ne rfl hfile hne)
    · exact reindexFile_sameAt_of_ne rfl hfile hne

/-! ## A file once more -/

theorem syncFile_of_settled (h : Settled m disk s path) :
    syncFile m faults disk s path = (s, .ok false) := by
  obtain ⟨file, hfile, hunchanged⟩ := h
  unfold syncFile
  simp only [hfile, hunchanged, if_true]

/-- A file without chunks is updated by every sync. -/
theorem syncFile_of_chunkless (hnot : ¬ Settled m disk s path) (h : Chunkless m disk s path) :
    (syncFile m .none disk s path).2 = .ok true := by
  obtain ⟨file, existing, hfile, hrow, hhash, hembedder, hraw, hchunks⟩ := h
  have hstat : ¬ unchangedStat m s path file.stat = true := fun h => hnot ⟨file, hfile, h⟩
  have hcurrent : ¬ fileEmbeddingsCurrent m s path = true := by
    obtain ⟨embedder, hembedder⟩ := Option.isSome_iff_exists.mp hembedder
    unfold fileEmbeddingsCurrent
    simp [hembedder, hchunks]
  have hsync : syncFile m .none disk s path =
      reindexFile m .none disk s path file (s.epochs path) := by
    unfold syncFile syncContent
    simp only [hfile, hrow, if_neg hstat, if_pos hhash, if_neg hcurrent]
  have hpoint : ¬ FailurePoint m .none s path file := by
    rintro (⟨failure, h⟩ | ⟨chunks, embedder, h, -, hlookup | ⟨hmisses, -⟩⟩ | h)
    · rw [hraw] at h
      cases h
    · rw [hraw] at h
      cases h
      cases hlookup
    · rw [hraw] at h
      cases h
      exact hmisses rfl
    · cases h
  rw [hsync]
  rcases reindexFile_cases rfl hfile with ⟨hfails, -⟩ |
    ⟨-, chunks, embeddings, model, u, -, -, -, -, heq⟩
  · exact absurd hfails hpoint
  · rw [heq]

/-! ## All files -/

variable {discovered : List String}

section Runs

variable {faults : String → StoreFaults} {run : Store Embedding × SyncReport}
  {paths : List String}

theorem syncNext_store : (syncNext m faults disk run path).1 =
    (syncFile m (faults path) disk run.1 path).1 := by
  unfold syncNext
  split
  · next heq => rw [heq]
  · next heq => rw [heq]
  · next heq => rw [heq]

theorem syncNext_sameAt_of_ne (hne : path ≠ other) :
    SameAt run.1 (syncNext m faults disk run path).1 other := by
  rw [syncNext_store]
  exact syncFile_sameAt_of_ne hne

/-- A report without errors counts a file whose sync succeeded. -/
theorem syncNext_ok (h : (syncNext m faults disk run path).2.errors = 0) :
    run.2.errors = 0 ∧ ∃ changed, syncFile m (faults path) disk run.1 path =
      ((syncNext m faults disk run path).1, .ok changed) := by
  unfold syncNext at h ⊢
  split at h
  · next heq => exact ⟨h, true, by rw [heq]⟩
  · next heq => exact ⟨h, false, by rw [heq]⟩
  · cases h

/-- **What a sync of files that reports no error leaves behind.** -/
theorem foldl_syncNext_spec (hnodup : paths.Nodup)
    (herrors : (paths.foldl (syncNext m faults disk) run).2.errors = 0) :
    run.2.errors = 0 ∧
    (∀ p, p ∉ paths → SameAt run.1 (paths.foldl (syncNext m faults disk) run).1 p) ∧
    ∀ p ∈ paths,
      (Settled m disk (paths.foldl (syncNext m faults disk) run).1 p ↔ Indexable m disk run.1 p) ∧
      (Settled m disk (paths.foldl (syncNext m faults disk) run).1 p ∨
        Chunkless m disk (paths.foldl (syncNext m faults disk) run).1 p) ∧
      (paths.foldl (syncNext m faults disk) run).1.files[p]? ≠ none := by
  induction paths generalizing run with
  | nil => exact ⟨herrors, fun p _ => SameAt.refl _ p, fun p h => absurd h not_mem_nil⟩
  | cons path paths ih =>
    obtain ⟨hnot, hnodup⟩ := nodup_cons.mp hnodup
    rw [foldl_cons] at herrors ⊢
    obtain ⟨hstep, hothers, hall⟩ := ih hnodup herrors
    obtain ⟨hzero, changed, hok⟩ := syncNext_ok hstep
    obtain ⟨hiff, hleft, hrow⟩ := syncFile_ok hok
    refine ⟨hzero, fun p hp => ?_, fun p hp => ?_⟩
    · rw [mem_cons, not_or] at hp
      exact (syncNext_sameAt_of_ne (Ne.symm hp.1)).trans (hothers p hp.2)
    · rcases mem_cons.mp hp with rfl | hp
      · -- the files behind it leave its rows
        have hsame := hothers p hnot
        refine ⟨(settled_congr hsame).trans hiff, ?_, by rwa [hsame.1]⟩
        exact hleft.imp (settled_congr hsame).mpr (chunkless_congr hsame).mpr
      · obtain ⟨hiff, hleft, hrow⟩ := hall p hp
        have hne : path ≠ p := fun heq => hnot (heq ▸ hp)
        exact ⟨hiff.trans (indexable_congr (syncNext_sameAt_of_ne hne)), hleft, hrow⟩

theorem foldl_removeFile_spec (stale : List String) :
    (∀ p, (stale.foldl removeFile run).1.files[p]? =
      if p ∈ stale then none else run.1.files[p]?) ∧
    (∀ p, p ∉ stale → (stale.foldl removeFile run).1.chunks p = run.1.chunks p) ∧
    (stale.foldl removeFile run).2.errors = run.2.errors := by
  induction stale generalizing run with
  | nil => exact ⟨fun p => by simp, fun p _ => rfl, rfl⟩
  | cons path stale ih =>
    obtain ⟨hfiles, hchunks, herrors⟩ := @ih (removeFile run path)
    rw [foldl_cons]
    refine ⟨fun p => ?_, fun p hp => ?_, herrors⟩
    · rw [hfiles]
      unfold removeFile
      by_cases hp : p ∈ stale
      · rw [if_pos hp, if_pos (mem_cons_of_mem _ hp)]
      · rw [if_neg hp]
        by_cases heq : path = p
        · subst heq
          rw [if_pos mem_cons_self, Std.ExtTreeMap.getElem?_erase, if_pos (by simp)]
        · rw [if_neg (by simpa using ⟨Ne.symm heq, hp⟩), get_erase_of_ne _ heq]
    · rw [mem_cons, not_or] at hp
      rw [hchunks p hp.2]
      unfold removeFile
      exact Function.update_of_ne hp.1 _ _

/-! ## The second sync -/

theorem staleFiles_eq_nil_iff :
    staleFiles s discovered = [] ↔ ∀ p, s.files[p]? ≠ none → p ∈ discovered := by
  unfold staleFiles
  rw [filter_eq_nil_iff]
  refine forall_congr' fun p => ?_
  rw [mem_map_fst_toList, Option.isSome_iff_ne_none]
  simp

/-- What a first sync without errors leaves to a second one. -/
theorem sync_spec {report : SyncReport} (hnodup : discovered.Nodup)
    (h : sync m faults disk discovered s = (t, report)) (herrors : report.errors = 0) :
    staleFiles t discovered = [] ∧ ∀ p ∈ discovered,
      (Settled m disk t p ↔ Indexable m disk s p) ∧
        (Settled m disk t p ∨ Chunkless m disk t p) := by
  unfold sync at h
  simp only [Prod.mk.injEq] at h
  obtain ⟨rfl, rfl⟩ := h
  generalize hstale : staleFiles (discovered.foldl (syncNext m faults disk) (s, ⟨0, 0, 0, 0⟩)).1
    discovered = stale at herrors ⊢
  have hremove := @foldl_removeFile_spec _
    (discovered.foldl (syncNext m faults disk) (s, ⟨0, 0, 0, 0⟩)) stale
  rw [hremove.2.2] at herrors
  obtain ⟨-, -, hall⟩ := foldl_syncNext_spec hnodup herrors
  have hnotStale : ∀ p ∈ discovered, p ∉ stale := by
    intro p hp hmem
    rw [← hstale] at hmem
    simpa [hp] using (mem_filter.mp hmem).2
  refine ⟨staleFiles_eq_nil_iff.mpr fun p hp => ?_, fun p hp => ?_⟩
  · by_contra hnot
    refine hp ?_
    refine (hremove.1 p).trans ?_
    by_cases hmem : p ∈ stale
    · rw [if_pos hmem]
    · rw [if_neg hmem]
      by_contra hrow
      refine hmem ?_
      rw [← hstale]
      refine mem_filter.mpr ⟨mem_map_fst_toList.mpr ?_, by simpa using hnot⟩
      exact Option.isSome_iff_ne_none.mpr hrow
  · have hsame : SameAt (discovered.foldl (syncNext m faults disk) (s, ⟨0, 0, 0, 0⟩)).1
        ({ (stale.foldl removeFile (discovered.foldl (syncNext m faults disk)
            (s, ⟨0, 0, 0, 0⟩))).1 with
          cache := m.evict (stale.foldl removeFile (discovered.foldl (syncNext m faults disk)
            (s, ⟨0, 0, 0, 0⟩))).1.cache } : Store Embedding) p :=
      ⟨(hremove.1 p).trans (if_neg (hnotStale p hp)), hremove.2.1 p (hnotStale p hp)⟩
    obtain ⟨hiff, hleft, -⟩ := hall p hp
    exact ⟨(settled_congr hsame).trans hiff,
      hleft.imp (settled_congr hsame).mpr (chunkless_congr hsame).mpr⟩

theorem foldl_syncNext_of_settled (report : SyncReport) (hall : ∀ p ∈ paths, Settled m disk s p) :
    paths.foldl (syncNext m faults disk) (s, report) =
      (s, { report with filesUnchanged := report.filesUnchanged + paths.length }) := by
  induction paths generalizing report with
  | nil => rfl
  | cons path paths ih =>
    obtain ⟨hfirst, hrest⟩ := forall_mem_cons.mp hall
    have hstep : syncNext m faults disk (s, report) path =
        (s, { report with filesUnchanged := report.filesUnchanged + 1 }) := by
      unfold syncNext
      simp only [syncFile_of_settled hfirst]
    rw [foldl_cons, hstep, ih _ hrest, length_cons]
    simp only [Nat.add_assoc, Nat.add_comm 1]

theorem filesUpdated_le_syncNext :
    run.2.filesUpdated ≤ (syncNext m faults disk run path).2.filesUpdated := by
  unfold syncNext
  split
  · exact Nat.le_succ _
  · exact Nat.le_refl _
  · exact Nat.le_refl _

theorem filesUpdated_le_foldl (paths : List String) :
    run.2.filesUpdated ≤ (paths.foldl (syncNext m faults disk) run).2.filesUpdated := by
  induction paths generalizing run with
  | nil => exact Nat.le_refl _
  | cons path paths ih => exact filesUpdated_le_syncNext.trans ih

theorem filesUpdated_pos {p : String} (hp : p ∈ paths) (hnot : ¬ Settled m disk run.1 p)
    (h : Chunkless m disk run.1 p) :
    0 < (paths.foldl (syncNext m (fun _ => .none) disk) run).2.filesUpdated := by
  induction paths generalizing run with
  | nil => exact absurd hp not_mem_nil
  | cons path paths ih =>
    rw [foldl_cons]
    by_cases heq : path = p
    · subst heq
      have hstep : 0 < (syncNext m (fun _ => .none) disk run path).2.filesUpdated := by
        have hupdated := syncFile_of_chunkless hnot h
        unfold syncNext
        split
        · exact Nat.succ_pos _
        · next hsync =>
          rw [hsync] at hupdated
          cases hupdated
        · next hsync =>
          rw [hsync] at hupdated
          cases hupdated
      exact hstep.trans_le (filesUpdated_le_foldl paths)
    · have hsame := @syncNext_sameAt_of_ne _ m disk path p (fun _ => .none) run heq
      rcases mem_cons.mp hp with hhead | hp
      · exact absurd hhead.symm heq
      · exact ih hp ((settled_congr hsame).not.mpr hnot) ((chunkless_congr hsame).mpr h)

theorem removeFile_updated (stale : List String) :
    (stale.foldl removeFile run).2.filesUpdated = run.2.filesUpdated := by
  induction stale generalizing run with
  | nil => rfl
  | cons path stale ih => exact ih

end Runs

/-- A sync updates and removes nothing, asks the embedder nothing, and leaves all rows. -/
def NothingToDo (m : MemoryManager Embedding) (disk : String → Option (MarkdownFile (List Char)))
    (discovered : List String) (t : Store Embedding) : Prop :=
  let second := sync m (fun _ => .none) disk discovered t
  second.2.filesUpdated = 0 ∧ second.2.filesRemoved = 0 ∧ second.1.batches = t.batches ∧
    second.1.files = t.files ∧ second.1.chunks = t.chunks

/-- **A second sync has nothing to do exactly if every file gives a chunk**, was current before the
first one, or needs no embeddings. -/
theorem sync_idempotent_iff {faults : String → StoreFaults} {discovered : List String}
    {report : SyncReport} (hnodup : discovered.Nodup)
    (h : sync m faults disk discovered s = (t, report)) (herrors : report.errors = 0) :
    NothingToDo m disk discovered t ↔ ∀ p ∈ discovered, Indexable m disk s p := by
  obtain ⟨hstale, hall⟩ := sync_spec hnodup h herrors
  constructor
  · rintro ⟨hupdated, -⟩ p hp
    obtain ⟨hiff, hleft⟩ := hall p hp
    by_contra hnot
    have hunsettled := hiff.not.mpr hnot
    have hpos := @filesUpdated_pos _ m disk (t, ⟨0, 0, 0, 0⟩) discovered p hp hunsettled
      (hleft.resolve_left hunsettled)
    unfold sync at hupdated
    simp only [removeFile_updated] at hupdated
    omega
  · intro hindexable
    have hfold := @foldl_syncNext_of_settled _ m disk t (fun _ => .none) discovered ⟨0, 0, 0, 0⟩
      fun p hp => (hall p hp).1.mpr (hindexable p hp)
    unfold NothingToDo sync
    simp only [hfold, hstale, List.foldl_nil]
    exact ⟨trivial, trivial, trivial, trivial, trivial⟩

/-! A note, an empty one, and an embedder that answers. -/

def noteManager : MemoryManager Unit where
  embedder := some ⟨"local", "m", none, fun texts => .ok (texts.map fun _ => ())⟩
  sha256Hex := String.ofList
  chunkContent _ content := if content = [] then [] else [⟨content, 1, 1⟩]
  emptyEmbedding := ()
  evict cache := cache

def emptyDisk (path : String) : Option (MarkdownFile (List Char)) :=
  if path = "notes.md" then some ⟨[], ⟨1, 0⟩⟩ else none

def emptyStore : Store Unit where
  files := ∅
  chunks _ := []
  cache _ := none
  epochs _ := 0
  batches := []

theorem sync_idempotent_iff_note : NothingToDo noteManager noteDisk ["notes.md"]
    (sync noteManager (fun _ => .none) noteDisk ["notes.md"] emptyStore).1 :=
  (sync_idempotent_iff (by decide) Prod.mk.eta.symm (by decide)).mpr
    fun p hp => ⟨noteFile, by rw [List.mem_singleton.mp hp]; decide,
      .inr (.inl (by rw [List.mem_singleton.mp hp]; decide))⟩

theorem empty_note_updated_again :
    (sync noteManager (fun _ => .none) emptyDisk ["notes.md"] emptyStore).2 = ⟨1, 0, 0, 0⟩ ∧
      (sync noteManager (fun _ => .none) emptyDisk ["notes.md"]
        (sync noteManager (fun _ => .none) emptyDisk ["notes.md"] emptyStore).1).2 =
          ⟨1, 0, 0, 0⟩ := by
  decide

end Chelix.Memory.Syncing
