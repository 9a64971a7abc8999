import Chelix.Library.Best

/-!
# Vector search in the memory store

The rows are streamed through a bounded heap that has its lowest score on top.  The similarity of
two embeddings and the heap are parameters.

* **`vectorSearch_eq_top`**: the search returns the best chunks.
-/

namespace Chelix.Memory

open Chelix.Library List

/-! ## Rows and results -/

structure SearchResult (Score : Type) where
  chunkId : String
  path : String
  source : String
  startLine : ℤ
  endLine : ℤ
  score : Score
  text : String
  deriving DecidableEq

structure ChunkRow (Embedding : Type) where
  id : String
  path : String
  source : String
  startLine : ℤ
  endLine : ℤ
  model : String
  embedding : Option Embedding
  deriving DecidableEq

structure ScoredResult (Score : Type) where
  score : Score
  result : SearchResult Score
  deriving DecidableEq

section Search

variable {Score Embedding : Type} [LinearOrder Score]

/-- Reverse order: the lowest score is on top. -/
def ScoredResult.cmp (a b : ScoredResult Score) : Ordering := compare b.score a.score

/-- The heap of the standard library at scored results. -/
abbrev ResultHeap (Score : Type) [LinearOrder Score] := MaxHeap (@ScoredResult.cmp Score _)

/-- The stable sort by score, descending. -/
def sortByScore (results : List (SearchResult Score)) : List (SearchResult Score) :=
  sortByKey (fun result => OrderDual.toDual result.score) results

/-- The condition of the query: `embedding IS NOT NULL AND (? IS NULL OR model = ?)`. -/
def ChunkRow.selected (model : Option String) (row : ChunkRow Embedding) : Bool :=
  row.embedding.isSome && (model.isNone || model = some row.model)

variable (heap : ResultHeap Score) (cosineSimilarity : Embedding → Embedding → Score)
  (query : Embedding) (limit : ℕ)

def ChunkRow.scored (row : ChunkRow Embedding) (emb : Embedding) : ScoredResult Score :=
  let score := cosineSimilarity query emb
  ⟨score, ⟨row.id, row.path, row.source, row.startLine, row.endLine, score, ""⟩⟩

/-- One row of the stream.  On a full heap only a strictly higher score takes the place of the
lowest one; with limit 0 there is none. -/
def streamRow (h : heap.Carrier) (row : ChunkRow Embedding) : heap.Carrier :=
  match row.embedding with
  | none => h
  | some emb =>
    let scored := row.scored cosineSimilarity query emb
    if heap.len h < limit then heap.push h scored
    else
      match heap.peek h with
      | some min => if min.score < scored.score then heap.push (heap.pop h) scored else h
      | none => h

def vectorSearch (rows : List (ChunkRow Embedding)) (model : Option String) :
    List (SearchResult Score) :=
  let h := (rows.filter (·.selected model)).foldl
    (streamRow heap cosineSimilarity query limit) heap.empty
  sortByScore ((heap.toList h).map ScoredResult.result)

/-! ## The best chunks -/

def scoredRow (row : ChunkRow Embedding) : Option (ScoredResult Score) :=
  row.embedding.map (row.scored cosineSimilarity query)

/-- All chunks that a search looks at, with their scores. -/
def scoredChunks (rows : List (ChunkRow Embedding)) (model : Option String) :
    List (SearchResult Score) :=
  ((rows.filter (·.selected model)).filterMap (scoredRow cosineSimilarity query)).map
    ScoredResult.result

end Search

section Chunks

variable {Score Embedding : Type} {cosineSimilarity : Embedding → Embedding → Score}
  {query : Embedding} {rows : List (ChunkRow Embedding)} {model : Option String}

theorem score_eq_of_scoredRow {row : ChunkRow Embedding} {scored : ScoredResult Score}
    (h : scoredRow cosineSimilarity query row = some scored) :
    scored.result.score = scored.score ∧ scored.result.chunkId = row.id := by
  obtain ⟨emb, -, rfl⟩ := Option.map_eq_some_iff.mp h
  exact ⟨rfl, rfl⟩

theorem map_chunkId_sublist :
    ((scoredChunks cosineSimilarity query rows model).map SearchResult.chunkId).Sublist
      (rows.map ChunkRow.id) := by
  have hids : ∀ stream : List (ChunkRow Embedding),
      ((stream.filterMap (scoredRow cosineSimilarity query)).map
        fun scored => scored.result.chunkId).Sublist (stream.map ChunkRow.id) := by
    intro stream
    induction stream with
    | nil => exact List.Sublist.refl _
    | cons row stream ih =>
      cases hrow : scoredRow cosineSimilarity query row with
      | none =>
        rw [filterMap_cons_none hrow]
        exact ih.cons _
      | some scored =>
        rw [filterMap_cons_some hrow, map_cons, map_cons,
          (score_eq_of_scoredRow hrow).2]
        exact ih.cons_cons _
  unfold scoredChunks
  rw [map_map]
  exact (hids _).trans (filter_sublist.map _)

end Chunks

section Law

variable {Score Embedding : Type} [LinearOrder Score] {heap : ResultHeap Score}
  {cosineSimilarity : Embedding → Embedding → Score} {query : Embedding} {limit : ℕ}
  {rows : List (ChunkRow Embedding)} {model : Option String}

theorem score_le_of_cmp {a b : ScoredResult Score} (h : b.cmp a ≠ .gt) : a.score ≤ b.score := by
  unfold ScoredResult.cmp at h
  exact not_lt.mp fun hlt => h (compare_gt_iff_gt.mpr hlt)

/-- **One row keeps the best scores on the heap.** -/
theorem streamRow_best {h : heap.Carrier} {all : List (ScoredResult Score)}
    (hbest : Best ScoredResult.score limit (heap.toList h) all) (row : ChunkRow Embedding) :
    Best ScoredResult.score limit (heap.toList (streamRow heap cosineSimilarity query limit h row))
      (all ++ (scoredRow cosineSimilarity query row).toList) := by
  unfold streamRow scoredRow
  cases row.embedding with
  | none =>
    rw [Option.map_none, Option.toList_none, append_nil]
    exact hbest
  | some emb =>
    rw [Option.map_some, Option.toList_some]
    simp only
    by_cases hroom : heap.len h < limit
    · rw [if_pos hroom]
      exact (hbest.push hroom).of_perm (heap.push_perm h _)
    rw [if_neg hroom]
    have hfull : limit ≤ (heap.toList h).length := not_lt.mp hroom
    cases hpeek : heap.peek h with
    | none =>
      -- the heap is empty and full
      refine hbest.skip hfull fun b hb => ?_
      rw [heap.toList_of_peek_none h hpeek] at hb
      exact absurd hb not_mem_nil
    | some min =>
      have hmin : ∀ b ∈ heap.toList h, min.score ≤ b.score := fun b hb =>
        score_le_of_cmp (heap.peek_greatest h min hpeek b hb)
      simp only
      split
      · next hlt =>
        have hmem := heap.peek_mem h min hpeek
        obtain ⟨low, hperm, hgreatest⟩ := heap.pop_perm h (ne_nil_of_mem hmem)
        have hlow : low.score ≤ min.score := score_le_of_cmp (hgreatest min hmem)
        refine (hbest.replace hfull hperm ?_ (hlow.trans_lt hlt)).of_perm (heap.push_perm _ _)
        exact fun b hb => hlow.trans (hmin b hb)
      · next hge =>
        refine hbest.skip hfull fun b hb => ?_
        exact (not_lt.mp hge).trans (hmin b hb)

theorem foldl_streamRow_best (stream : List (ChunkRow Embedding)) :
    Best ScoredResult.score limit
      (heap.toList (stream.foldl (streamRow heap cosineSimilarity query limit) heap.empty))
      (stream.filterMap (scoredRow cosineSimilarity query)) := by
  induction stream using List.reverseRecOn with
  | nil =>
    rw [foldl_nil, heap.toList_empty]
    exact Best.nil
  | append_singleton stream row ih =>
    have hlast : [row].filterMap (scoredRow cosineSimilarity query) =
        (scoredRow cosineSimilarity query row).toList := by
      rw [filterMap_cons]
      cases scoredRow cosineSimilarity query row <;> rfl
    rw [foldl_append, foldl_cons, foldl_nil, filterMap_append, hlast]
    exact streamRow_best ih row

theorem vectorSearch_best :
    Best SearchResult.score limit (vectorSearch heap cosineSimilarity query limit rows model)
      (scoredChunks cosineSimilarity query rows model) := by
  have hbest : Best ScoredResult.score limit (heap.toList _) _ :=
    @foldl_streamRow_best _ _ _ heap cosineSimilarity query limit
      (rows.filter (·.selected model))
  refine Best.of_perm (hbest.map fun scored hmem => ?_) (perm_sortByKey _ _)
  obtain ⟨row, -, hrow⟩ := mem_filterMap.mp hmem
  exact (score_eq_of_scoredRow hrow).1

theorem vectorSearch_sorted :
    (vectorSearch heap cosineSimilarity query limit rows model).Pairwise
      fun a b => b.score ≤ a.score :=
  pairwise_sortByKey (fun result : SearchResult Score => OrderDual.toDual result.score) _

end Law

end Chelix.Memory
