import Chelix.Library.Fusion
import Chelix.Memory.VectorSearch

/-!
# Hybrid search in the memory store

Vector and keyword results are merged by their scores or by their ranks.  The merged results are
collected in a hash map, whose order of iteration is a parameter.
-/

namespace Chelix.Memory

open Chelix.Library

inductive MergeStrategy where
  | linear
  | rrf
  deriving DecidableEq

/-- The reads of a store. -/
structure MemoryStore (Score Embedding : Type) where
  vectorSearch : Embedding → ℕ → Option String → List (SearchResult Score)
  keywordSearch : String → ℕ → List (SearchResult Score)
  /-- The text of `get_chunk_by_id`. -/
  chunkText : String → Option String

structure EmbeddingProvider (Embedding : Type) where
  embed : String → Embedding
  modelName : String

section Merge

variable {Score Embedding : Type} [LinearOrder Score] [Zero Score] [Add Score] [Mul Score]
  [Div Score] [NatCast Score]

def withScore (entry : SearchResult Score × Score) : SearchResult Score :=
  { entry.1 with score := entry.2 }

/-- The scores of results with their weight. -/
def linearGains (weight : Score) (results : List (SearchResult Score)) :
    List (SearchResult Score × Score) :=
  results.map fun r => (r, r.score * weight)

/-- Shares of a weight by rank: `weight / (rrf_k + rank + 1)`. -/
def rrfGains (limit : ℕ) (weight : Score) (results : List (SearchResult Score)) :
    List (SearchResult Score × Score) :=
  let rrfK : Score := ((limit * 2 : ℕ) : Score)
  results.mapIdx fun rank r => (r, weight / (rrfK + (rank : Score) + ((1 : ℕ) : Score)))

/-- The entries of the hash map, sorted by their scores. -/
def collectResults (iteration : Iteration (SearchResult Score × Score))
    (gains : List (SearchResult Score × Score)) : List (SearchResult Score) :=
  sortByScore ((iteration.order (fuse SearchResult.chunkId gains)).map withScore)

variable (iteration : Iteration (SearchResult Score × Score))

def mergeResults (vector keyword : List (SearchResult Score)) (vectorWeight keywordWeight : Score) :
    List (SearchResult Score) :=
  collectResults iteration (linearGains vectorWeight vector ++ linearGains keywordWeight keyword)

def mergeResultsRrf (vector keyword : List (SearchResult Score))
    (vectorWeight keywordWeight : Score) (limit : ℕ) : List (SearchResult Score) :=
  collectResults iteration
    (rrfGains limit vectorWeight vector ++ rrfGains limit keywordWeight keyword)

variable (store : MemoryStore Score Embedding) (embedder : EmbeddingProvider Embedding)
  (query : String) (limit : ℕ) (vectorWeight keywordWeight : Score) (strategy : MergeStrategy)

/-- Results without a text get that of their chunk. -/
def fillText (r : SearchResult Score) : SearchResult Score :=
  if r.text = "" then
    match store.chunkText r.chunkId with
    | some text => { r with text := text }
    | none => r
  else r

/-- The results of both searches, over-fetched for merging. -/
def vectorResults : List (SearchResult Score) :=
  store.vectorSearch (embedder.embed query) (limit * 3) (some embedder.modelName)

def keywordResults : List (SearchResult Score) := store.keywordSearch query (limit * 3)

def hybridSearch : List (SearchResult Score) :=
  let vector := vectorResults store embedder query limit
  let keyword := keywordResults store query limit
  let merged :=
    match strategy with
    | .linear => mergeResults iteration vector keyword vectorWeight keywordWeight
    | .rrf => mergeResultsRrf iteration vector keyword vectorWeight keywordWeight limit
  (merged.take limit).map (fillText store)

/-! ## Ties -/

/-- What the two result lists contribute to the scores of the chunks. -/
def contributions (strategy : MergeStrategy) (limit : ℕ) (vectorWeight keywordWeight : Score)
    (vector keyword : List (SearchResult Score)) : List (SearchResult Score × Score) :=
  match strategy with
  | .linear => linearGains vectorWeight vector ++ linearGains keywordWeight keyword
  | .rrf => rrfGains limit vectorWeight vector ++ rrfGains limit keywordWeight keyword

variable {iteration} {store} {embedder} {query} {limit} {vectorWeight keywordWeight} {strategy}

omit [Mul Score] [Div Score] [NatCast Score] in
theorem collectResults_eq (gains : List (SearchResult Score × Score)) :
    collectResults iteration gains =
      (ranking iteration (fuse SearchResult.chunkId gains)).map withScore := by
  unfold collectResults sortByScore ranking
  rw [sortByKey_map]
  rfl

theorem merged_eq (vector keyword : List (SearchResult Score)) :
    (match strategy with
      | .linear => mergeResults iteration vector keyword vectorWeight keywordWeight
      | .rrf => mergeResultsRrf iteration vector keyword vectorWeight keywordWeight limit) =
    collectResults iteration
      (contributions strategy limit vectorWeight keywordWeight vector keyword) := by
  cases strategy <;> rfl

omit [LinearOrder Score] [Zero Score] [Add Score] [Mul Score] [Div Score] [NatCast Score] in
theorem chunkId_fillText (r : SearchResult Score) : (fillText store r).chunkId = r.chunkId := by
  unfold fillText
  split
  · split <;> rfl
  · rfl

/-- **Two searches give the same list exactly if no tie reaches into the limit.** -/
theorem hybridSearch_agree_iff :
    (∀ i j : Iteration (SearchResult Score × Score),
      hybridSearch i store embedder query limit vectorWeight keywordWeight strategy =
        hybridSearch j store embedder query limit vectorWeight keywordWeight strategy) ↔
    TieFree SearchResult.chunkId
      (contributions strategy limit vectorWeight keywordWeight
        (vectorResults store embedder query limit) (keywordResults store query limit)) limit := by
  rw [← fused_take_eq_iff (f := fun entry => fillText store (withScore entry))
    (g := SearchResult.chunkId) fun entry => chunkId_fillText _]
  have hsearch : ∀ i : Iteration (SearchResult Score × Score),
      hybridSearch i store embedder query limit vectorWeight keywordWeight strategy =
      ((ranking i (fuse SearchResult.chunkId (contributions strategy limit vectorWeight
        keywordWeight (vectorResults store embedder query limit)
        (keywordResults store query limit)))).take limit).map
          fun entry => fillText store (withScore entry) := by
    intro i
    unfold hybridSearch
    simp only
    rw [merged_eq, collectResults_eq, ← List.map_take, List.map_map]
    rfl
  simp only [hsearch]

end Merge

end Chelix.Memory
