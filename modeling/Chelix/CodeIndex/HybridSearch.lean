import Chelix.Library.Fusion
import Chelix.Splitter.Markdown

/-!
# Hybrid search in the code index

The chunks of a project are ranked by their similarity, and merged with the keyword results by
reciprocal ranks.  The order in which the hash map of the merge is iterated is a parameter.
-/

namespace Chelix.CodeIndex

open Chelix.Library

structure SearchResult (Score : Type) where
  chunkId : String
  path : String
  startLine : ℕ
  endLine : ℕ
  score : Score
  text : List Char
  source : String
  deriving DecidableEq

structure CodeChunk (Embedding : Type) where
  filePath : String
  chunkIndex : ℕ
  content : List Char
  embedding : Option Embedding
  startLine : ℕ
  endLine : ℕ

inductive SearchError where
  | searchFailed (projectId message : String)
  | indexStore (message : String)
  deriving DecidableEq

/-- The reads of a store. -/
structure CodeIndexStore (Score Embedding : Type) where
  searchKeyword : String → String → ℕ → Except String (List (SearchResult Score))
  getProjectChunks : String → Except SearchError (List (CodeChunk Embedding))

/-- `embed_batch` of a provider. -/
abbrev EmbedBatch (Embedding : Type) := List String → Except String (List Embedding)

section Merge

variable {Score RankScore : Type} [LinearOrder RankScore] [Zero RankScore] [Add RankScore]
  [Div RankScore] [NatCast RankScore]

/-- `path:start_line`. -/
def fusionKey (result : SearchResult Score) : String :=
  result.path ++ ":" ++ toString result.startLine

/-- The reciprocal ranks: `1 / (k + rank)` with `k = 60`. -/
def reciprocalGains (results : List (SearchResult Score)) :
    List (SearchResult Score × RankScore) :=
  results.mapIdx fun rank result =>
    (result, ((1 : ℕ) : RankScore) / (((60 : ℕ) : RankScore) + (rank : RankScore)))

variable (RankScore) in
/-- What the two result lists contribute to the sums. -/
def rankContributions (vector keyword : List (SearchResult Score)) :
    List (SearchResult Score × RankScore) :=
  reciprocalGains vector ++ reciprocalGains keyword

/-- The merged results before the cut. -/
def mergedEntries (iteration : Iteration (SearchResult Score × RankScore))
    (vector keyword : List (SearchResult Score)) : List (SearchResult Score × RankScore) :=
  ranking iteration (fuse fusionKey (rankContributions RankScore vector keyword))

def mergeHybridResults (iteration : Iteration (SearchResult Score × RankScore))
    (vector keyword : List (SearchResult Score)) (limit : ℕ) : List (SearchResult Score) :=
  ((mergedEntries iteration vector keyword).take limit).map Prod.fst

end Merge

section Search

variable {Score RankScore Embedding : Type} [LinearOrder Score] [LinearOrder RankScore]
  [Zero RankScore] [Add RankScore] [Div RankScore] [NatCast RankScore]
  (cosineSimilarity : Embedding → Embedding → Score)

def peekLines (content : List Char) (start maxLines : ℕ) : List Char :=
  let lines := Splitter.textLines content
  if lines.length ≤ start then []
  else List.intercalate ['\n'] ((lines.take (start + maxLines)).drop start)

def scoreChunk (query : Embedding) (chunk : CodeChunk Embedding) :
    Option (Score × CodeChunk Embedding) :=
  chunk.embedding.map fun embedding => (cosineSimilarity query embedding, chunk)

def chunkResult (scored : Score × CodeChunk Embedding) : SearchResult Score where
  chunkId := scored.2.filePath ++ ":" ++ toString scored.2.startLine
  path := scored.2.filePath
  startLine := scored.2.startLine
  endLine := scored.2.endLine
  score := scored.1
  text := peekLines scored.2.content 0 10
  source := "builtin"

/-- The first chunks of a stable sort by score, descending. -/
def rankChunks (query : Embedding) (chunks : List (CodeChunk Embedding)) (limit : ℕ) :
    List (SearchResult Score) :=
  let scored := chunks.filterMap (scoreChunk cosineSimilarity query)
  ((sortByKey (fun scored => OrderDual.toDual scored.1) scored).take limit).map chunkResult

variable (iteration : Iteration (SearchResult Score × RankScore))
  (store : CodeIndexStore Score Embedding) (embedder : Option (EmbedBatch Embedding))
  (projectId query : String) (limit : ℕ)

def searchBuiltin : Except SearchError (List (SearchResult Score)) :=
  match store.searchKeyword projectId query limit with
  | .error e => .error (.searchFailed projectId ("keyword search failed: " ++ e))
  | .ok keyword =>
    match embedder with
    | none => .ok (keyword.take limit)
    | some embedBatch =>
      match embedBatch [query] with
      -- keyword results alone, with a warning
      | .error _ => .ok (keyword.take limit)
      | .ok embeddings =>
        match embeddings.getLast? with
        | none =>
          .error (.indexStore "embed_batch returned empty result for single input")
        | some queryEmbedding =>
          match store.getProjectChunks projectId with
          | .error e => .error e
          | .ok chunks =>
            .ok (mergeHybridResults iteration
              (rankChunks cosineSimilarity queryEmbedding chunks limit) keyword limit)

/-! ## Ties -/

/-- The two result lists, if a search comes to merge them. -/
def mergedLists : Option (List (SearchResult Score) × List (SearchResult Score)) :=
  match store.searchKeyword projectId query limit, embedder with
  | .ok keyword, some embedBatch =>
    match embedBatch [query], store.getProjectChunks projectId with
    | .ok embeddings, .ok chunks =>
      embeddings.getLast?.map fun queryEmbedding =>
        (rankChunks cosineSimilarity queryEmbedding chunks limit, keyword)
    | _, _ => none
  | _, _ => none

variable {cosineSimilarity} {iteration} {store} {embedder} {projectId} {query} {limit}

omit [LinearOrder Score] in
theorem mergeHybridResults_agree_iff (vector keyword : List (SearchResult Score)) :
    (∀ i j : Iteration (SearchResult Score × RankScore),
      mergeHybridResults i vector keyword limit = mergeHybridResults j vector keyword limit) ↔
    TieFree fusionKey (rankContributions RankScore vector keyword) limit :=
  fused_take_eq_iff (g := fusionKey) fun _ => rfl

/-- **Two searches give the same answer exactly if they do not merge, or no tie reaches into the
limit.** -/
theorem searchBuiltin_agree_iff :
    (∀ i j : Iteration (SearchResult Score × RankScore),
      searchBuiltin cosineSimilarity i store embedder projectId query limit =
        searchBuiltin cosineSimilarity j store embedder projectId query limit) ↔
    ∀ lists ∈ mergedLists cosineSimilarity store embedder projectId query limit,
      TieFree fusionKey (rankContributions RankScore lists.1 lists.2) limit := by
  unfold searchBuiltin mergedLists
  cases store.searchKeyword projectId query limit with
  | error e => simp
  | ok keyword =>
    cases embedder with
    | none => simp
    | some embedBatch =>
      simp only
      cases embedBatch [query] with
      | error e => simp
      | ok embeddings =>
        simp only
        cases hlast : embeddings.getLast? with
        | none => cases store.getProjectChunks projectId <;> simp [hlast]
        | some queryEmbedding =>
          simp only
          cases store.getProjectChunks projectId with
          | error e => simp
          | ok chunks =>
            simp only [hlast, Except.ok.injEq, Option.map_some, Option.mem_some_iff, forall_eq',
              mergeHybridResults_agree_iff]

end Search

end Chelix.CodeIndex
