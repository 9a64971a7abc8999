import Chelix.Library.OrderedMap
import Chelix.Memory.EmbedPayload
import Chelix.Memory.IndexSync
import Mathlib.Data.List.Infix

/-!
# One sync of the memory index, without interference

The sync of the index as a function of the store, from the discovery of the files to the removal of
the stale ones, with the rows that it writes and the failures of the store and of the embedder.
-/

namespace Chelix.Memory.Syncing

open Chelix.Library Chelix.Splitter

/-! ## The store -/

structure FileRow where
  path : String
  source : String
  hash : String
  stat : FileStat
  deriving DecidableEq

structure ChunkRow (Embedding : Type) where
  id : String
  path : String
  source : String
  startLine : ℕ
  endLine : ℕ
  hash : String
  model : String
  text : List Char
  embedding : Option Embedding
  deriving DecidableEq

/-- Provider, model and hash of a text. -/
abbrev CacheKey := String × String × String

structure Store (Embedding : Type) where
  files : OrderedMap String FileRow
  /-- The rows of the chunks of a file. -/
  chunks : String → List (ChunkRow Embedding)
  cache : CacheKey → Option Embedding
  epochs : String → ℕ
  /-- The batches that the embedder was given so far. -/
  batches : List (List (List Char))

inductive SyncError where
  | fileNotFound
  | split (failure : SplitFailure)
  | embedder (message : String)
  | store
  deriving DecidableEq

structure Embedder (Embedding : Type) where
  providerKey : String
  modelName : String
  maxEmbedPayloadBytes : Option ℕ
  embedBatch : List (List Char) → Except String (List Embedding)

structure MemoryManager (Embedding : Type) where
  embedder : Option (Embedder Embedding)
  sha256Hex : List Char → String
  /-- `chunk_content`, by the extension of the path. -/
  chunkContent : String → List Char → List Chunk
  /-- The vector of length 0. -/
  emptyEmbedding : Embedding
  /-- The eviction from a cache that has too many rows. -/
  evict : (CacheKey → Option Embedding) → CacheKey → Option Embedding

/-- The calls of the store that fail, after the content of a file was read. -/
structure StoreFaults where
  /-- By the position of the chunk. -/
  getCachedEmbedding : ℕ → Bool
  putCachedEmbeddings : Bool
  replaceFileIndex : Bool

def StoreFaults.none : StoreFaults := ⟨fun _ => false, false, false⟩

/-! ## Embeddings -/

section Embeddings

variable {Embedding : Type} (m : MemoryManager Embedding) (faults : StoreFaults)

def fileEmbeddingsCurrent (s : Store Embedding) (path : String) : Bool :=
  match m.embedder with
  | none => true
  | some embedder =>
    let chunks := s.chunks path
    if chunks.isEmpty then false
    else chunks.all fun chunk => chunk.model = embedder.modelName && chunk.embedding.isSome

/-- The chunks of a content, split to the body limit of the embedder. -/
def rawChunks (path : String) (content : List Char) : Except SplitFailure (List Chunk) :=
  match m.embedder.bind Embedder.maxEmbedPayloadBytes with
  | some limit => splitOversizeEmbedChunks limit (m.chunkContent path content)
  | none => .ok (m.chunkContent path content)

def lookup (embedder : Embedder Embedding) (s : Store Embedding) (text : List Char) :
    Option Embedding :=
  s.cache (embedder.providerKey, embedder.modelName, m.sha256Hex text)

/-- The texts that are not in the cache. -/
def missTexts (embedder : Embedder Embedding) (s : Store Embedding) (texts : List (List Char)) :
    List (List Char) :=
  texts.filter fun text => (lookup m embedder s text).isNone

/-- The new embeddings in the places of the misses. -/
def fillMisses (empty : Embedding) : List (Option Embedding) → List Embedding → List Embedding
  | [], _ => []
  | some embedding :: cached, new => embedding :: fillMisses empty cached new
  | none :: cached, embedding :: new => embedding :: fillMisses empty cached new
  | none :: cached, [] => empty :: fillMisses empty cached []

def putCachedEmbeddings (embedder : Embedder Embedding) (s : Store Embedding)
    (entries : List (List Char × Embedding)) : Store Embedding :=
  { s with
    cache := entries.foldl (fun cache entry => Function.update cache
      (embedder.providerKey, embedder.modelName, m.sha256Hex entry.1) (some entry.2)) s.cache }

/-- Embeddings from the cache, and from the embedder for the texts that are not in it. -/
def embedTexts (embedder : Embedder Embedding) (s : Store Embedding) (texts : List (List Char)) :
    Store Embedding × Except SyncError (List Embedding) :=
  if (List.range texts.length).any faults.getCachedEmbedding then (s, .error .store)
  else
    let cached := texts.map (lookup m embedder s)
    let misses := missTexts m embedder s texts
    if misses = [] then (s, .ok (fillMisses m.emptyEmbedding cached []))
    else
      let asked := { s with batches := s.batches ++ [misses] }
      match embedder.embedBatch misses with
      | .error message => (asked, .error (.embedder message))
      | .ok new =>
        if faults.putCachedEmbeddings then (asked, .error .store)
        else
          (putCachedEmbeddings m embedder asked (misses.zip new),
            .ok (fillMisses m.emptyEmbedding cached new))

/-- The embeddings of the chunks, if there is an embedder, and the name of the model. -/
def embedChunks (s : Store Embedding) (texts : List (List Char)) :
    Store Embedding × Except SyncError (Option (List Embedding) × String) :=
  match m.embedder with
  | none => (s, .ok (none, ""))
  | some embedder =>
    match embedTexts m faults embedder s texts with
    | (s', .error e) => (s', .error e)
    | (s', .ok embeddings) => (s', .ok (some embeddings, embedder.modelName))

end Embeddings

/-! ## One file -/

section SyncFile

variable {Embedding : Type} (m : MemoryManager Embedding) (faults : StoreFaults)
  (disk : String → Option (MarkdownFile (List Char)))

def sourceOf (path : String) : String :=
  if "MEMORY".toList <:+: path.toList then "longterm" else "daily"

def fileRow (path : String) (file : MarkdownFile (List Char)) : FileRow where
  path
  source := sourceOf path
  hash := m.sha256Hex file.content
  stat := file.stat

def chunkRow (path : String) (embeddings : Option (List Embedding)) (model : String) (i : ℕ)
    (chunk : Chunk) : ChunkRow Embedding where
  id := path ++ ":" ++ toString i
  path
  source := sourceOf path
  startLine := chunk.startLine
  endLine := chunk.endLine
  hash := m.sha256Hex chunk.text
  model
  text := chunk.text
  embedding := embeddings.map fun embeddings => embeddings.getD i m.emptyEmbedding

def replaceFileIndex (s : Store Embedding) (path : String) (row : FileRow)
    (rows : List (ChunkRow Embedding)) : Store Embedding :=
  { s with
    files := s.files.insert path row
    chunks := Function.update s.chunks path rows }

/-- The embeddings come before the rows are replaced.  The rows are replaced only if the epoch is
still the one that was seen, and the file still exists. -/
def reindexFile (s : Store Embedding) (path : String) (file : MarkdownFile (List Char))
    (startEpoch : ℕ) : Store Embedding × Except SyncError Bool :=
  match rawChunks m path file.content with
  | .error failure => (s, .error (.split failure))
  | .ok chunks =>
    match embedChunks m faults s (chunks.map Chunk.text) with
    | (s', .error e) => (s', .error e)
    | (s', .ok (embeddings, model)) =>
      if s'.epochs path ≠ startEpoch ∨ (disk path).isNone then (s', .ok false)
      else if faults.replaceFileIndex then (s', .error .store)
      else
        (replaceFileIndex s' path (fileRow m path file)
          (chunks.mapIdx (chunkRow m path embeddings model)), .ok true)

/-- The rows of a file with another hash are dropped. -/
def dropRows (s : Store Embedding) (path : String) : Store Embedding :=
  { s with
    files := s.files.erase path
    chunks := Function.update s.chunks path []
    epochs := Function.update s.epochs path (s.epochs path + 1) }

/-- The stored file has the stat of the file, and its embeddings are current. -/
def unchangedStat (s : Store Embedding) (path : String) (stat : FileStat) : Bool :=
  match s.files[path]? with
  | some existing => existing.stat = stat && fileEmbeddingsCurrent m s path
  | none => false

/-- A sync after the content was read. -/
def syncContent (s : Store Embedding) (path : String) (file : MarkdownFile (List Char))
    (startEpoch : ℕ) : Store Embedding × Except SyncError Bool :=
  match s.files[path]? with
  | some existing =>
    if existing.hash = m.sha256Hex file.content then
      if fileEmbeddingsCurrent m s path then
        let row := ⟨path, existing.source, existing.hash, file.stat⟩
        ({ s with files := s.files.insert path row }, .ok false)
      else reindexFile m faults disk s path file startEpoch
    else
      let s' := dropRows s path
      reindexFile m faults disk s' path file (s'.epochs path)
  | none => reindexFile m faults disk s path file startEpoch

/-- Whether the rows of the file were updated. -/
def syncFile (s : Store Embedding) (path : String) : Store Embedding × Except SyncError Bool :=
  match disk path with
  | none => (s, .error .fileNotFound)
  | some file =>
    if unchangedStat m s path file.stat then (s, .ok false)
    else syncContent m faults disk s path file (s.epochs path)

end SyncFile

/-! ## All files -/

structure SyncReport where
  filesUpdated : ℕ
  filesUnchanged : ℕ
  filesRemoved : ℕ
  errors : ℕ
  deriving DecidableEq

section Sync

variable {Embedding : Type} (m : MemoryManager Embedding) (faults : String → StoreFaults)
  (disk : String → Option (MarkdownFile (List Char)))

def syncNext (run : Store Embedding × SyncReport) (path : String) :
    Store Embedding × SyncReport :=
  match syncFile m (faults path) disk run.1 path with
  | (s, .ok true) => (s, { run.2 with filesUpdated := run.2.filesUpdated + 1 })
  | (s, .ok false) => (s, { run.2 with filesUnchanged := run.2.filesUnchanged + 1 })
  | (s, .error _) => (s, { run.2 with errors := run.2.errors + 1 })

/-- The stored files that were not discovered. -/
def staleFiles (s : Store Embedding) (discovered : List String) : List String :=
  (s.files.toList.map Prod.fst).filter fun path => !discovered.contains path

def removeFile (run : Store Embedding × SyncReport) (path : String) :
    Store Embedding × SyncReport :=
  ({ run.1 with
      files := run.1.files.erase path
      chunks := Function.update run.1.chunks path [] },
    { run.2 with filesRemoved := run.2.filesRemoved + 1 })

def sync (discovered : List String) (s : Store Embedding) : Store Embedding × SyncReport :=
  let synced := discovered.foldl (syncNext m faults disk) (s, ⟨0, 0, 0, 0⟩)
  let cleaned := (staleFiles synced.1 discovered).foldl removeFile synced
  ({ cleaned.1 with cache := m.evict cleaned.1.cache }, cleaned.2)

end Sync

end Chelix.Memory.Syncing
