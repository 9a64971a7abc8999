import Chelix.Library.Run

/-!
# The memory index

`sync_path` brings the rows of a file in step with the file, `remove_path` removes them, and `sync`
goes through the files that it has discovered and then removes the rows of all others.  Tasks
interleave at their awaits, and files are written and deleted meanwhile.  An epoch for each path is
counted up by the tasks that delete rows; a sync writes only if the epoch is the one it has seen.
-/

namespace Chelix.Memory

open Chelix.Library

variable {Content Hash Row : Type}

/-! ## Files and rows -/

structure FileStat where
  /-- Seconds. -/
  mtime : ℕ
  size : ℕ
  deriving DecidableEq

structure MarkdownFile (Content : Type) where
  content : Content
  stat : FileStat
  deriving DecidableEq

structure FileRow (Hash : Type) where
  hash : Hash
  stat : FileStat
  deriving DecidableEq

structure MemoryIndexer (Content Hash Row : Type) where
  hash : Content → Hash
  /-- The content is UTF-8. -/
  isText : Content → Bool
  /-- The rows of the chunks, with their embeddings if there is an embedder; none if a chunk cannot
  be split to the embedder's limit. -/
  chunkRows : String → Content → Option (List Row)
  hasEmbedder : Bool
  /-- The row has an embedding of the embedder's model. -/
  isCurrent : Row → Bool
  indexable : String → Bool

namespace MemoryIndexer

variable (ix : MemoryIndexer Content Hash Row)

def fileRow (content : Content) (stat : FileStat) : FileRow Hash where
  hash := ix.hash content
  stat

def fileEmbeddingsCurrent (chunks : List Row) : Bool :=
  if ix.hasEmbedder then !chunks.isEmpty && chunks.all ix.isCurrent else true

end MemoryIndexer

/-! ## Tasks -/

/-- The file a task is to sync; a full sync has discovered files and goes on with those of the
list. -/
structure SyncJob where
  path : String
  discovered : Option (List String)
  todo : List String
  deriving DecidableEq

inductive TaskCall where
  | syncPath (path : String)
  | removePath (path : String)
  | sync
  deriving DecidableEq

inductive TaskPhase (Content : Type) where
  | idle
  | metadata (job : SyncJob)
  | getFile (job : SyncJob) (stat : FileStat)
  /-- The stored file has the same stat; are its embeddings current? -/
  | sameStat (job : SyncJob) (stat : FileStat)
  | startEpoch (job : SyncJob) (stat : FileStat)
  | reading (job : SyncJob) (stat : FileStat) (epoch : ℕ)
  | getAgain (job : SyncJob) (stat : FileStat) (epoch : ℕ) (content : Content)
  /-- The stored file has the same hash; are its embeddings current? -/
  | sameHash (job : SyncJob) (stat : FileStat) (epoch : ℕ) (content : Content)
  | upsertFile (job : SyncJob) (stat : FileStat) (content : Content)
  | bumping (job : SyncJob) (stat : FileStat) (content : Content)
  | deletingChunks (job : SyncJob) (stat : FileStat) (content : Content)
  | deletingFile (job : SyncJob) (stat : FileStat) (content : Content)
  | epochAgain (job : SyncJob) (stat : FileStat) (content : Content)
  | embedding (job : SyncJob) (stat : FileStat) (epoch : ℕ) (content : Content)
  /-- The epoch is the one that was seen, and the lock is held from here on. -/
  | exists (job : SyncJob) (stat : FileStat) (content : Content)
  | replacing (job : SyncJob) (stat : FileStat) (content : Content)
  | listing (discovered : List String)
  | staleChunks (path : String) (stale : List String)
  | staleFile (path : String) (stale : List String)
  | removing (path : String)
  /-- The epoch is counted up, and the lock is held from here on. -/
  | removeChunks (path : String)
  | removeFile (path : String)
  | done

/-- A full sync goes on with the next file, then lists the stored ones. -/
def TaskPhase.nextFile (discovered : Option (List String)) : List String → TaskPhase Content
  | path :: todo => .metadata ⟨path, discovered, todo⟩
  | [] => discovered.elim .done .listing

/-- What follows when the file is dealt with. -/
def SyncJob.next (job : SyncJob) : TaskPhase Content := .nextFile job.discovered job.todo

def TaskPhase.nextStale : List String → TaskPhase Content
  | path :: stale => .staleChunks path stale
  | [] => .done

structure SyncState (Content Hash Row : Type) where
  files : String → Option (MarkdownFile Content)
  /-- The stored files. -/
  rows : String → Option (FileRow Hash)
  chunks : String → List Row
  epochs : String → ℕ
  locked : String → Bool
  phase : ℕ → TaskPhase Content

def SyncState.start (files : String → Option (MarkdownFile Content)) :
    SyncState Content Hash Row where
  files
  rows := fun _ => none
  chunks := fun _ => []
  epochs := fun _ => 0
  locked := fun _ => false
  phase := fun _ => .idle

namespace SyncState

variable (s : SyncState Content Hash Row)

def setPhase (n : ℕ) (phase : TaskPhase Content) : SyncState Content Hash Row :=
  { s with phase := Function.update s.phase n phase }

def setRow (path : String) (row : Option (FileRow Hash)) : SyncState Content Hash Row :=
  { s with rows := Function.update s.rows path row }

def setChunks (path : String) (chunks : List Row) : SyncState Content Hash Row :=
  { s with chunks := Function.update s.chunks path chunks }

def bumpPathEpoch (path : String) : SyncState Content Hash Row :=
  { s with epochs := Function.update s.epochs path (s.epochs path + 1) }

def setLocked (path : String) (locked : Bool) : SyncState Content Hash Row :=
  { s with locked := Function.update s.locked path locked }

end SyncState

inductive SyncEvent (Content : Type) where
  | begin (n : ℕ) (call : TaskCall)
  | step (n : ℕ)
  | change (path : String) (file : Option (MarkdownFile Content))

section Steps

variable (ix : MemoryIndexer Content Hash Row) [DecidableEq Hash]

/-- The fast path needs a stored file with the same stat. -/
def afterGetFile (row : Option (FileRow Hash)) (job : SyncJob) (stat : FileStat) :
    TaskPhase Content :=
  match row with
  | some existing =>
    if existing.stat = stat then if ix.hasEmbedder then .sameStat job stat else job.next
    else .startEpoch job stat
  | none => .startEpoch job stat

/-- The chunks are split before they are embedded; an error ends the sync of the file. -/
def splitChunks (job : SyncJob) (stat : FileStat) (epoch : ℕ) (content : Content) :
    TaskPhase Content :=
  if (ix.chunkRows job.path content).isSome then .embedding job stat epoch content else job.next

/-- A stored file with another hash is deleted first. -/
def afterGetAgain (row : Option (FileRow Hash)) (job : SyncJob) (stat : FileStat) (epoch : ℕ)
    (content : Content) : TaskPhase Content :=
  match row with
  | some existing =>
    if existing.hash = ix.hash content then
      if ix.hasEmbedder then .sameHash job stat epoch content else .upsertFile job stat content
    else .bumping job stat content
  | none => splitChunks ix job stat epoch content

inductive SyncStep (s : SyncState Content Hash Row) :
    SyncEvent Content → SyncState Content Hash Row → Prop
  | beginSyncPath {n : ℕ} {path : String} (hphase : s.phase n = .idle)
      (hpath : ix.indexable path = true) :
      SyncStep s (.begin n (.syncPath path)) (s.setPhase n (.metadata ⟨path, none, []⟩))
  | beginSyncOther {n : ℕ} {path : String} (hphase : s.phase n = .idle)
      (hpath : ix.indexable path = false) :
      SyncStep s (.begin n (.syncPath path)) (s.setPhase n (.removing path))
  | beginRemovePath {n : ℕ} {path : String} (hphase : s.phase n = .idle) :
      SyncStep s (.begin n (.removePath path)) (s.setPhase n (.removing path))
  | beginSync {n : ℕ} {discovered : List String} (hphase : s.phase n = .idle)
      (hdiscovered : ∀ path, path ∈ discovered ↔
        ix.indexable path = true ∧ s.files path ≠ none) :
      SyncStep s (.begin n .sync) (s.setPhase n (.nextFile (some discovered) discovered))
  | metadata {n : ℕ} {job : SyncJob} {file : MarkdownFile Content}
      (hphase : s.phase n = .metadata job) (hfile : s.files job.path = some file) :
      SyncStep s (.step n) (s.setPhase n (.getFile job file.stat))
  /-- An error ends the sync of the file. -/
  | metadataNone {n : ℕ} {job : SyncJob} (hphase : s.phase n = .metadata job)
      (hfile : s.files job.path = none) :
      SyncStep s (.step n) (s.setPhase n job.next)
  | getFile {n : ℕ} {job : SyncJob} {stat : FileStat} (hphase : s.phase n = .getFile job stat) :
      SyncStep s (.step n) (s.setPhase n (afterGetFile ix (s.rows job.path) job stat))
  | sameStat {n : ℕ} {job : SyncJob} {stat : FileStat} (hphase : s.phase n = .sameStat job stat) :
      SyncStep s (.step n)
        (s.setPhase n
          (if ix.fileEmbeddingsCurrent (s.chunks job.path) then job.next
          else .startEpoch job stat))
  | startEpoch {n : ℕ} {job : SyncJob} {stat : FileStat}
      (hphase : s.phase n = .startEpoch job stat) (hlocked : s.locked job.path = false) :
      SyncStep s (.step n) (s.setPhase n (.reading job stat (s.epochs job.path)))
  | read {n : ℕ} {job : SyncJob} {stat : FileStat} {epoch : ℕ} {file : MarkdownFile Content}
      (hphase : s.phase n = .reading job stat epoch) (hfile : s.files job.path = some file)
      (htext : ix.isText file.content = true) :
      SyncStep s (.step n) (s.setPhase n (.getAgain job stat epoch file.content))
  | readNotText {n : ℕ} {job : SyncJob} {stat : FileStat} {epoch : ℕ} {file : MarkdownFile Content}
      (hphase : s.phase n = .reading job stat epoch) (hfile : s.files job.path = some file)
      (htext : ix.isText file.content = false) :
      SyncStep s (.step n) (s.setPhase n job.next)
  | readNone {n : ℕ} {job : SyncJob} {stat : FileStat} {epoch : ℕ}
      (hphase : s.phase n = .reading job stat epoch) (hfile : s.files job.path = none) :
      SyncStep s (.step n) (s.setPhase n job.next)
  | getAgain {n : ℕ} {job : SyncJob} {stat : FileStat} {epoch : ℕ} {content : Content}
      (hphase : s.phase n = .getAgain job stat epoch content) :
      SyncStep s (.step n)
        (s.setPhase n (afterGetAgain ix (s.rows job.path) job stat epoch content))
  | sameHash {n : ℕ} {job : SyncJob} {stat : FileStat} {epoch : ℕ} {content : Content}
      (hphase : s.phase n = .sameHash job stat epoch content) :
      SyncStep s (.step n)
        (s.setPhase n
          (if ix.fileEmbeddingsCurrent (s.chunks job.path) then .upsertFile job stat content
          else splitChunks ix job stat epoch content))
  | upsertFile {n : ℕ} {job : SyncJob} {stat : FileStat} {content : Content}
      (hphase : s.phase n = .upsertFile job stat content) :
      SyncStep s (.step n)
        ((s.setRow job.path (some (ix.fileRow content stat))).setPhase n job.next)
  | bump {n : ℕ} {job : SyncJob} {stat : FileStat} {content : Content}
      (hphase : s.phase n = .bumping job stat content) (hlocked : s.locked job.path = false) :
      SyncStep s (.step n)
        ((s.bumpPathEpoch job.path).setPhase n (.deletingChunks job stat content))
  | deleteChunks {n : ℕ} {job : SyncJob} {stat : FileStat} {content : Content}
      (hphase : s.phase n = .deletingChunks job stat content) :
      SyncStep s (.step n)
        ((s.setChunks job.path []).setPhase n (.deletingFile job stat content))
  | deleteFile {n : ℕ} {job : SyncJob} {stat : FileStat} {content : Content}
      (hphase : s.phase n = .deletingFile job stat content) :
      SyncStep s (.step n) ((s.setRow job.path none).setPhase n (.epochAgain job stat content))
  | epochAgain {n : ℕ} {job : SyncJob} {stat : FileStat} {content : Content}
      (hphase : s.phase n = .epochAgain job stat content) (hlocked : s.locked job.path = false) :
      SyncStep s (.step n) (s.setPhase n (splitChunks ix job stat (s.epochs job.path) content))
  | lock {n : ℕ} {job : SyncJob} {stat : FileStat} {epoch : ℕ} {content : Content}
      (hphase : s.phase n = .embedding job stat epoch content)
      (hlocked : s.locked job.path = false) (hepoch : s.epochs job.path = epoch) :
      SyncStep s (.step n) ((s.setLocked job.path true).setPhase n (.exists job stat content))
  | epochChanged {n : ℕ} {job : SyncJob} {stat : FileStat} {epoch : ℕ} {content : Content}
      (hphase : s.phase n = .embedding job stat epoch content)
      (hlocked : s.locked job.path = false) (hepoch : s.epochs job.path ≠ epoch) :
      SyncStep s (.step n) (s.setPhase n job.next)
  | exists {n : ℕ} {job : SyncJob} {stat : FileStat} {content : Content}
      (hphase : s.phase n = .exists job stat content) (hfile : s.files job.path ≠ none) :
      SyncStep s (.step n) (s.setPhase n (.replacing job stat content))
  | existsNot {n : ℕ} {job : SyncJob} {stat : FileStat} {content : Content}
      (hphase : s.phase n = .exists job stat content) (hfile : s.files job.path = none) :
      SyncStep s (.step n) ((s.setLocked job.path false).setPhase n job.next)
  | replace {n : ℕ} {job : SyncJob} {stat : FileStat} {content : Content} {rows : List Row}
      (hphase : s.phase n = .replacing job stat content)
      (hrows : ix.chunkRows job.path content = some rows) :
      SyncStep s (.step n)
        ((((s.setRow job.path (some (ix.fileRow content stat))).setChunks job.path
          rows).setLocked job.path false).setPhase n job.next)
  | list {n : ℕ} {discovered stale : List String} (hphase : s.phase n = .listing discovered)
      (hstale : ∀ path, path ∈ stale ↔ s.rows path ≠ none ∧ path ∉ discovered) :
      SyncStep s (.step n) (s.setPhase n (.nextStale stale))
  | staleChunks {n : ℕ} {path : String} {stale : List String}
      (hphase : s.phase n = .staleChunks path stale) :
      SyncStep s (.step n) ((s.setChunks path []).setPhase n (.staleFile path stale))
  | staleFile {n : ℕ} {path : String} {stale : List String}
      (hphase : s.phase n = .staleFile path stale) :
      SyncStep s (.step n) ((s.setRow path none).setPhase n (.nextStale stale))
  | remove {n : ℕ} {path : String} (hphase : s.phase n = .removing path)
      (hlocked : s.locked path = false) :
      SyncStep s (.step n)
        (((s.bumpPathEpoch path).setLocked path true).setPhase n (.removeChunks path))
  | removeChunks {n : ℕ} {path : String} (hphase : s.phase n = .removeChunks path) :
      SyncStep s (.step n) ((s.setChunks path []).setPhase n (.removeFile path))
  | removeFile {n : ℕ} {path : String} (hphase : s.phase n = .removeFile path) :
      SyncStep s (.step n) (((s.setRow path none).setLocked path false).setPhase n .done)
  | change {path : String} {file : Option (MarkdownFile Content)} :
      SyncStep s (.change path file) { s with files := Function.update s.files path file }

end Steps

end Chelix.Memory
