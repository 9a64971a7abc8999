import Chelix.Library.Run

/-!
# The code index

An index run compares the files with a snapshot of their hashes, reads those that have changed, and
writes their chunks to the store; a full run clears the store and reads every file.  Files change
while a run goes on, a read can fail, and a run can end early.  A watcher run writes the chunks of
some files and leaves the snapshot alone.
-/

namespace Chelix.CodeIndex

open Chelix.Library

variable {Content Hash Row : Type}

/-! ## Files -/

structure SourceFile (Content : Type) where
  content : Content
  /-- Seconds. -/
  modifiedTime : ℕ
  size : ℕ
  deriving DecidableEq

/-- A path of the project: the file there, if any, and whether git tracks it. -/
structure PathState (Content : Type) where
  file : Option (SourceFile Content)
  tracked : Bool

structure FileMeta (Hash : Type) where
  contentHash : Hash
  modifiedTime : ℕ
  size : ℕ
  deriving DecidableEq

abbrev Snapshot (Hash : Type) := String → Option (FileMeta Hash)

/-- The functions that the index is built from. -/
structure Indexer (Content Hash Row : Type) where
  contentHash : Content → Hash
  /-- The path is not excluded, its extension is allowed, the file is not too large and not
  binary. -/
  accepts : String → SourceFile Content → Bool
  /-- The rows of the chunks; none for a content that is not text. -/
  chunk : String → Content → List Row

variable (ix : Indexer Content Hash Row)

/-- The file at the path if it is tracked and passes the filter. -/
def Indexer.filtered (path : String) (state : PathState Content) : Option (SourceFile Content) :=
  if state.tracked then state.file.filter (ix.accepts path) else none

theorem Indexer.file_of_filtered {path : String} {state : PathState Content}
    {file : SourceFile Content} (h : ix.filtered path state = some file) :
    state.file = some file := by
  rw [Indexer.filtered] at h
  split at h
  · exact (Option.filter_eq_some_iff.mp h).1
  · cases h

/-- What a full run writes for the path. -/
def Indexer.expectedRows (path : String) (state : PathState Content) : List Row :=
  match ix.filtered path state with
  | some file => ix.chunk path file.content
  | none => []

/-! ## Runs -/

inductive IndexKind where
  | incremental
  | full
  | watch
  deriving DecidableEq

/-- What a run that writes rows goes on to do. -/
inductive IndexMode (Hash : Type) where
  | watch
  | incremental (removed : List String) (next : Snapshot Hash)
  | full (files : List String)

inductive RunPhase (Content Hash : Type) where
  | idle
  /-- `compute_delta` goes through the filtered files. -/
  | scanning (previous : Snapshot Hash) (todo : List String) (current : Snapshot Hash)
      (added modified : List String)
  /-- The file has been looked at, and its content is to be hashed. -/
  | hashing (previous : Snapshot Hash) (path : String) (modifiedTime size : ℕ)
      (todo : List String) (current : Snapshot Hash) (added modified : List String)
  | clearing (files : List String)
  | indexing (mode : IndexMode Hash) (todo : List String)
  /-- The file has been read, and its rows are to be written. -/
  | holding (mode : IndexMode Hash) (path : String) (content : Content) (todo : List String)
  | deleting (removed : List String) (next : Snapshot Hash)
  /-- A full run goes through its files once more and builds the snapshot. -/
  | building (todo : List String) (next : Snapshot Hash)
  | buildingHash (path : String) (modifiedTime size : ℕ) (todo : List String)
      (next : Snapshot Hash)

@[ext]
structure IndexState (Content Hash Row : Type) where
  disk : String → PathState Content
  /-- The rows of the project in the store, by file. -/
  rows : String → List Row
  snapshot : Snapshot Hash
  phase : ℕ → RunPhase Content Hash

def IndexState.start (disk : String → PathState Content) : IndexState Content Hash Row where
  disk
  rows := fun _ => []
  snapshot := fun _ => none
  phase := fun _ => .idle

namespace IndexState

variable (s : IndexState Content Hash Row)

def setPhase (n : ℕ) (phase : RunPhase Content Hash) : IndexState Content Hash Row :=
  { s with phase := Function.update s.phase n phase }

/-- All rows of the file are replaced. -/
def setRows (path : String) (rows : List Row) : IndexState Content Hash Row :=
  { s with rows := Function.update s.rows path rows }

end IndexState

/-- The rows of a file after a run has dealt with its content: no upsert without chunks. -/
def Indexer.rowsAfter (path : String) (content : Content) (rows : List Row) : List Row :=
  match ix.chunk path content with
  | [] => rows
  | chunks => chunks

/-- A path without a record is added. -/
def addedAfter (recorded : Option (FileMeta Hash)) (path : String) (added : List String) :
    List String :=
  match recorded with
  | none => added ++ [path]
  | some _ => added

/-- A path whose record has another hash is modified. -/
def modifiedAfter [DecidableEq Hash] (recorded : Option (FileMeta Hash)) (hash : Hash)
    (path : String) (modified : List String) : List String :=
  match recorded with
  | none => modified
  | some entry => if entry.contentHash = hash then modified else modified ++ [path]

inductive IndexEvent (Content : Type) where
  | begin (n : ℕ) (kind : IndexKind) (files : List String)
  /-- The run takes a step that does not fail. -/
  | step (n : ℕ)
  /-- The run cannot look at the file or read it. -/
  | fail (n : ℕ)
  /-- The run ends early. -/
  | abort (n : ℕ)
  | change (path : String) (state : PathState Content)

section Steps

variable [DecidableEq Hash]

inductive IndexStep (s : IndexState Content Hash Row) :
    IndexEvent Content → IndexState Content Hash Row → Prop
  /-- The files are those that pass the filter; where the filter cannot look at a file it leaves it
  out. -/
  | beginIncremental {n : ℕ} {files : List String} (hphase : s.phase n = .idle)
      (hfiles : ∀ path ∈ files, ix.filtered path (s.disk path) ≠ none)
      (hsnapshot : ∃ path, s.snapshot path ≠ none) :
      IndexStep s (.begin n .incremental files)
        (s.setPhase n (.scanning s.snapshot files (fun _ => none) [] []))
  /-- Without a snapshot the run is a full one. -/
  | beginFirst {n : ℕ} {files : List String} (hphase : s.phase n = .idle)
      (hfiles : ∀ path ∈ files, ix.filtered path (s.disk path) ≠ none)
      (hsnapshot : ∀ path, s.snapshot path = none) :
      IndexStep s (.begin n .incremental files) (s.setPhase n (.clearing files))
  | beginFull {n : ℕ} {files : List String} (hphase : s.phase n = .idle)
      (hfiles : ∀ path ∈ files, ix.filtered path (s.disk path) ≠ none) :
      IndexStep s (.begin n .full files) (s.setPhase n (.clearing files))
  /-- A watcher run takes the paths that are files, tracked or not. -/
  | beginWatch {n : ℕ} {files : List String} (hphase : s.phase n = .idle)
      (hfiles : ∀ path ∈ files, (s.disk path).file ≠ none) :
      IndexStep s (.begin n .watch files) (s.setPhase n (.indexing .watch files))
  /-- The time and the size are those of the snapshot: the file is taken as unchanged. -/
  | lookSame {n : ℕ} {path : String} {file : SourceFile Content} {entry : FileMeta Hash}
      {previous current : Snapshot Hash} {todo added modified : List String}
      (hphase : s.phase n = .scanning previous (path :: todo) current added modified)
      (hfile : (s.disk path).file = some file) (hentry : previous path = some entry)
      (hsame : entry.modifiedTime = file.modifiedTime ∧ entry.size = file.size) :
      IndexStep s (.step n)
        (s.setPhase n (.scanning previous todo (Function.update current path (some entry)) added
          modified))
  | look {n : ℕ} {path : String} {file : SourceFile Content}
      {previous current : Snapshot Hash} {todo added modified : List String}
      (hphase : s.phase n = .scanning previous (path :: todo) current added modified)
      (hfile : (s.disk path).file = some file)
      (hchanged : ∀ entry, previous path = some entry →
        ¬ (entry.modifiedTime = file.modifiedTime ∧ entry.size = file.size)) :
      IndexStep s (.step n)
        (s.setPhase n (.hashing previous path file.modifiedTime file.size todo current added
          modified))
  /-- The record of the previous snapshot is carried forward. -/
  | lookFail {n : ℕ} {path : String} {previous current : Snapshot Hash}
      {todo added modified : List String}
      (hphase : s.phase n = .scanning previous (path :: todo) current added modified) :
      IndexStep s (.fail n)
        (s.setPhase n (.scanning previous todo (Function.update current path (previous path)) added
          modified))
  | hash {n : ℕ} {path : String} {modifiedTime size : ℕ} {file : SourceFile Content}
      {previous current : Snapshot Hash} {todo added modified : List String}
      (hphase : s.phase n =
        .hashing previous path modifiedTime size todo current added modified)
      (hfile : (s.disk path).file = some file) :
      IndexStep s (.step n)
        (s.setPhase n (.scanning previous todo
          (Function.update current path (some ⟨ix.contentHash file.content, modifiedTime, size⟩))
          (addedAfter (previous path) path added)
          (modifiedAfter (previous path) (ix.contentHash file.content) path modified)))
  | hashFail {n : ℕ} {path : String} {modifiedTime size : ℕ} {previous current : Snapshot Hash}
      {todo added modified : List String}
      (hphase : s.phase n =
        .hashing previous path modifiedTime size todo current added modified) :
      IndexStep s (.fail n)
        (s.setPhase n (.scanning previous todo (Function.update current path (previous path)) added
          modified))
  | delta {n : ℕ} {previous current : Snapshot Hash} {added modified removed : List String}
      (hphase : s.phase n = .scanning previous [] current added modified)
      (hremoved : ∀ path, path ∈ removed ↔ previous path ≠ none ∧ current path = none) :
      IndexStep s (.step n)
        (s.setPhase n (.indexing (.incremental removed current) (added ++ modified)))
  | clear {n : ℕ} {files : List String} (hphase : s.phase n = .clearing files) :
      IndexStep s (.step n)
        ({ s with rows := fun _ => [] }.setPhase n (.indexing (.full files) files))
  | read {n : ℕ} {mode : IndexMode Hash} {path : String} {file : SourceFile Content}
      {todo : List String} (hphase : s.phase n = .indexing mode (path :: todo))
      (hfile : (s.disk path).file = some file) :
      IndexStep s (.step n) (s.setPhase n (.holding mode path file.content todo))
  | readFail {n : ℕ} {mode : IndexMode Hash} {path : String} {todo : List String}
      (hphase : s.phase n = .indexing mode (path :: todo)) :
      IndexStep s (.fail n) (s.setPhase n (.indexing mode todo))
  | upsert {n : ℕ} {mode : IndexMode Hash} {path : String} {content : Content}
      {todo : List String} (hphase : s.phase n = .holding mode path content todo) :
      IndexStep s (.step n)
        ((s.setRows path (ix.rowsAfter path content (s.rows path))).setPhase n
          (.indexing mode todo))
  | endWatch {n : ℕ} (hphase : s.phase n = .indexing .watch []) :
      IndexStep s (.step n) (s.setPhase n .idle)
  | endIncremental {n : ℕ} {removed : List String} {next : Snapshot Hash}
      (hphase : s.phase n = .indexing (.incremental removed next) []) :
      IndexStep s (.step n) (s.setPhase n (.deleting removed next))
  | endFull {n : ℕ} {files : List String} (hphase : s.phase n = .indexing (.full files) []) :
      IndexStep s (.step n) (s.setPhase n (.building files fun _ => none))
  | delete {n : ℕ} {path : String} {removed : List String} {next : Snapshot Hash}
      (hphase : s.phase n = .deleting (path :: removed) next) :
      IndexStep s (.step n) ((s.setRows path []).setPhase n (.deleting removed next))
  | buildLook {n : ℕ} {path : String} {file : SourceFile Content} {todo : List String}
      {next : Snapshot Hash} (hphase : s.phase n = .building (path :: todo) next)
      (hfile : (s.disk path).file = some file) :
      IndexStep s (.step n)
        (s.setPhase n (.buildingHash path file.modifiedTime file.size todo next))
  | buildLookFail {n : ℕ} {path : String} {todo : List String} {next : Snapshot Hash}
      (hphase : s.phase n = .building (path :: todo) next) :
      IndexStep s (.fail n) (s.setPhase n (.building todo next))
  | buildHash {n : ℕ} {path : String} {modifiedTime size : ℕ} {file : SourceFile Content}
      {todo : List String} {next : Snapshot Hash}
      (hphase : s.phase n = .buildingHash path modifiedTime size todo next)
      (hfile : (s.disk path).file = some file) :
      IndexStep s (.step n)
        (s.setPhase n (.building todo
          (Function.update next path (some ⟨ix.contentHash file.content, modifiedTime, size⟩))))
  | buildHashFail {n : ℕ} {path : String} {modifiedTime size : ℕ} {todo : List String}
      {next : Snapshot Hash}
      (hphase : s.phase n = .buildingHash path modifiedTime size todo next) :
      IndexStep s (.fail n) (s.setPhase n (.building todo next))
  | save {n : ℕ} {next : Snapshot Hash}
      (hphase : s.phase n = .deleting [] next ∨ s.phase n = .building [] next) :
      IndexStep s (.step n) ({ s with snapshot := next }.setPhase n .idle)
  | abort {n : ℕ} : IndexStep s (.abort n) (s.setPhase n .idle)
  | change {path : String} {state : PathState Content} :
      IndexStep s (.change path state)
        { s with disk := Function.update s.disk path state }

end Steps

end Chelix.CodeIndex
