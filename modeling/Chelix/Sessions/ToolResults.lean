import Chelix.Library.Disk
import Chelix.Library.Json
import Chelix.Library.Run
import Chelix.Library.Utf8Bytes

/-!
# Tool results on disk

The full output of a tool call is kept in a directory of its session and its call, whose names are
the key and the id with every character replaced that a name should not have.
-/

namespace Chelix.Sessions

open Chelix.Library

def toolResultsDirName : List Char := "tool-results".toList

def sanitizePathComponent (component : List Char) : List Char :=
  if component = [] then "unknown".toList
  else component.map fun c =>
    if c.isAlphanum || c = '_' || c = '.' || c = '-' then c else '_'

/-- The files that a call may have. -/
inductive ResultFile where
  | contentTxt
  | contentJson
  | schemaJson
  deriving DecidableEq

def ResultFile.name : ResultFile → List Char
  | .contentTxt => "content.txt".toList
  | .contentJson => "content.json".toList
  | .schemaJson => "schema.json".toList

/-- The reader and the writers of JSON. -/
structure ResultCodec where
  fromStr : List Char → Option Json
  toStringPretty : Json → List Char
  schemaText : Json → List Char

structure PersistedToolResult where
  contentPath : Path
  schemaPath : Option Path
  contentBytes : ℕ
  contentLines : ℕ
  deriving DecidableEq

/-- The number of lines of a text, without an empty one behind a final line feed. -/
def linesCount (content : List Char) : ℕ :=
  content.count '\n' + if content.getLast?.all (· = '\n') then 0 else 1

/-! ## The store -/

structure ToolResultStore where
  baseDir : Path

namespace ToolResultStore

def new (sessionsDir : Path) : ToolResultStore := ⟨Path.join sessionsDir toolResultsDirName⟩

def sessionDir (store : ToolResultStore) (sessionKey : List Char) : Path :=
  Path.join store.baseDir (sanitizePathComponent sessionKey)

def callDir (store : ToolResultStore) (sessionKey callId : List Char) : Path :=
  Path.join (store.sessionDir sessionKey) (sanitizePathComponent callId)

def resultPath (store : ToolResultStore) (sessionKey callId : List Char) (file : ResultFile) :
    Path := Path.join (store.callDir sessionKey callId) file.name

end ToolResultStore

def writeIfMissing (disk : Disk) (path : Path) (content : List Char) : Except DiskError Disk :=
  if (disk.lookup path).isSome then .ok disk else disk.write path content

/-- A file below directories that exist is written unless something is there. -/
theorem writeIfMissing_of_reachable {disk : Disk} {path : Path} (content : List Char)
    (hne : Path.resolve path ≠ []) (hreachable : disk.reachable (Path.resolve path) = true) :
    ∃ disk', writeIfMissing disk path content = .ok disk' ∧
      ∀ place, disk' place =
        if place = Path.resolve path ∧ disk place = none then some (.file content)
        else disk place := by
  unfold writeIfMissing
  rw [Disk.lookup_of_reachable hreachable]
  cases hentry : disk (Path.resolve path) with
  | some entry =>
    refine ⟨disk, rfl, fun place => (if_neg ?_).symm⟩
    rintro ⟨rfl, hnone⟩
    rw [hentry] at hnone
    cases hnone
  | none =>
    have hdir : disk.isDir (Path.resolve path) = false := by
      unfold Disk.isDir
      rw [hentry, decide_eq_false hne, Bool.false_or]
      rfl
    have hwrite : disk.write path content = .ok fun place =>
        if place = Path.resolve path then some (.file content) else disk place := by
      unfold Disk.write
      rw [hreachable, hdir]
      rfl
    refine ⟨_, hwrite, fun place => ?_⟩
    by_cases hplace : place = Path.resolve path
    · subst hplace
      rw [if_pos rfl, if_pos ⟨rfl, hentry⟩]
    · rw [if_neg hplace, if_neg fun h => hplace h.1]

/-- What is kept of an output: the content and, of structured data, the schema. -/
def resultFiles (codec : ResultCodec) (raw : List Char) :
    ResultFile × List Char × Option (List Char) :=
  match codec.fromStr raw with
  | some (.str text) => (.contentTxt, text.toList, none)
  | some parsed => (.contentJson, codec.toStringPretty parsed, some (codec.schemaText parsed))
  | none => (.contentTxt, raw, none)

variable (codec : ResultCodec) (store : ToolResultStore)

def persist (disk : Disk) (sessionKey callId raw : List Char) :
    Except DiskError PersistedToolResult × Disk :=
  let dir := store.callDir sessionKey callId
  let (fileName, content, schema) := resultFiles codec raw
  match disk.createDirAll dir with
  | .error e => (.error e, disk)
  | .ok disk =>
    let contentPath := Path.join dir fileName.name
    match writeIfMissing disk contentPath content with
    | .error e => (.error e, disk)
    | .ok disk =>
      let result schemaPath : PersistedToolResult :=
        ⟨contentPath, schemaPath, (encodeUtf8 content).length, linesCount content⟩
      match schema with
      | none => (.ok (result none), disk)
      | some schema =>
        let path := Path.join dir ResultFile.schemaJson.name
        match writeIfMissing disk path schema with
        | .error e => (.error e, disk)
        | .ok disk => (.ok (result (some path)), disk)

def persistText (disk : Disk) (sessionKey callId content : List Char) :
    Except DiskError PersistedToolResult × Disk :=
  let dir := store.callDir sessionKey callId
  match disk.createDirAll dir with
  | .error e => (.error e, disk)
  | .ok disk =>
    let contentPath := Path.join dir ResultFile.contentTxt.name
    match writeIfMissing disk contentPath content with
    | .error e => (.error e, disk)
    | .ok disk =>
      (.ok ⟨contentPath, none, (encodeUtf8 content).length, linesCount content⟩, disk)

/-! ## Clearing a session -/

/-- The characters of `keyToFilename`. -/
def filenameOfKey (key : List Char) : List Char := key.map fun c => if c = ':' then '_' else c

def mediaDirFor (sessionsDir : Path) (key : List Char) : Path :=
  Path.join (Path.join sessionsDir "media".toList) (filenameOfKey key)

/-- A removal for which a missing directory is no error. -/
def removeIfPresent (disk : Disk) (path : Path) : Except DiskError Unit × Disk :=
  match disk.removeDirAll path with
  | (.error .notFound, disk) => (.ok (), disk)
  | result => result

/-- What `clear` removes from the disk, before the journal is cleared. -/
def clear (sessionsDir : Path) (disk : Disk) (key : List Char) : Except DiskError Unit × Disk :=
  match removeIfPresent disk (mediaDirFor sessionsDir key) with
  | (.error e, disk) => (.error e, disk)
  | (.ok _, disk) => removeIfPresent disk ((ToolResultStore.new sessionsDir).sessionDir key)

end Chelix.Sessions
