import Chelix.ToolsService.FileEdit

/-!
# Writes to files

A call resolves its path, looks up the semaphore of the resolved path, acquires its one permit and
starts a blocking task, which resolves the path again and reads and writes the file.  The map of
semaphores holds them weakly and is pruned whenever it is read.  The client of a call may drop it
wherever it waits; its blocking task goes on.

What a resolution returns depends on links that anyone may change, so it is an input of the steps,
like the errors of reading and writing.
-/

namespace Chelix.ToolsService

open Chelix.Library

abbrev Path := String

abbrev Bytes := List UInt8

/-! ## Requests -/

structure EditFileOperation where
  oldString : String
  newString : String
  replaceAll : Bool
  deriving DecidableEq

/-- What a call does to its file. -/
inductive WriteOperation where
  | edit (edit : EditFileOperation)
  | multiedit (edits : List EditFileOperation)
  | overwrite (content : String)
  deriving DecidableEq

structure WriteRequest where
  filePath : Path
  operation : WriteOperation
  deriving DecidableEq

def encode (text : String) : Bytes := text.toUTF8.data.toList

def readUtf8 (path : Path) (file : Option Bytes) : Except String String :=
  match file.bind fun bytes => String.fromUTF8? ⟨bytes.toArray⟩ with
  | some text => .ok text
  | none => .error ("failed to read UTF-8 file '" ++ path ++ "'")

def EditFileOperation.apply (edit : EditFileOperation) (content : String) :
    Except String String :=
  match applyEdit content.toList edit.oldString.toList edit.newString.toList edit.replaceAll with
  | .ok outcome => .ok (String.ofList outcome.content)
  | .error (.error message) => .error message
  | .error .panic => .error "blocking file write task failed"

/-- The edits of a batch, one after the other. -/
def applyEdits (content : String) (edits : List EditFileOperation) : Except String String :=
  edits.zipIdx.foldlM (fun content edit =>
    (edit.1.apply content).mapError fun error =>
      "edit #" ++ toString (edit.2 + 1) ++ ": " ++ error) content

/-- What an operation makes of a file. -/
def newContent (path : Path) (file : Option Bytes) : WriteOperation → Except String Bytes
  | .edit edit => do
      let content ← readUtf8 path file
      let edited ← edit.apply content
      return encode edited
  | .multiedit edits => do
      let content ← readUtf8 path file
      let edited ← applyEdits content edits
      return encode edited
  | .overwrite content => return encode content

/-- Whether a missing file is created. -/
def WriteOperation.creates : WriteOperation → Bool
  | .overwrite _ => true
  | .edit _ | .multiedit _ => false

/-! ## Tasks and calls -/

/-- How far a blocking task has come. -/
inductive Stage where
  | queued
  /-- the path was resolved again: the task has reached the file -/
  | reading
  | opening (content : Bytes)
  | writing (content : Bytes) (written : ℕ)
  | syncing (content : Bytes)
  | finished (result : Except String Unit)

/-- A task that has reached its file and is not finished. -/
def Stage.active : Stage → Bool
  | .reading | .opening _ | .writing _ _ | .syncing _ => true
  | .queued | .finished _ => false

structure Task where
  path : Path
  stage : Stage

/-- How far a call has come; a semaphore is its number. -/
inductive Phase where
  | resolving
  | resolved (path : Path)
  /-- holds the lock of the map, which is pruned -/
  | looking (path : Path)
  | waiting (path : Path) (semaphore : ℕ)
  | granted (path : Path) (semaphore : ℕ)
  | running (path : Path) (semaphore : ℕ)
  | returned (result : Except String Unit)
  | dropped
  deriving DecidableEq

/-- The semaphore that a call refers to. -/
def Phase.semaphore : Phase → Option ℕ
  | .waiting _ semaphore | .granted _ semaphore | .running _ semaphore => some semaphore
  | .resolving | .resolved _ | .looking _ | .returned _ | .dropped => none

/-- The semaphore whose permit a call holds. -/
def Phase.permit : Phase → Option ℕ
  | .granted _ semaphore | .running _ semaphore => some semaphore
  | .resolving | .resolved _ | .looking _ | .waiting _ _ | .returned _ | .dropped => none

/-- A call that its client may drop: it waits for something. -/
def Phase.droppable : Phase → Bool
  | .resolving | .resolved _ | .waiting _ _ | .granted _ _ | .running _ _ => true
  | .looking _ | .returned _ | .dropped => false

def Phase.isLooking : Phase → Bool
  | .looking _ => true
  | _ => false

structure WriteCall where
  request : WriteRequest
  phase : Phase
  task : Option Task

/-! ## The runtime -/

/-- Calls have the numbers of their places in the list. -/
structure WriteRuntime where
  pathPermits : Path → Option ℕ
  available : ℕ → ℕ
  nextSemaphore : ℕ
  calls : List WriteCall
  files : Path → Option Bytes

namespace WriteRuntime

def new (files : Path → Option Bytes) : WriteRuntime where
  pathPermits _ := none
  available _ := 0
  nextSemaphore := 0
  calls := []
  files := files

def strongCount (s : WriteRuntime) (semaphore : ℕ) : ℕ :=
  s.calls.countP fun call => call.phase.semaphore = some semaphore

/-- The semaphores that are still referred to. -/
def retained (s : WriteRuntime) : Path → Option ℕ := fun path =>
  (s.pathPermits path).filter fun semaphore => s.strongCount semaphore > 0

def prune (s : WriteRuntime) : WriteRuntime := { s with pathPermits := s.retained }

/-- The semaphore of a path, which is a new one if there is none. -/
def pathPermit (s : WriteRuntime) (path : Path) : ℕ × WriteRuntime :=
  match s.retained path with
  | some semaphore => (semaphore, s)
  | none => (s.nextSemaphore, { s with
      pathPermits := Function.update s.pathPermits path (some s.nextSemaphore)
      available := Function.update s.available s.nextSemaphore 1
      nextSemaphore := s.nextSemaphore + 1 })

def setPhase (s : WriteRuntime) (call : ℕ) (phase : Phase) : WriteRuntime :=
  { s with calls := s.calls.modify call fun entry => { entry with phase } }

def setTask (s : WriteRuntime) (call : ℕ) (path : Path) (stage : Stage) : WriteRuntime :=
  { s with calls := s.calls.modify call fun entry => { entry with task := some { path, stage } } }

/-- One permit less of a semaphore. -/
def take (s : WriteRuntime) (semaphore : ℕ) : WriteRuntime :=
  { s with available := Function.update s.available semaphore (s.available semaphore - 1) }

/-- The permit that a call in some phase holds is given back. -/
def release (s : WriteRuntime) (phase : Phase) : WriteRuntime :=
  match phase.permit with
  | some semaphore =>
    { s with available := Function.update s.available semaphore (s.available semaphore + 1) }
  | none => s

def setFile (s : WriteRuntime) (path : Path) (file : Bytes) : WriteRuntime :=
  { s with files := Function.update s.files path (some file) }

end WriteRuntime

/-- A file with some bytes written from an offset on. -/
def writeAt (file : Bytes) (offset : ℕ) (chunk : Bytes) : Bytes :=
  file.take offset ++ List.replicate (offset - file.length) 0 ++ chunk ++
    file.drop (offset + chunk.length)

/-- A file cut or extended to a length. -/
def setLen (file : Bytes) (length : ℕ) : Bytes :=
  file.take length ++ List.replicate (length - file.length) 0

/-- The message of a task that finds another target. -/
def WriteRequest.movedMessage (request : WriteRequest) : String :=
  "filePath resolved to a different target while waiting to write '" ++ request.filePath ++ "'."

/-! ## Runs -/

/-- A task that has reached its file and finished, with the content it left. -/
structure WriteRecord where
  call : ℕ
  path : Path
  request : WriteRequest
  result : Except String Unit
  content : Option Bytes

/-- A runtime with its finished tasks, in order. -/
structure WriteRun where
  runtime : WriteRuntime
  history : List WriteRecord

namespace WriteRun

def setRuntime (s : WriteRun) (runtime : WriteRuntime) : WriteRun := { s with runtime }

def start (files : Path → Option Bytes) : WriteRun where
  runtime := .new files
  history := []

/-- A task that has reached its file finishes. -/
def finish (s : WriteRun) (call : ℕ) (path : Path) (request : WriteRequest)
    (result : Except String Unit) : WriteRun where
  runtime := s.runtime.setTask call path (.finished result)
  history := s.history ++ [{ call, path, request, result, content := s.runtime.files path }]

end WriteRun

inductive WriteEvent where
  | request (request : WriteRequest)
  | resolve (call : ℕ) (result : Except String Path)
  | prune (call : ℕ)
  | lookUp (call : ℕ)
  | acquire (call : ℕ)
  | spawn (call : ℕ)
  | resolveAgain (call : ℕ) (result : Except String Path)
  | read (call : ℕ)
  | openFile (call : ℕ)
  | write (call count : ℕ)
  | truncate (call : ℕ)
  | sync (call : ℕ)
  | fail (call : ℕ) (message : String)
  | reply (call : ℕ)
  | drop (call : ℕ)

/-- What may happen next. -/
inductive WriteStep : WriteRun → WriteEvent → WriteRun → Prop
  | request {s : WriteRun} {request : WriteRequest} :
      WriteStep s (.request request) (s.setRuntime { s.runtime with
        calls := s.runtime.calls ++ [{ request, phase := .resolving, task := none }] })
  | resolved {s : WriteRun} {call : ℕ} {request : WriteRequest} {path : Path} :
      s.runtime.calls[call]? = some ⟨request, .resolving, none⟩ →
      WriteStep s (.resolve call (.ok path))
        (s.setRuntime (s.runtime.setPhase call (.resolved path)))
  | unresolved {s : WriteRun} {call : ℕ} {request : WriteRequest} {message : String} :
      s.runtime.calls[call]? = some ⟨request, .resolving, none⟩ →
      WriteStep s (.resolve call (.error message))
        (s.setRuntime (s.runtime.setPhase call (.returned (.error message))))
  | prune {s : WriteRun} {call : ℕ} {request : WriteRequest} {path : Path} :
      s.runtime.calls[call]? = some ⟨request, .resolved path, none⟩ →
      (∀ other ∈ s.runtime.calls, other.phase.isLooking = false) →
      WriteStep s (.prune call)
        (s.setRuntime (s.runtime.prune.setPhase call (.looking path)))
  | lookUp {s : WriteRun} {call : ℕ} {request : WriteRequest} {path : Path} {semaphore : ℕ}
      {runtime : WriteRuntime} :
      s.runtime.calls[call]? = some ⟨request, .looking path, none⟩ →
      s.runtime.pathPermit path = (semaphore, runtime) →
      WriteStep s (.lookUp call)
        (s.setRuntime (runtime.setPhase call (.waiting path semaphore)))
  | acquire {s : WriteRun} {call : ℕ} {request : WriteRequest} {path : Path} {semaphore : ℕ} :
      s.runtime.calls[call]? = some ⟨request, .waiting path semaphore, none⟩ →
      s.runtime.available semaphore > 0 →
      WriteStep s (.acquire call)
        (s.setRuntime ((s.runtime.take semaphore).setPhase call (.granted path semaphore)))
  | spawn {s : WriteRun} {call : ℕ} {request : WriteRequest} {path : Path} {semaphore : ℕ} :
      s.runtime.calls[call]? = some ⟨request, .granted path semaphore, none⟩ →
      WriteStep s (.spawn call)
        (s.setRuntime
          ((s.runtime.setPhase call (.running path semaphore)).setTask call path .queued))
  | reached {s : WriteRun} {call : ℕ} {request : WriteRequest} {phase : Phase} {path : Path} :
      s.runtime.calls[call]? = some ⟨request, phase, some ⟨path, .queued⟩⟩ →
      WriteStep s (.resolveAgain call (.ok path))
        (s.setRuntime (s.runtime.setTask call path .reading))
  | moved {s : WriteRun} {call : ℕ} {request : WriteRequest} {phase : Phase} {path other : Path} :
      s.runtime.calls[call]? = some ⟨request, phase, some ⟨path, .queued⟩⟩ → other ≠ path →
      WriteStep s (.resolveAgain call (.ok other))
        (s.setRuntime (s.runtime.setTask call path (.finished (.error request.movedMessage))))
  | lost {s : WriteRun} {call : ℕ} {request : WriteRequest} {phase : Phase} {path : Path}
      {message : String} :
      s.runtime.calls[call]? = some ⟨request, phase, some ⟨path, .queued⟩⟩ →
      WriteStep s (.resolveAgain call (.error message))
        (s.setRuntime (s.runtime.setTask call path (.finished (.error message))))
  | read {s : WriteRun} {call : ℕ} {request : WriteRequest} {phase : Phase} {path : Path}
      {content : Bytes} :
      s.runtime.calls[call]? = some ⟨request, phase, some ⟨path, .reading⟩⟩ →
      newContent path (s.runtime.files path) request.operation = .ok content →
      WriteStep s (.read call)
        (s.setRuntime (s.runtime.setTask call path (.opening content)))
  | refused {s : WriteRun} {call : ℕ} {request : WriteRequest} {phase : Phase} {path : Path}
      {message : String} :
      s.runtime.calls[call]? = some ⟨request, phase, some ⟨path, .reading⟩⟩ →
      newContent path (s.runtime.files path) request.operation = .error message →
      WriteStep s (.read call) (s.finish call path request (.error message))
  | openFile {s : WriteRun} {call : ℕ} {request : WriteRequest} {phase : Phase} {path : Path}
      {content : Bytes} :
      s.runtime.calls[call]? = some ⟨request, phase, some ⟨path, .opening content⟩⟩ →
      (s.runtime.files path).isSome ∨ request.operation.creates = true →
      WriteStep s (.openFile call)
        (s.setRuntime
          ((s.runtime.setFile path ((s.runtime.files path).getD [])).setTask call path
            (.writing content 0)))
  | write {s : WriteRun} {call count : ℕ} {request : WriteRequest} {phase : Phase} {path : Path}
      {content : Bytes} {written : ℕ} :
      s.runtime.calls[call]? = some ⟨request, phase, some ⟨path, .writing content written⟩⟩ →
      written + count ≤ content.length →
      WriteStep s (.write call count)
        (s.setRuntime
          ((s.runtime.setFile path (writeAt ((s.runtime.files path).getD []) written
            ((content.drop written).take count))).setTask call path
              (.writing content (written + count))))
  | truncate {s : WriteRun} {call : ℕ} {request : WriteRequest} {phase : Phase} {path : Path}
      {content : Bytes} :
      s.runtime.calls[call]? =
        some ⟨request, phase, some ⟨path, .writing content content.length⟩⟩ →
      WriteStep s (.truncate call)
        (s.setRuntime
          ((s.runtime.setFile path (setLen ((s.runtime.files path).getD [])
            content.length)).setTask call path (.syncing content)))
  | sync {s : WriteRun} {call : ℕ} {request : WriteRequest} {phase : Phase} {path : Path}
      {content : Bytes} :
      s.runtime.calls[call]? = some ⟨request, phase, some ⟨path, .syncing content⟩⟩ →
      WriteStep s (.sync call) (s.finish call path request (.ok ()))
  | fail {s : WriteRun} {call : ℕ} {request : WriteRequest} {phase : Phase} {path : Path}
      {stage : Stage} {message : String} :
      s.runtime.calls[call]? = some ⟨request, phase, some ⟨path, stage⟩⟩ →
      stage.active = true →
      WriteStep s (.fail call message) (s.finish call path request (.error message))
  | reply {s : WriteRun} {call : ℕ} {request : WriteRequest} {path : Path} {semaphore : ℕ}
      {task : Task} {result : Except String Unit} :
      s.runtime.calls[call]? = some ⟨request, .running path semaphore, some task⟩ →
      task.stage = .finished result →
      WriteStep s (.reply call)
        (s.setRuntime
          ((s.runtime.release (.running path semaphore)).setPhase call (.returned result)))
  | drop {s : WriteRun} {call : ℕ} {entry : WriteCall} :
      s.runtime.calls[call]? = some entry → entry.phase.droppable = true →
      WriteStep s (.drop call)
        (s.setRuntime ((s.runtime.release entry.phase).setPhase call .dropped))

end Chelix.ToolsService
