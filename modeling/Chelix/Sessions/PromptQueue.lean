import Chelix.Library.OrderedMap
import Chelix.Library.Sections
import Chelix.Sessions.Message
import Mathlib.Algebra.Group.Int.Defs

/-!
# The prompt queue

Prompts that are submitted while a turn is active wait in a table.  One loop takes the commands
of all clients from a channel, one at a time, and sends each reply over a channel of its own,
whose receiver is gone if the client was cancelled meanwhile.

The encoding of the content of a prompt is a parameter.  A statement of the database may fail;
which one does is an argument of the operation.
-/

namespace Chelix.Sessions

open Chelix.Library CriticalSection

abbrev SessionKey := String

/-! ## The table -/

structure QueuedPromptRow where
  id : ℤ
  sessionKey : String
  content : String
  deriving DecidableEq

/-- The rows of `session_prompt_queue`, with the greatest id that was ever given: an id is never
given again. -/
structure QueueTable where
  rows : List QueuedPromptRow
  lastId : ℤ
  ordered : rows.Pairwise fun row row' => row.id < row'.id
  bounded : ∀ row ∈ rows, row.id ≤ lastId

namespace QueueTable

def empty : QueueTable where
  rows := []
  lastId := 0
  ordered := List.Pairwise.nil
  bounded _ h := absurd h List.not_mem_nil

/-- The table with a new row at its end. -/
def push (t : QueueTable) (sessionKey content : String) : QueueTable where
  rows := t.rows ++ [{ id := t.lastId + 1, sessionKey, content }]
  lastId := t.lastId + 1
  ordered := by
    rw [List.pairwise_append]
    refine ⟨t.ordered, List.pairwise_singleton _ _, fun row hrow row' hrow' => ?_⟩
    rw [List.mem_singleton.mp hrow']
    exact Int.lt_add_one_of_le (t.bounded row hrow)
  bounded row hrow := by
    rcases List.mem_append.mp hrow with hrow | hrow
    · have hle := t.bounded row hrow
      omega
    · rw [List.mem_singleton.mp hrow]

/-- The rows that satisfy a test. -/
def retain (t : QueueTable) (p : QueuedPromptRow → Bool) : QueueTable where
  rows := t.rows.filter p
  lastId := t.lastId
  ordered := t.ordered.filter p
  bounded row hrow := t.bounded row (List.mem_of_mem_filter hrow)

/-- The insertion of a row fails when there is no greater id. -/
def insert (t : QueueTable) (sessionKey content : String) : Except Error QueueTable :=
  if t.lastId + 1 < 2 ^ 63 then .ok (t.push sessionKey content)
  else .error (.sqlx "database or disk is full")

end QueueTable

/-! ## The store -/

structure QueuedPrompt (Content : Type) where
  id : ℤ
  sessionId : SessionKey
  content : Content

structure QueuedPromptsStatus (Content : Type) where
  sessionId : SessionKey
  prompts : List (QueuedPrompt Content)

structure QueuedPromptsDrain (Content : Type) where
  prompts : List (QueuedPrompt Content)
  status : QueuedPromptsStatus Content

/-- The encoding of the content of a prompt. -/
structure PromptCodec (Content : Type) where
  toJson : Content → Except Error String
  fromJson : String → Except Error Content

/-- A statement that fails: its number within the operation, and the error. -/
abbrev QueueFault := Option (ℕ × Error)

def statement (fault : QueueFault) (n : ℕ) : Except Error Unit :=
  match fault with
  | some (failing, e) => if failing = n then .error e else .ok ()
  | none => .ok ()

/-- An operation of the store. -/
abbrev QueueOperation (α : Type) := CriticalSection Error QueueTable α

/-- An operation that is rolled back if it fails. -/
def transaction {α : Type} (x : QueueOperation α) : QueueOperation α := fun t =>
  match x t with
  | .ok a t' => .ok a t'
  | .error e _ => .error e t

section Store

variable {Content : Type} (codec : PromptCodec Content)

def QueuedPromptRow.tryInto (row : QueuedPromptRow) : Except Error (QueuedPrompt Content) := do
  let content ← codec.fromJson row.content
  return { id := row.id, sessionId := row.sessionKey, content }

def readPrompts (t : QueueTable) (sessionId : SessionKey) :
    Except Error (List (QueuedPrompt Content)) :=
  (t.rows.filter fun row => row.sessionKey = sessionId).mapM (QueuedPromptRow.tryInto codec)

def readStatus (t : QueueTable) (sessionId : SessionKey) :
    Except Error (QueuedPromptsStatus Content) := do
  let prompts ← readPrompts codec t sessionId
  return { sessionId, prompts }

namespace QueuedPromptsStore

def status (fault : QueueFault) (sessionId : SessionKey) :
    QueueOperation (QueuedPromptsStatus Content) := do
  lift (statement fault 0)
  lift (readStatus codec (← get) sessionId)

/-- The row stays inserted when the status cannot be read. -/
def enqueue (fault : QueueFault) (sessionId : SessionKey) (content : Content) :
    QueueOperation (QueuedPromptsStatus Content) := do
  let json ← lift (codec.toJson content)
  lift (statement fault 0)
  let table ← lift ((← get).insert sessionId json)
  set table
  lift (statement fault 1)
  lift (readStatus codec (← get) sessionId)

def remove (fault : QueueFault) (id : ℤ) : QueueOperation (QueuedPromptsStatus Content) :=
  transaction do
    lift (statement fault 0)
    match (← get).rows.find? fun row => row.id = id with
    | none => throw (.message ("queued prompt '" ++ toString id ++ "' not found"))
    | some row =>
      lift (statement fault 1)
      modify fun t => t.retain fun row => row.id ≠ id
      lift (statement fault 2)
      let status ← lift (readStatus codec (← get) row.sessionKey)
      lift (statement fault 3)
      return status

def drain (fault : QueueFault) (sessionId : SessionKey) :
    QueueOperation (QueuedPromptsDrain Content) :=
  transaction do
    lift (statement fault 0)
    let prompts ← lift (readPrompts codec (← get) sessionId)
    lift (statement fault 1)
    modify fun t => t.retain fun row => row.sessionKey ≠ sessionId
    lift (statement fault 2)
    let status ← lift (readStatus codec (← get) sessionId)
    lift (statement fault 3)
    return { prompts, status }

def clear (fault : QueueFault) (sessionId : SessionKey) : QueueOperation Unit := do
  lift (statement fault 0)
  modify fun t => t.retain fun row => row.sessionKey ≠ sessionId

end QueuedPromptsStore

end Store

/-! ## Commands and replies -/

inductive Command (Content : Type) where
  | enqueue (sessionId : SessionKey) (content : Content)
  | remove (id : ℤ)
  | drain (sessionId : SessionKey)
  | clear (sessionId : SessionKey)
  | status (sessionId : SessionKey)

inductive Reply (Content : Type) where
  | status (result : Except Error (QueuedPromptsStatus Content))
  | drain (result : Except Error (QueuedPromptsDrain Content))
  | clear (result : Except Error Unit)

/-- What the loop does with a command: the reply, and the table afterwards. -/
def Command.serve {Content : Type} (codec : PromptCodec Content) (fault : QueueFault)
    (t : QueueTable) : Command Content → Reply Content × QueueTable
  | .enqueue sessionId content =>
    let operation := QueuedPromptsStore.enqueue codec fault sessionId content
    (.status (operation.result t), operation.stateAfter t)
  | .remove id =>
    let operation := QueuedPromptsStore.remove codec fault id
    (.status (operation.result t), operation.stateAfter t)
  | .drain sessionId =>
    let operation := QueuedPromptsStore.drain codec fault sessionId
    (.drain (operation.result t), operation.stateAfter t)
  | .clear sessionId =>
    let operation := QueuedPromptsStore.clear fault sessionId
    (.clear (operation.result t), operation.stateAfter t)
  | .status sessionId =>
    let operation := QueuedPromptsStore.status codec fault sessionId
    (.status (operation.result t), operation.stateAfter t)

/-! ## The service -/

/-- How far a call of a client has come. -/
inductive CallPhase (Content : Type) where
  /-- waiting for room in the channel -/
  | sending
  /-- waiting for the reply -/
  | sent
  /-- the reply is in its channel -/
  | replied (reply : Reply Content)
  | returned (reply : Reply Content)
  /-- dropped by its client, with the receiver of the reply -/
  | cancelled

structure Call (Content : Type) where
  command : Command Content
  phase : CallPhase Content

def commandChannelCapacity : ℕ := 1

/-- The service with its clients.  Calls are numbered; `replying` is the reply that the loop is
about to send. -/
structure QueueService (Content : Type) where
  table : QueueTable
  channel : List ℕ
  replying : Option (ℕ × Reply Content)
  calls : OrderedMap ℕ (Call Content)

namespace QueueService

variable {Content : Type}

/-- A service over a table, before the first call. -/
def new (table : QueueTable) : QueueService Content where
  table := table
  channel := []
  replying := none
  calls := ∅

def setCall (s : QueueService Content) (call : ℕ) (command : Command Content)
    (phase : CallPhase Content) : QueueService Content :=
  { s with calls := s.calls.insert call { command, phase } }

end QueueService

/-- What may happen next: a client starts a call, a command is taken up by the channel, the loop
serves a command, the loop sends its reply, a client takes its reply, or a client drops its call. -/
inductive QueueEvent (Content : Type) where
  | start (call : ℕ) (command : Command Content)
  | send (call : ℕ)
  | serve (fault : QueueFault)
  | reply
  | receive (call : ℕ)
  | cancel (call : ℕ)

end Chelix.Sessions
