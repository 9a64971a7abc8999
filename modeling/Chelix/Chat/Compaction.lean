import Chelix.Chat.ActiveContext
import Chelix.Sessions.JournalSearch

/-!
# Compaction checkpoints

The loop splits its messages at the start of the continuation and has the front part
summarized.  The summary is appended to the journal as a checkpoint that names the record where
the continuation starts; a compaction without a continuation names the tail of the journal.
The stored history is never changed.

The start of the continuation is a position in the memory of the loop.  The record behind it is
searched in the journal, by the calls of the first tool round and by the text of the user.
-/

namespace Chelix.Chat

open Chelix.Library Chelix.Common Chelix.Agents.Model Chelix.Sessions

inductive CompactionError where
  | session (source : Sessions.Error)
  | message (text : String)
  | external (context : String) (source : Sessions.Error)

/-- A message in the memory of the loop, with the indices of the records that it stands for. -/
structure PromptMessage where
  message : ChatMessage
  records : List ℕ

/-- The messages to summarize and the continuation. -/
def splitContextForCompaction (messages : List PromptMessage) (continuationStart : ℕ) :
    List PromptMessage × List PromptMessage :=
  if continuationStart ≤ 1 ∨ continuationStart ≥ messages.length then (messages, [])
  else (messages.take continuationStart, messages.drop continuationStart)

/-! ## Locating the continuation -/

/-- The calls of the first assistant message with calls. -/
def expectedToolCallIds (continuation : List ChatMessage) : Option (List String) :=
  continuation.findSome? fun message =>
    match message with
    | .assistant _ toolCalls _ _ _ =>
      if toolCalls = [] then none else some (toolCalls.map ToolCall.id)
    | _ => none

/-- The record of the first tool round. -/
def findAssistantIndex (t : SessionTables) (tail : ℕ) :
    Option (List String) → Except Sessions.Error (Option ℕ)
  | some expected => latestMatchingAssistant t tail expected
  | none => .ok none

def findUserBefore (t : SessionTables) : Option ℕ → Except Sessions.Error (Option ℕ)
  | some assistantIndex => latestUserBefore t assistantIndex
  | none => .ok none

/-- The record of a continuation that starts with a message of the user. -/
def findUserBoundary (t : SessionTables) (tail : ℕ) (content : UserContent)
    (assistantIndex : Option ℕ) : Except Sessions.Error (Option ℕ) := do
  match ← findUserBefore t assistantIndex with
  | some index => return some index
  | none =>
    match content with
    | .text expected => latestUserTextContainedBy t tail expected
    | .multimodal _ => latestUserBefore t tail

def findBoundary (t : SessionTables) (tail : ℕ) (first : ChatMessage)
    (assistantIndex : Option ℕ) : Except Sessions.Error (Option ℕ) :=
  match first with
  | .user content _ => findUserBoundary t tail content assistantIndex
  | .assistant _ _ _ _ _ => .ok assistantIndex
  | _ => .ok none

def unlocatedError : CompactionError :=
  .message "failed to locate the unsummarized continuation tail in session history"

def findPreservedTailStart (t : SessionTables) (tail : ℕ) :
    List ChatMessage → Except CompactionError ℕ
  | [] => .ok tail
  | first :: rest => do
      let assistantIndex ← (findAssistantIndex t tail (expectedToolCallIds (first :: rest))).mapError
        .session
      match ← (findBoundary t tail first assistantIndex).mapError .session with
      | some boundary => return boundary
      | none => throw unlocatedError

/-! ## The checkpoint -/

/-- What a summarization request returns. -/
structure SummaryReply where
  text : Option String
  inputTokens : ℕ
  outputTokens : ℕ

/-- The model of the session. -/
structure SummaryProvider where
  id : String
  name : String
  maxOutputTokens : Option ℕ
  stream : List ChatMessage → ℕ → Except String SummaryReply

/-- `u32::try_from(count).unwrap_or(u32::MAX)`. -/
def toU32 (count : ℕ) : ℕ := if count < 2 ^ 32 then count else 2 ^ 32 - 1

def checkpointRecord (provider : SummaryProvider) (summary : String) (reply : SummaryReply)
    (createdAt messagesSummarized : ℕ) : Json :=
  .obj
    [("role", .str "checkpoint"), ("summary", .str summary),
      ("created_at", .num (.posInt createdAt)), ("model", .str provider.id),
      ("provider", .str provider.name), ("inputTokens", .num (.posInt reply.inputTokens)),
      ("outputTokens", .num (.posInt reply.outputTokens)),
      ("messagesSummarized", .num (.posInt (toU32 messagesSummarized)))]

/-- The summary of a reply, unless it is empty. -/
def summaryText (reply : SummaryReply) : Option String :=
  (reply.text.map trim).filter fun text => text ≠ ""

/-- Whether a compaction without a continuation has something to summarize. -/
def ensureNotCheckpoint (t : SessionTables) (tail : ℕ) (continuation : List ChatMessage) :
    Except CompactionError Unit :=
  if continuation = [] then do
    let role ← (readRecordRole t (tail - 1)).mapError (.external "failed to read session history")
    if role = "checkpoint" then
      throw (.message "nothing to compact: session already ends with a checkpoint")
  else .ok ()

/-- The summary of a prompt.  `request` is the text of the trailing request. -/
def requestSummary (request : String) (provider : SummaryProvider)
    (messages : List ChatMessage) : Except CompactionError (String × SummaryReply) :=
  match provider.maxOutputTokens with
  | none => .error (.message ("model '" ++ provider.id ++
      "' has no resolved max_output_tokens metadata"))
  | some maxOutputTokens =>
    match provider.stream (messages ++ [.user (.text request) none]) maxOutputTokens with
    | .error e => .error (.message ("summarization request failed: " ++ e))
    | .ok reply =>
      match summaryText reply with
      | none => .error (.message "summarization returned an empty response")
      | some summary => .ok (summary, reply)

/-- The checkpoint for a prompt.  The journal is read before the request and, grown meanwhile,
after it. -/
def prepareCheckpointFromPrompt (request : String) (createdAt : ℕ) (provider : SummaryProvider)
    (before found : SessionTables) (messages continuation : List ChatMessage) :
    Except CompactionError Json := do
  let tail := (before.journal.map JournalPointers.canonicalTail).getD 0
  if tail = 0 then throw (.message "nothing to compact")
  ensureNotCheckpoint before tail continuation
  let (summary, reply) ← requestSummary request provider messages
  let boundary ← findPreservedTailStart found tail continuation
  return checkpointRecord provider summary reply createdAt boundary

section Append

variable (fromStr : String → Except String Json)

def appendPreparedCheckpoint (t : SessionTables) (message : Json) :
    Except CompactionError SessionTables :=
  (append fromStr t [message] (t.journal.getD .zero).canonicalTail).mapError
    (.external "failed to append checkpoint")

/-- A compaction: the journal before it, when the continuation is located and when the
checkpoint is appended. -/
def summarizeSessionFromPrompt (request : String) (createdAt : ℕ) (provider : SummaryProvider)
    (before found now : SessionTables) (messages continuation : List ChatMessage) :
    Except CompactionError (Json × SessionTables) := do
  let message ← prepareCheckpointFromPrompt request createdAt provider before found messages
    continuation
  let after ← appendPreparedCheckpoint fromStr now message
  return (message, after)

/-- A session whose tables are indexed. -/
structure SessionJournal where
  tables : SessionTables
  indexed : Indexed fromStr tables

/-- Batches of records that are appended one after another, each at the tail. -/
def appendBatches (t : SessionTables) (batches : List (List Json)) :
    Except Sessions.Error SessionTables :=
  batches.foldlM (fun t batch => append fromStr t batch (t.journal.getD .zero).canonicalTail) t

end Append

/-! ## What a checkpoint keeps -/

/-- The call that a record is the result of. -/
def resultCallId (record : Json) : Option String :=
  match role record with
  | some "tool" => some ((record.index "tool_call_id").asStr.getD "")
  | some "tool_lifecycle" =>
    match Decoder.run "ToolLifecycleEvent" decodeToolLifecycleEvent record with
    | .error _ => none
    | .ok lifecycle =>
      (ChatReconstruction.terminalContent lifecycle.update).map fun _ => lifecycle.toolCallId
  | _ => none

/-- The record is the result of a call that an assistant record below an index made. -/
def AnswersBelow (values : List Json) (start : ℕ) (record : Json) : Prop :=
  ∃ id, resultCallId record = some id ∧
    ∃ i < start, ∃ call, values[i]? = some call ∧ recordRole call = "assistant" ∧
      id ∈ recordedCallIds call

/-- Where a checkpoint says that the records it keeps start. -/
def messagesSummarized (checkpoint : Json) : ℕ :=
  (checkpoint.index "messagesSummarized").asNat.getD 0

/-- **No message is lost.**  `start` is where the checkpoint says that the continuation starts,
and `after` are the payloads of the journal that ends with it.  `orderedValues` are the records
that a journal loads. -/
structure Keeps (values meanwhile : List Json) (prompt continuation : List PromptMessage)
    (start : ℕ) (after : List Json) : Prop where
  active : ∀ entry ∈ orderedValues values,
    (∃ m ∈ prompt, entry.2 ∈ m.records) ∨ (start ≤ entry.2 ∧ entry ∈ orderedValues after)
  meanwhile : ∀ entry ∈ meanwhile.zipIdx values.length,
    start ≤ entry.2 ∧ (isCheckpoint entry.1 = false → entry ∈ orderedValues after)
  first : ∀ m, continuation.head? = some m → start ∈ m.records
  answers : ∀ entry, (orderedValues after).tail.head? = some entry →
    ¬AnswersBelow after start entry.1

/-! ## Where the search ends -/

/-- The latest record with the calls of the first tool round of a continuation. -/
def RoundRecord (values : List Json) (continuation : List ChatMessage) (a : ℕ) : Prop :=
  ∃ ids, expectedToolCallIds continuation = some ids ∧
    Latest values (MadeCalls ids) values.length a

/-- The latest user record with a text that the content has, or the latest one at all. -/
def ContentRecord (values : List Json) (b : ℕ) : UserContent → Prop
  | .text text => Latest values (IsUserWithin text) values.length b
  | .multimodal _ => Latest values IsUser values.length b

/-- The record that the search takes for the first one of the continuation: the latest user
record before the first tool round, or the latest one with the text; the tool round, for a
continuation that starts with an answer. -/
def Boundary (values : List Json) (b : ℕ) (continuation : List ChatMessage) : Prop :=
  match continuation with
  | [] => b = values.length
  | .user content _ :: _ =>
    (∃ a, RoundRecord values continuation a ∧ Latest values IsUser a b) ∨
      ((∀ a c, RoundRecord values continuation a → ¬Latest values IsUser a c) ∧
        ContentRecord values b content)
  | .assistant _ _ _ _ _ :: _ => RoundRecord values continuation b
  | _ :: _ => False

/-! ## Where it has to end -/

/-- The prompt is in front of an index: the checkpoint and every active record before the index
stand behind a message of it. -/
def InFront (values : List Json) (prompt : List PromptMessage) (r : ℕ) : Prop :=
  ∀ entry ∈ orderedValues values, entry.2 < r ∨ isCheckpoint entry.1 = true →
    ∃ m ∈ prompt, entry.2 ∈ m.records

/-- The records from an index on do not begin with a result whose call comes before it. -/
def BeginsClean (values : List Json) (r : ℕ) : Prop :=
  ∀ entry, (values.zipIdx.drop r).find? (fun entry => !isCheckpoint entry.1) = some entry →
    ¬AnswersBelow values r entry.1

/-- **The journals and splits of which a compaction loses nothing.**  Without a continuation the
prompt stands for all the active records, and what is appended meanwhile does not begin with the
result of a recorded call.  With one, the search singles out a record of its first message that the
prompt is in front of.  An index that a checkpoint cannot hold is written as `u32::MAX`. -/
def Locatable (values meanwhile : List Json) (prompt : List PromptMessage) :
    List PromptMessage → Prop
  | [] => InFront values prompt (toU32 values.length) ∧
      BeginsClean (values ++ meanwhile) (toU32 values.length)
  | first :: rest => ∃ r ∈ first.records, InFront values prompt r ∧
      ((r < 2 ^ 32 ∧ Boundary values r ((first :: rest).map PromptMessage.message)) ∨
        (r = 2 ^ 32 - 1 ∧ BeginsClean (values ++ meanwhile) r ∧
          ∃ b, 2 ^ 32 ≤ b ∧ Boundary values b ((first :: rest).map PromptMessage.message)))

/-- A split of messages that stand for the active records in their order: `r` is the first record
of the first message of the continuation, the prompt stands for what is active before it, and not
for `r`. -/
structure InOrder (values : List Json) (prompt : List PromptMessage) (first : PromptMessage)
    (r : ℕ) : Prop where
  first : IsLeast {i | i ∈ first.records} r
  active : ∃ entry ∈ orderedValues values, entry.2 = r
  parted : ∀ m ∈ prompt, r ∉ m.records
  front : InFront values prompt r

end Chelix.Chat
