import Chelix.Agents.Model.Chat

/-!
# Synthetic results for tool calls that never produced one

A provider refuses an assistant message whose tool call has no result, so the conversation is
repaired before it is sent: a missing result is recorded as aborted.
-/

namespace Chelix.Agents.Model

open Chelix.Common

/-- The result text of a tool call that was never completed. -/
def abortedToolResult : String := "aborted"

/-- The call that an output item carries. -/
def functionCallId (item : ProviderOutputItem) : Option String :=
  match item.payload with
  | .functionCall callId _ _ => some callId
  | _ => none

namespace ChatMessage

/-- The identities of the calls that a message issues. -/
def callIds : ChatMessage → List String
  | .assistant _ toolCalls _ providerItems _ =>
    toolCalls.map ToolCall.id ++ providerItems.filterMap functionCallId
  | _ => []

/-- The identity of the call that a message answers. -/
def answers : ChatMessage → Option String
  | .tool toolCallId _ => some toolCallId
  | _ => none

end ChatMessage

/-- The missing results of the calls of one message, added to those found before. -/
def collectMissing (answered : List String) (index : ℕ) (callIds : List String)
    (missing : List (ℕ × String)) : List (ℕ × String) :=
  callIds.foldl (fun missing callId =>
    if callId ∈ answered then missing
    else if missing.any fun entry => entry.2 = callId then missing
    else missing ++ [(index, callId)]) missing

/-- The missing results, each with the index of the message that issues its call. -/
def missingResults (answered : List String) (messages : List ChatMessage) : List (ℕ × String) :=
  messages.zipIdx.foldl (fun missing entry =>
    collectMissing answered entry.2 entry.1.callIds missing) []

/-- Inserts an aborted result after every tool call that has none. -/
def ensureToolCallResultsPresent (messages : List ChatMessage) : List ChatMessage :=
  let answered := messages.filterMap ChatMessage.answers
  -- from the back, so that the recorded indices stay valid
  (missingResults answered messages).reverse.foldl (fun messages entry =>
    messages.insertIdx (entry.1 + 1) (.tool entry.2 abortedToolResult)) messages

end Chelix.Agents.Model
