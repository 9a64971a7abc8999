import Chelix.Common.ProviderRecords
import Chelix.Common.ToolLifecycle

/-!
# Typed messages of a session

The messages stored in the records of a session journal, and how they are read from JSON.  The
role of a record determines its variant.
-/

namespace Chelix.Sessions

open Chelix.Library Chelix.Common

/-- The errors of the session store. -/
inductive Error where
  | json (source : DecodeError)
  | sqlx (text : String)
  | historyWithoutJournal (sessionKey : String)
  | noCanonicalJournal (sessionKey : String)
  | message (text : String)
  deriving DecidableEq

/-- The `Display` text of an error, from the texts of decoding errors. -/
def Error.display (serde : DecodeError → String) : Error → String
  | .json source => serde source
  | .sqlx text => text
  | .historyWithoutJournal sessionKey =>
    "session '" ++ sessionKey ++ "' has history without a canonical journal"
  | .noCanonicalJournal sessionKey =>
    "session '" ++ sessionKey ++ "' has no canonical journal"
  | .message text => text

/-! ## Messages -/

structure CheckpointMessage where
  summary : String
  createdAt : Option ℕ
  model : Option String
  provider : Option String
  inputTokens : Option ℕ
  outputTokens : Option ℕ
  messagesSummarized : Option ℕ
  deriving DecidableEq

/-- A single block in multimodal content. -/
inductive ContentBlock where
  | text (text : String)
  | imageUrl (url : String)
  deriving DecidableEq

/-- User message content: plain text or multimodal array. -/
inductive MessageContent where
  | text (text : String)
  | multimodal (blocks : List ContentBlock)
  deriving DecidableEq

/-- Saved inbound user document metadata. -/
structure UserDocument where
  displayName : String
  storedFilename : String
  mimeType : String
  sizeBytes : Option ℕ
  mediaRef : String
  absolutePath : Option String
  deriving DecidableEq

structure UserMessage where
  content : MessageContent
  createdAt : Option ℕ
  audio : Option String
  documents : Option (List UserDocument)
  channel : Option Json
  seq : Option ℕ
  runId : Option String
  deriving DecidableEq

/-- A tool call stored in an assistant message, with its function. -/
structure PersistedToolCall where
  id : String
  callType : String
  name : String
  arguments : String
  deriving DecidableEq

structure AssistantMessage where
  content : String
  createdAt : Option ℕ
  model : Option String
  provider : Option String
  reasoningEffort : Option String
  inputTokens : Option ℕ
  outputTokens : Option ℕ
  cacheReadTokens : Option ℕ
  cacheWriteTokens : Option ℕ
  durationMs : Option ℕ
  requestInputTokens : Option ℕ
  requestOutputTokens : Option ℕ
  requestCacheReadTokens : Option ℕ
  requestCacheWriteTokens : Option ℕ
  toolCalls : Option (List PersistedToolCall)
  reasoning : Option ReasoningContent
  providerItems : Option (List ProviderOutputItem)
  segmentId : Option ProviderSegmentId
  llmApiResponse : Option Json
  audio : Option String
  seq : Option ℕ
  runId : Option String
  deriving DecidableEq

/-- A message stored in one row of `session_records`. -/
inductive PersistedMessage where
  | system (content : String) (createdAt : Option ℕ)
  | notice (content : String) (createdAt : Option ℕ)
  | checkpoint (message : CheckpointMessage)
  | user (message : UserMessage)
  | assistant (message : AssistantMessage)
  | tool (toolCallId content : String) (createdAt : Option ℕ)
  | toolLifecycle (lifecycle : ToolLifecycleEvent)
  | providerUpdate (update : ProviderItemUpdate) (createdAt seq : Option ℕ)
      (runId : Option String)
  | providerSegmentClose (segmentId : ProviderSegmentId) (outcome : ProviderSegmentOutcome)
      (createdAt seq : Option ℕ) (runId : Option String)
  deriving DecidableEq

/-- The variants of a message, without what they hold. -/
inductive MessageRole where
  | system
  | notice
  | checkpoint
  | user
  | assistant
  | tool
  | toolLifecycle
  | providerUpdate
  | providerSegmentClose
  deriving DecidableEq

namespace PersistedMessage

/-- The variant of a message, which is what its discriminant compares. -/
def role : PersistedMessage → MessageRole
  | .system _ _ => .system
  | .notice _ _ => .notice
  | .checkpoint _ => .checkpoint
  | .user _ => .user
  | .assistant _ => .assistant
  | .tool _ _ _ => .tool
  | .toolLifecycle _ => .toolLifecycle
  | .providerUpdate _ _ _ _ => .providerUpdate
  | .providerSegmentClose _ _ _ _ _ => .providerSegmentClose

def runId : PersistedMessage → Option String
  | .user message => message.runId
  | .assistant message => message.runId
  | .providerUpdate _ _ _ runId => runId
  | .providerSegmentClose _ _ _ _ runId => runId
  | .toolLifecycle lifecycle => lifecycle.runId
  | _ => none

end PersistedMessage

end Chelix.Sessions
