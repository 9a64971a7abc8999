import Chelix.Library.OrderedMap
import Chelix.Sessions.Message

/-!
# Semantic history: identities and snapshots

What the user interface shows of a session is a map from message identities to snapshots.  An
entry is a snapshot with what ties it to the canonical journal: its binding, the version of its
content, and the materializer of its provider segment.
-/

namespace Chelix.Sessions

open Chelix.Library Chelix.Common

abbrev UiMessageId := String
abbrev UiGeneration := String

namespace UiMessageId

def segment (segmentId : ProviderSegmentId) : UiMessageId := "segment:" ++ segmentId

def tool (runId callId : String) : UiMessageId :=
  "tool:" ++ toString runId.utf8ByteSize ++ ":" ++ runId ++ ":" ++ callId

end UiMessageId

structure UiHistoryTarget where
  messageId : UiMessageId
  generation : UiGeneration

inductive UiPresentationDocument where
  | text (content : String)
  | markdown (content : String)
  | diff (content : String)
  deriving DecidableEq

structure UiPresentation where
  document : Option UiPresentationDocument
  metadata : OrderedMap String Json

def UiPresentation.default : UiPresentation where
  document := none
  metadata := ∅

/-- A message with what only the user interface adds to it. -/
structure UiRecord where
  message : PersistedMessage
  clientMessageId : Option String
  ttsProvider : Option String
  deriving DecidableEq

def UiRecord.ofMessage (message : PersistedMessage) : UiRecord where
  message := message
  clientMessageId := none
  ttsProvider := none

structure UiProviderError where
  runId : String
  segmentId : Option ProviderSegmentId
  createdAt : ℕ
  raw : String
  details : Json
  retryAfterMs : Option ℕ
  deriving DecidableEq

inductive UiContent where
  | record (record : UiRecord)
  | error (error : UiProviderError)
  deriving DecidableEq

def UiContent.runId : UiContent → Option String
  | .record r => r.message.runId
  | .error e => some e.runId

structure UiSnapshot where
  id : UiMessageId
  position : ℕ
  revision : ℕ
  canonicalCommitted : Bool
  content : UiContent
  presentation : UiPresentation
  accumulatedArguments : Option String
  assistantId : Option UiMessageId
  outcome : Option ProviderSegmentOutcome

/-- The journal records of a snapshot: those of the range from `start` up to `stop`, and the one
that it displays. -/
structure UiCanonicalBinding where
  start : ℕ
  stop : ℕ
  recordIndex : Option ℕ
  deriving DecidableEq

structure UiEntry where
  snapshot : UiSnapshot
  canonical : Option UiCanonicalBinding
  contentVersion : ℕ
  materializer : Option ProviderSegmentMaterializer

structure UiRunMetadata where
  runId : String
  model : String
  provider : String
  reasoningEffort : Option String
  deriving DecidableEq

structure UiSessionRow where
  generation : UiGeneration
  revision : ℕ
  nextPosition : ℕ
  totalMessages : ℕ
  failure : Option String

structure UiHistoryBatch where
  generation : UiGeneration
  fromRevision : ℕ
  revision : ℕ
  totalMessages : ℕ
  history : List UiSnapshot

end Chelix.Sessions
