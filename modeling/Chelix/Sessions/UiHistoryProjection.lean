import Chelix.Sessions.UiHistoryTypes

/-!
# Semantic projection

How one copied provider event, or the journal record of one, changes the snapshot of the message
that it belongs to.  The parser of UUID texts is a parameter: it returns the canonical text.
-/

namespace Chelix.Sessions

open Chelix.Library Chelix.Common

/-- Where a record comes from: the stream of a running provider, or the canonical journal. -/
inductive UiIngress where
  | live
  | journal
  deriving DecidableEq

section Identity

variable (parseUuid : String → Except String String)

def validateClientMessageId (id : String) : Except Error Unit :=
  match parseUuid id with
  | .error e => .error (.message ("invalid clientMessageId: " ++ e))
  | .ok uuid =>
    if uuid ≠ id then .error (.message "clientMessageId must be a canonical UUID")
    else .ok ()

/-- The message that a record belongs to, if the record determines it. -/
def identity (record : UiRecord) : Except Error (Option UiMessageId) :=
  match record.message with
  | .providerUpdate update _ _ _ => .ok (some (.segment update.segmentId))
  | .providerSegmentClose segmentId _ _ _ _ => .ok (some (.segment segmentId))
  | .assistant message => .ok (message.segmentId.map .segment)
  | .toolLifecycle lifecycle =>
    match lifecycle.runId with
    | some runId => .ok (some (.tool runId lifecycle.toolCallId))
    | none => .error (.message "UI tool lifecycle requires a run ID")
  | .user _ =>
    match record.clientMessageId with
    | some id => (validateClientMessageId parseUuid id).map fun _ => some ("user:" ++ id)
    | none => .ok none
  | _ => .ok none

end Identity

def emptyAssistant (segmentId : ProviderSegmentId) (run : Option UiRunMetadata) :
    AssistantMessage where
  content := ""
  createdAt := none
  model := run.map UiRunMetadata.model
  provider := run.map UiRunMetadata.provider
  reasoningEffort := run.bind UiRunMetadata.reasoningEffort
  inputTokens := none
  outputTokens := none
  cacheReadTokens := none
  cacheWriteTokens := none
  durationMs := none
  requestInputTokens := none
  requestOutputTokens := none
  requestCacheReadTokens := none
  requestCacheWriteTokens := none
  toolCalls := none
  reasoning := none
  providerItems := none
  segmentId := some segmentId
  llmApiResponse := none
  audio := none
  seq := none
  runId := run.map UiRunMetadata.runId

def initialEntry (id : UiMessageId) (position : ℕ) (record : UiRecord) : UiEntry where
  snapshot :=
    { id
      position
      revision := 0
      canonicalCommitted := false
      content := .record record
      presentation := .default
      accumulatedArguments := none
      assistantId := none
      outcome := none }
  canonical := none
  contentVersion := 0
  materializer := none

namespace UiEntry

/-- Replaces the content of the snapshot. -/
def setContent (entry : UiEntry) (content : UiContent) : UiEntry :=
  { entry with snapshot := { entry.snapshot with content } }

def setOutcome (entry : UiEntry) (outcome : ProviderSegmentOutcome) : UiEntry :=
  { entry with snapshot := { entry.snapshot with outcome := some outcome } }

/-- The assistant record that a snapshot displays. -/
def assistant (entry : UiEntry) : Option (UiRecord × AssistantMessage) :=
  match entry.snapshot.content with
  | .record record =>
    match record.message with
    | .assistant message => some (record, message)
    | _ => none
  | .error _ => none

/-- The lifecycle event that a snapshot displays. -/
def lifecycle (entry : UiEntry) : Option ToolLifecycleEvent :=
  match entry.snapshot.content with
  | .record record =>
    match record.message with
    | .toolLifecycle lifecycle => some lifecycle
    | _ => none
  | .error _ => none

end UiEntry

/-- The tool calls of the items of a segment. -/
def segmentToolCalls (items : List ProviderOutputItem) : List PersistedToolCall :=
  items.filterMap fun item =>
    match item.payload with
    | .functionCall callId name arguments =>
      some { id := callId, callType := "function", name, arguments }
    | _ => none

/-- The assistant message that shows what a segment holds after an update. -/
def showSegment (assistant : AssistantMessage) (segment : ProviderSegment)
    (createdAt seq : Option ℕ) (runId : Option String) (run : Option UiRunMetadata) :
    AssistantMessage :=
  let calls := segmentToolCalls segment.items
  { assistant with
    content := segment.messageText.getD ""
    createdAt := assistant.createdAt.or createdAt
    seq := seq
    runId := runId.or (run.map UiRunMetadata.runId)
    reasoning := segment.reasoningContent
    providerItems := some segment.items
    toolCalls := if calls = [] then none else some calls }

/-! ## Projecting a record

Each case returns the changed entry, or none for the journal receipt of an event that was
already copied live. -/

def projectUpdate (entry : UiEntry) (update : ProviderItemUpdate) (createdAt seq : Option ℕ)
    (runId : Option String) (ingress : UiIngress) (run : Option UiRunMetadata) :
    Except Error (Option UiEntry) :=
  let materializer := entry.materializer.getD (.new update.segmentId)
  if ingress = .journal ∧
      (materializer.lastUpdateSeq[update.itemId]?).any fun sequence =>
        sequence ≥ update.updateSeq then
    .ok none
  else
    match materializer.applyUpdate update with
    | (.error e, _) => .error (.message e.display)
    | (.ok (), materializer) =>
      let assistant := entry.assistant.getD
        (.ofMessage (.assistant (emptyAssistant update.segmentId run)),
          emptyAssistant update.segmentId run)
      let shown := showSegment assistant.2 materializer.segment createdAt seq runId run
      let entry := { entry with materializer := some materializer }
      .ok (some ((entry.setContent
        (.record { assistant.1 with message := .assistant shown })).setOutcome
          materializer.segment.outcome))

def projectClose (entry : UiEntry) (segmentId : ProviderSegmentId)
    (outcome : ProviderSegmentOutcome) (ingress : UiIngress) (run : Option UiRunMetadata) :
    Except Error (Option UiEntry) :=
  let materializer := entry.materializer.getD (.new segmentId)
  if ingress = .journal ∧ materializer.segment.outcome = outcome then .ok none
  else
    match materializer.close outcome with
    | (.error e, _) => .error (.message e.display)
    | (.ok (), materializer) =>
      let entry := { entry with materializer := some materializer }
      let entry :=
        if entry.assistant.isSome then entry
        else entry.setContent
          (.record (.ofMessage (.assistant (emptyAssistant segmentId run))))
      .ok (some (entry.setOutcome outcome))

def projectLifecycle (entry : UiEntry) (record : UiRecord) (lifecycle : ToolLifecycleEvent)
    (ingress : UiIngress) : Except Error (Option UiEntry) :=
  if entry.lifecycle.any fun previous =>
      entry.snapshot.revision > 0 && lifecycle.sequence ≤ previous.sequence then
    match ingress with
    | .journal => .ok none
    | .live => .error (.message "non-monotonic UI tool lifecycle sequence")
  else
    let entry :=
      match lifecycle.update with
      | .inputStreaming argumentsDelta =>
        { entry with
          snapshot :=
            { entry.snapshot with
              accumulatedArguments :=
                some (entry.snapshot.accumulatedArguments.getD "" ++ argumentsDelta) } }
      | _ => entry
    .ok (some (entry.setContent (.record record)))

def projectAssistant (entry : UiEntry) (record : UiRecord) (message : AssistantMessage) :
    Except Error (Option UiEntry) :=
  if entry.materializer.any fun materializer =>
      materializer.segment.segmentId ≠ message.segmentId ∨
        (message.providerItems.any fun items => items ≠ materializer.segment.items) then
    .error (.message "assistant snapshot differs from copied canonical provider items")
  else .ok (some (entry.setContent (.record record)))

/-- A record without the raw response of its provider. -/
def UiRecord.withoutLlmApiResponse (record : UiRecord) : UiRecord :=
  match record.message with
  | .assistant message =>
    { record with message := .assistant { message with llmApiResponse := none } }
  | _ => record

/-- Projects a record onto the entry of its message. -/
def project (entry : UiEntry) (record : UiRecord) (ingress : UiIngress)
    (run : Option UiRunMetadata) : Except Error (Option UiEntry) :=
  let record := record.withoutLlmApiResponse
  match record.message with
  | .providerUpdate update createdAt seq runId =>
    projectUpdate entry update createdAt seq runId ingress run
  | .providerSegmentClose segmentId outcome _ _ _ =>
    projectClose entry segmentId outcome ingress run
  | .toolLifecycle lifecycle => projectLifecycle entry record lifecycle ingress
  | .assistant message => projectAssistant entry record message
  | .tool _ _ _ => .error (.message "tool results require a UI lifecycle identity")
  | .system _ _ => .ok (some (entry.setContent (.record record)))
  | .notice _ _ => .ok (some (entry.setContent (.record record)))
  | .checkpoint _ => .ok (some (entry.setContent (.record record)))
  | .user _ => .ok (some (entry.setContent (.record record)))

/-- Whether a message is still being produced. -/
def active (entry : UiEntry) : Bool :=
  entry.snapshot.outcome = some .active ||
    entry.lifecycle.any fun lifecycle => !lifecycle.update.stage.isTerminal

end Chelix.Sessions
