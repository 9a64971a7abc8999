import Chelix.Agents.Model.AbortedCalls
import Chelix.Common.ToolLifecycle
import Mathlib.Data.Finset.Basic

/-!
# Chat messages from canonical records

Records of a session, in their order, become the messages of the next request.  A checkpoint
replaces the prefix that it summarizes; the segments whose append-only records the history
holds, and that no assistant record carries, are replayed into assistant messages.

The parser of JSON text and the data directory belong to the environment of the program.
-/

namespace Chelix.Agents.Model

open Chelix.Library Chelix.Common

/-- What a conversion reads beside the records. -/
structure Environment where
  fromStr : String → Except String Json
  dataDir : String

inductive ChatMessageConversionError where
  | reasoning (messageIndex : ℕ) (source : DecodeError)
  | providerItemsCollection (messageIndex : ℕ)
  | providerItem (messageIndex itemIndex : ℕ) (source : DecodeError)
  | toolLifecycle (messageIndex : ℕ) (source : DecodeError)
  | providerUpdate (messageIndex : ℕ) (source : DecodeError)
  | providerSegmentClose (messageIndex : ℕ) (source : DecodeError)
  | providerSegmentReplay (messageIndex : ℕ) (source : MaterializerError)
  | unsupportedRole (messageIndex : ℕ) (role : String)
  deriving DecidableEq

namespace ChatMessageConversionError

/-- The `Display` text of an error, from the texts of decoding errors. -/
def display (serde : DecodeError → String) : ChatMessageConversionError → String
  | .reasoning i source =>
    "message at index " ++ toString i ++ " has invalid reasoning: " ++ serde source
  | .providerItemsCollection i =>
    "assistant message at index " ++ toString i ++ " has non-array providerItems"
  | .providerItem i item source =>
    "assistant message at index " ++ toString i ++ " has invalid provider item at index " ++
      toString item ++ ": " ++ serde source
  | .toolLifecycle i source =>
    "message at index " ++ toString i ++ " has invalid tool lifecycle: " ++ serde source
  | .providerUpdate i source =>
    "message at index " ++ toString i ++ " has invalid provider update: " ++ serde source
  | .providerSegmentClose i source =>
    "message at index " ++ toString i ++ " has invalid provider segment close: " ++ serde source
  | .providerSegmentReplay i source =>
    "message at index " ++ toString i ++ " cannot be replayed into its segment: " ++
      source.display
  | .unsupportedRole i role =>
    "message at index " ++ toString i ++ " has unsupported role '" ++ role ++ "'"

end ChatMessageConversionError

def role (value : Json) : Option String := (value.index "role").asStr

/-! ## Parts of records -/

/-- Visible reasoning that says nothing is dropped. -/
def decodeReasoning (value : Option Json) (messageIndex : ℕ) :
    Except ChatMessageConversionError (Option ReasoningContent) :=
  match value with
  | none | some .null => .ok none
  | some value =>
    match Decoder.run "ReasoningContent" decodeReasoningContent value with
    | .error source => .error (.reasoning messageIndex source)
    | .ok reasoning => .ok (if reasoning.isBlank then none else some reasoning)

/-- The items of an assistant record, from a given item on. -/
def decodeProviderItems (messageIndex : ℕ) :
    ℕ → List Json → Except ChatMessageConversionError (List ProviderOutputItem)
  | _, [] => .ok []
  | itemIndex, item :: rest =>
    match Decoder.run "ProviderOutputItem" decodeProviderOutputItem item with
    | .error source => .error (.providerItem messageIndex itemIndex source)
    | .ok item =>
      (decodeProviderItems messageIndex (itemIndex + 1) rest).map (item :: ·)

def providerItemsOf (value : Json) (messageIndex : ℕ) :
    Except ChatMessageConversionError (List ProviderOutputItem) :=
  match value.get "providerItems" with
  | none => .ok []
  | some (.arr items) => decodeProviderItems messageIndex 0 items
  | some _ => .error (.providerItemsCollection messageIndex)

def segmentIdOf (value : Json) : Option ProviderSegmentId :=
  (value.get "segmentId").bind decodeProviderSegmentId

/-- Joins a relative path to a base directory. -/
def joinPath (base rel : String) : String :=
  if base = "" then rel
  else if base.toList.getLast? = some '/' then base ++ rel
  else base ++ "/" ++ rel

section Records

variable (env : Environment)

def documentAbsolutePathFromMediaRef (mediaRef : String) : String :=
  if mediaRef.toList.head? = some '/' then mediaRef
  else joinPath (joinPath env.dataDir "sessions") mediaRef

/-- The call that an entry of `tool_calls` records; entries without a name are skipped. -/
def toolCallOf (call : Json) : Option ToolCall := do
  let id ← (call.index "id").asStr
  let function := call.index "function"
  let name ← (function.index "name").asStr
  let decoded := decodeToolCallArgumentsWithDiagnostic env.fromStr (function.get "arguments")
  some { id, name, arguments := decoded.arguments, argumentDiagnostic := decoded.diagnostic }

def toolCallsOf (value : Json) : List ToolCall :=
  ((value.index "tool_calls").asArray.getD []).filterMap (toolCallOf env)

/-- The description of one inbound document. -/
def documentSection (document : Json) : Option String := do
  let displayName ← (document.index "display_name").asStr
  let mimeType ← (document.index "mime_type").asStr
  let mediaRef ← (document.index "media_ref").asStr
  some ("filename: " ++ displayName ++ "\nmime_type: " ++ mimeType ++ "\nlocal_path: " ++
    documentAbsolutePathFromMediaRef env mediaRef ++ "\nmedia_ref: " ++ mediaRef)

def documentContext (value : Json) : Option String := do
  let documents ← (value.index "documents").asArray
  let sections := documents.filterMap (documentSection env)
  if sections = [] then none
  else some ("\n\n".intercalate ("[Inbound documents available]" :: sections))

end Records

/-- The media type and the data of a base64 data URI. -/
def parseDataUri (uri : String) : Option (String × String) := do
  let rest ← stripPrefix "data:".toList uri.toList
  let (mediaType, data) ← splitOnce ";base64,".toList rest
  if mediaType = [] ∨ data = [] then none
  else some (String.ofList mediaType, String.ofList data)

def contentPart (block : Json) : Option ContentPart := do
  match ← (block.index "type").asStr with
  | "text" => some (.text (← (block.index "text").asStr))
  | "image_url" =>
    let url ← ((block.index "image_url").index "url").asStr
    let (mediaType, data) ← parseDataUri url
    some (.image mediaType data)
  | _ => none

/-- Puts the description of the documents after the first text, or before everything. -/
def addDocumentContext (context : String) (parts : List ContentPart) : List ContentPart :=
  let isText (part : ContentPart) : Bool :=
    match part with
    | .text _ => true
    | .image _ _ => false
  let extend (part : ContentPart) : ContentPart :=
    match part with
    | .text text => .text ((if isBlank text then text else text ++ "\n\n") ++ context)
    | part => part
  if parts.any isText then modifyFirst isText extend parts else .text context :: parts

def senderName (value : Json) : Option String :=
  ((value.get "channel").bind fun channel =>
    (channel.index "sender_name").asStr.or (channel.index "username").asStr).or
      (value.index "name").asStr

def userMessage (env : Environment) (value : Json) : ChatMessage :=
  let context := documentContext env value
  let content :=
    match value.index "content" with
    | .str text =>
      match context with
      | some context => .text (if isBlank text then context else text ++ "\n\n" ++ context)
      | none => .text text
    | .arr blocks =>
      let parts := blocks.filterMap contentPart
      .multimodal (context.elim parts fun context => addDocumentContext context parts)
    | _ => .text (context.getD "")
  .user content (senderName value)

/-! ## Segments that are replayed -/

/-- Whether a materializer holds the segment of this identity. -/
def holdsSegment (segmentId : ProviderSegmentId) (m : ProviderSegmentMaterializer) : Bool :=
  m.segment.segmentId = some segmentId

/-- Calls a method of the segment's materializer, which is created on first sight. -/
def replaySegment (segments : List ProviderSegmentMaterializer) (segmentId : ProviderSegmentId)
    (c : ProviderSegmentMaterializer.Call) :
    Except MaterializerError (List ProviderSegmentMaterializer) :=
  match segments.find? (holdsSegment segmentId) with
  | some m =>
    match m.call c with
    | (.ok (), m') => .ok (modifyFirst (holdsSegment segmentId) (fun _ => m') segments)
    | (.error e, _) => .error e
  | none =>
    match (ProviderSegmentMaterializer.new segmentId).call c with
    | (.ok (), m') => .ok (segments ++ [m'])
    | (.error e, _) => .error e

section Replay

variable (env : Environment)

def replayedToolCalls (items : List ProviderOutputItem) : List ToolCall :=
  items.filterMap fun item =>
    match item.payload with
    | .functionCall callId name arguments =>
      let decoded := decodeToolCallArgumentsWithDiagnostic env.fromStr (some (.str arguments))
      some
        { id := callId, name, arguments := decoded.arguments,
          argumentDiagnostic := decoded.diagnostic }
    | _ => none

/-- The assistant message of a replayed segment; none for a segment that produced nothing or
already reached the conversation. -/
def replayedAssistantMessage (m : ProviderSegmentMaterializer)
    (replayed : Finset ProviderSegmentId) : Option ChatMessage :=
  if m.segment.items = [] then none
  else if m.segment.segmentId.any fun id => decide (id ∈ replayed) then none
  else
    some (.assistant m.segment.messageText (replayedToolCalls env m.segment.items)
      m.segment.reasoningContent m.segment.items m.segment.segmentId)

end Replay

/-! ## The reconstruction -/

structure ChatReconstruction where
  messages : List ChatMessage
  pendingToolCallIds : Finset String
  providerSegments : List ProviderSegmentMaterializer
  replayedSegmentIds : Finset ProviderSegmentId
  filterOrphanToolResults : Bool

/-- The persisted shape of a record that closes a segment. -/
structure PersistedSegmentClose where
  segmentId : ProviderSegmentId
  outcome : ProviderSegmentOutcome

def decodePersistedSegmentClose : Decoder PersistedSegmentClose := fun value => do
  match ← Decoder.fields ["segmentId", "outcome"] value with
  | [segmentId, outcome] =>
    some
      { segmentId := ← Decoder.required decodeProviderSegmentId segmentId
        outcome := ← Decoder.required decodeProviderSegmentOutcome outcome }
  | _ => none

namespace ChatReconstruction

def new (filterOrphanToolResults : Bool) (replayedSegmentIds : Finset ProviderSegmentId) :
    ChatReconstruction where
  messages := []
  pendingToolCallIds := ∅
  providerSegments := []
  replayedSegmentIds := replayedSegmentIds
  filterOrphanToolResults := filterOrphanToolResults

section Push

variable (env : Environment) (r : ChatReconstruction)

def emit (message : ChatMessage) : ChatReconstruction :=
  { r with messages := r.messages ++ [message] }

def pushAssistant (index : ℕ) (value : Json) :
    Except ChatMessageConversionError ChatReconstruction :=
  let content := (value.index "content").asStr
  match decodeReasoning (value.get "reasoning") index with
  | .error e => .error e
  | .ok reasoning =>
    match providerItemsOf value index with
    | .error e => .error e
    | .ok providerItems =>
      let toolCalls := toolCallsOf env value
      .ok (({ r with pendingToolCallIds :=
          r.pendingToolCallIds ∪ (toolCalls.map ToolCall.id).toFinset } : ChatReconstruction).emit
            (.assistant content toolCalls reasoning providerItems (segmentIdOf value)))

/-- A result takes its call off the pending ones; one without a pending call is dropped when
orphans are. -/
def emitResult (toolCallId content : String) : ChatReconstruction :=
  let matching := toolCallId ∈ r.pendingToolCallIds
  let r' := { r with pendingToolCallIds := r.pendingToolCallIds.erase toolCallId }
  if r.filterOrphanToolResults && !matching then r' else r'.emit (.tool toolCallId content)

def pushTool (value : Json) : ChatReconstruction :=
  let toolCallId := (value.index "tool_call_id").asStr.getD ""
  let content := (value.index "content").asStr.getD (value.index "content").toText
  r.emitResult toolCallId content

/-- The result text of a terminal lifecycle update. -/
def terminalContent : ToolLifecycleUpdate → Option String
  | .completed _ _ result error =>
    some (result.getD (error.elim "" fun error => "Error: " ++ error))
  | .rejected _ _ result => some result
  | .cancelled _ reason => some ("Tool call cancelled: " ++ reason)
  | _ => none

def pushToolLifecycle (index : ℕ) (value : Json) :
    Except ChatMessageConversionError ChatReconstruction :=
  match Decoder.run "ToolLifecycleEvent" decodeToolLifecycleEvent value with
  | .error source => .error (.toolLifecycle index source)
  | .ok lifecycle =>
    match terminalContent lifecycle.update with
    | some content => .ok (r.emitResult lifecycle.toolCallId content)
    | none => .ok r

def pushProviderUpdate (index : ℕ) (value : Json) :
    Except ChatMessageConversionError ChatReconstruction :=
  match Decoder.run "ProviderItemUpdate" decodeProviderItemUpdate value with
  | .error source => .error (.providerUpdate index source)
  | .ok update =>
    match replaySegment r.providerSegments update.segmentId (.applyUpdate update) with
    | .error source => .error (.providerSegmentReplay index source)
    | .ok providerSegments => .ok { r with providerSegments }

/-- Emits the message of a segment at the place where it is closed. -/
def flushReplayedSegment (segmentId : ProviderSegmentId) : ChatReconstruction :=
  match r.providerSegments.find? (holdsSegment segmentId) with
  | none => r
  | some m =>
    match replayedAssistantMessage env m r.replayedSegmentIds with
    | none => r
    | some message =>
      { r with
        messages := r.messages ++ [message]
        replayedSegmentIds := insert segmentId r.replayedSegmentIds }

def pushProviderClose (index : ℕ) (value : Json) :
    Except ChatMessageConversionError ChatReconstruction :=
  match Decoder.run "PersistedSegmentClose" decodePersistedSegmentClose value with
  | .error source => .error (.providerSegmentClose index source)
  | .ok close =>
    match replaySegment r.providerSegments close.segmentId (.close close.outcome) with
    | .error source => .error (.providerSegmentReplay index source)
    | .ok providerSegments =>
      .ok (flushReplayedSegment env { r with providerSegments } close.segmentId)

/-- Takes one record with its index in the history. -/
def push (index : ℕ) (value : Json) : Except ChatMessageConversionError ChatReconstruction :=
  match role value with
  | none => .ok r
  | some "system" => .ok (r.emit (.system ((value.index "content").asStr.getD "")))
  | some "user" => .ok (r.emit (userMessage env value))
  | some "assistant" => r.pushAssistant env index value
  | some "tool" => .ok (r.pushTool value)
  | some "tool_lifecycle" => r.pushToolLifecycle index value
  | some "notice" => .ok r
  | some "provider_update" => r.pushProviderUpdate index value
  | some "provider_segment_close" => r.pushProviderClose env index value
  | some "checkpoint" =>
    .ok (r.emit (.user (.text ("<conversation-summary>\n" ++
      (value.index "summary").asStr.getD "" ++ "\n</conversation-summary>")) none))
  | some other => .error (.unsupportedRole index other)

/-- Emits one segment that is left when the records end. -/
def appendReplayedSegment (m : ProviderSegmentMaterializer) : ChatReconstruction :=
  match replayedAssistantMessage env m r.replayedSegmentIds with
  | none => r
  | some message =>
    { r with
      messages := r.messages ++ [message]
      replayedSegmentIds :=
        m.segment.segmentId.elim r.replayedSegmentIds fun id => insert id r.replayedSegmentIds }

def appendReplayedProviderSegments : ChatReconstruction :=
  r.providerSegments.foldl (fun r m => r.appendReplayedSegment env m) r

def finish : List ChatMessage :=
  ensureToolCallResultsPresent (r.appendReplayedProviderSegments env).messages

end Push

/-- Takes records one after another, each with its index. -/
def pushAll (env : Environment) :
    ChatReconstruction → List (Json × ℕ) → Except ChatMessageConversionError ChatReconstruction
  | r, [] => .ok r
  | r, (value, index) :: rest =>
    match r.push env index value with
    | .error e => .error e
    | .ok r' => pushAll env r' rest

end ChatReconstruction

/-! ## Whole histories -/

/-- The identities of the segments that assistant records carry. -/
def assistantSegmentIds (values : List Json) : Finset ProviderSegmentId :=
  ((values.filter fun value => role value = some "assistant").filterMap segmentIdOf).toFinset

def isCheckpoint (value : Json) : Bool := role value = some "checkpoint"

def latestCheckpoint (values : List Json) : Option (Json × ℕ) :=
  (values.zipIdx.filter fun entry => isCheckpoint entry.1).getLast?

/-- Where the tail that a checkpoint keeps starts. -/
def tailStart (checkpoint : Json) (checkpointIndex : ℕ) : ℕ :=
  ((checkpoint.index "messagesSummarized").asNat.filter fun start =>
    start ≤ checkpointIndex).getD checkpointIndex

/-- The records that the latest checkpoint leaves, in the order in which they are taken. -/
def orderedValues (values : List Json) : List (Json × ℕ) :=
  match latestCheckpoint values with
  | none => values.zipIdx
  | some (checkpoint, checkpointIndex) =>
    (checkpoint, checkpointIndex) ::
      (((values.zipIdx.take checkpointIndex).drop (tailStart checkpoint checkpointIndex)).filter
          fun entry => !isCheckpoint entry.1) ++
        values.zipIdx.drop (checkpointIndex + 1)

def valuesToChatMessagesInner (env : Environment) (values : List Json)
    (filterOrphanToolResults : Bool) :
    Except ChatMessageConversionError (List ChatMessage) :=
  ((ChatReconstruction.new filterOrphanToolResults (assistantSegmentIds values)).pushAll env
    (orderedValues values)).map (ChatReconstruction.finish env)

/-- The conversation of the records of a session. -/
def valuesToChatMessages (env : Environment) (values : List Json) :
    Except ChatMessageConversionError (List ChatMessage) :=
  valuesToChatMessagesInner env values true

end Chelix.Agents.Model
