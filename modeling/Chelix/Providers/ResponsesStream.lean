import Chelix.Providers.ChatStream
import Mathlib.Data.Finset.Basic

/-!
# The adapter of the Responses API

One event of the provider becomes stream events.  The provider names its items, so an update
goes to the item that the event names; calls are addressed by a slot, which the event that
opens a call takes or is given in the order of arrival.
-/

namespace Chelix.Providers

open Chelix.Agents.Model Chelix.Common Chelix.Library

structure FunctionCall where
  id : String
  name : String
  deriving DecidableEq

/-- What the adapter tracks beside its segment. -/
structure ResponsesStreamState where
  toolCalls : OrderedMap ℕ FunctionCall
  /-- The slots that have emitted their completion. -/
  completedToolCalls : Finset ℕ
  /-- The next slot to assign. -/
  currentToolIndex : ℕ
  /-- The summary parts that arrived from streaming events, by item and index. -/
  streamedReasoningSummaryParts : Finset (String × ℕ)

def ResponsesStreamState.default : ResponsesStreamState where
  toolCalls := ∅
  completedToolCalls := ∅
  currentToolIndex := 0
  streamedReasoningSummaryParts := ∅

abbrev Responses := Adapter ResponsesStreamState

/-- The slot that an event references.  The first field that is present decides. -/
def responsesToolSlot (event : Json) : Option ℕ :=
  ((event.get "output_index").or ((event.get "item_index").or (event.get "index"))).bind
    Json.asNat

def nonEmptyStr (value : Json) : Option String := value.asStr.filter (· ≠ "")

inductive ResponsesEventResult where
  | events
  /-- The stream completed; it is finalized. -/
  | completed
  /-- The stream failed or was incomplete; it is not finalized. -/
  | failed
  deriving DecidableEq

namespace Responses

def new (segmentId : ProviderSegmentId) : Responses where
  segment := .new segmentId
  own := .default
  events := []

def protocolError (s : Responses) (detail : String) : ResponsesEventResult × Responses :=
  (.failed, s.fail detail)

/-! ## Function calls -/

/-- The slot that a call takes: its own, or the next in the order of arrival. -/
def slotFor (s : Responses) (slot : Option ℕ) : ℕ := slot.getD s.own.currentToolIndex

/-- Opens a slot and announces the call. -/
def openFunctionCallSlot (s : Responses) (id name : String) (slot : Option ℕ) : Responses :=
  let index := s.slotFor slot
  let s := s.setOwn { s.own with
    currentToolIndex := max s.own.currentToolIndex ((index + 1) % 2 ^ 64)
    toolCalls := s.own.toolCalls.insert index ⟨id, name⟩ }
  (s.emitItem id (.functionCallStart name)).push (.toolCallStart id name index)

/-- The completion of a slot is emitted once. -/
def completeSlot (s : Responses) (index : ℕ) : Responses :=
  if index ∈ s.own.completedToolCalls then s
  else
    (s.setOwn { s.own with completedToolCalls := insert index s.own.completedToolCalls }).push
      (.toolCallComplete index)

/-- Announces the final argument text of a call; a later one replaces it. -/
def announceFunctionCallArguments (s : Responses) (index : ℕ) (callId arguments : String) :
    Responses :=
  completeSlot (s.emitItem callId (.functionCallDone arguments)) index

/-- The first slot that holds the call; the source's map has no order. -/
def slotOf (s : Responses) (callId : String) : Option ℕ :=
  (OrderedMap.first? s.own.toolCalls fun call => decide (call.id = callId)).map Prod.fst

/-- What a completed item of a call must have: its identity, its name and its arguments. -/
def functionCallFields (item : Json) : Except String (String × String × String) :=
  match nonEmptyStr (item.index "call_id") with
  | none => .error "completed function_call item has no call_id"
  | some callId =>
    match nonEmptyStr (item.index "name") with
    | none => .error ("completed function_call `" ++ callId ++ "` has no name")
    | some name =>
      match (item.index "arguments").asStr with
      | none =>
        .error ("function_call `" ++ callId ++ "` finished without an arguments field")
      | some arguments => .ok (callId, name, arguments)

/-- The slot of a call that is open, or the one that is opened for it. -/
def ensureSlot (s : Responses) (callId name : String) : ℕ × Responses :=
  match s.slotOf callId with
  | some index => (index, s)
  | none => (s.slotFor none, s.openFunctionCallSlot callId name none)

/-- A completed item; a call that was never opened is opened here. -/
def finishFunctionCallItem (s : Responses) (item : Json) : Except String Responses :=
  (functionCallFields item).map fun (callId, name, arguments) =>
    announceFunctionCallArguments (s.ensureSlot callId name).2 (s.ensureSlot callId name).1 callId
      arguments

/-! ## Reasoning -/

/-- One part of the summary that a final reasoning item repeats. -/
def reasoningSummaryPart (itemId : ProviderItemId) (s : Responses) (part : Json × ℕ) :
    Responses :=
  match nonEmptyStr (part.1.index "text") with
  | none => s
  | some text =>
    if (itemId, part.2) ∈ s.own.streamedReasoningSummaryParts then s
    else
      (s.setOwn { s.own with
        streamedReasoningSummaryParts :=
          insert (itemId, part.2) s.own.streamedReasoningSummaryParts }).emitItem itemId
        (.reasoningPartDone part.2 text)

/-- The parts that the stream did not deliver. -/
def reasoningSummaryEvents (s : Responses) (item : Json) (itemId : ProviderItemId) : Responses :=
  (((item.index "summary").asArray).getD []).zipIdx.foldl (reasoningSummaryPart itemId) s

/-- A part of a summary that arrives from the stream. -/
def streamSummaryPart (s : Responses) (itemId : ProviderItemId) (summaryIndex : ℕ)
    (payload : ProviderItemUpdatePayload) : Responses :=
  (s.setOwn { s.own with
    streamedReasoningSummaryParts :=
      insert (itemId, summaryIndex) s.own.streamedReasoningSummaryParts }).emitItem itemId payload

/-! ## The events of the provider -/

def outputTextDelta (evt : Json) (s : Responses) : ResponsesEventResult × Responses :=
  match nonEmptyStr (evt.index "delta") with
  | none => (.events, s)
  | some delta =>
    match nonEmptyStr (evt.index "item_id") with
    | none => s.protocolError "response.output_text.delta has no item_id"
    | some itemId => (.events, (s.emitItem itemId (.messageDelta delta)).push (.delta delta))

def reasoningSummaryTextDelta (evt : Json) (s : Responses) : ResponsesEventResult × Responses :=
  match nonEmptyStr (evt.index "item_id"), (evt.index "summary_index").asNat,
      nonEmptyStr (evt.index "delta") with
  | some itemId, some summaryIndex, some delta =>
    (.events, s.streamSummaryPart itemId summaryIndex (.reasoningDelta summaryIndex delta))
  | _, _, _ => (.events, s)

def reasoningSummaryPartDone (evt : Json) (s : Responses) : ResponsesEventResult × Responses :=
  match nonEmptyStr (evt.index "item_id"), (evt.index "summary_index").asNat,
      ((evt.index "part").index "text").asStr with
  | some itemId, some summaryIndex, some text =>
    (.events, s.streamSummaryPart itemId summaryIndex (.reasoningPartDone summaryIndex text))
  | _, _, _ => (.events, s)

def outputItemAdded (evt : Json) (s : Responses) : ResponsesEventResult × Responses :=
  let item := evt.index "item"
  if (item.index "type").asStr = some "function_call" then
    match nonEmptyStr (item.index "call_id") with
    | none => s.protocolError "response.output_item.added function_call has no call_id"
    | some id =>
      match nonEmptyStr (item.index "name") with
      | none => s.protocolError ("function_call `" ++ id ++ "` has no name")
      | some name => (.events, s.openFunctionCallSlot id name (responsesToolSlot evt))
  else (.events, s)

def outputItemDone (evt : Json) (s : Responses) : ResponsesEventResult × Responses :=
  let item := evt.index "item"
  match (item.index "type").asStr with
  | some "reasoning" =>
    match nonEmptyStr (item.index "id") with
    | none => s.protocolError "response.output_item.done reasoning item has no id"
    | some itemId =>
      (.events, (s.reasoningSummaryEvents item itemId).emitItem itemId
        (.reasoningItemDone (item.index "encrypted_content").asStr))
  | some "function_call" =>
    match s.finishFunctionCallItem item with
    | .error detail => s.protocolError detail
    | .ok s => (.events, s)
  | _ => (.events, s)

def functionCallArgumentsDelta (evt : Json) (s : Responses) : ResponsesEventResult × Responses :=
  match nonEmptyStr (evt.index "delta") with
  | none => (.events, s)
  | some delta =>
    match responsesToolSlot evt with
    | none => s.protocolError "response.function_call_arguments.delta has no output_index"
    | some index =>
      match s.own.toolCalls[index]? with
      | none =>
        s.protocolError
          ("response.function_call_arguments.delta references unopened tool call slot " ++
            toString index)
      | some call =>
        (.events, (s.emitItem call.id (.functionCallDelta delta)).push
          (.toolCallArgumentsDelta index delta))

def functionCallArgumentsDone (evt : Json) (s : Responses) : ResponsesEventResult × Responses :=
  match responsesToolSlot evt with
  | none => s.protocolError "response.function_call_arguments.done has no output_index"
  | some index =>
    match s.own.toolCalls[index]? with
    | none =>
      s.protocolError
        ("response.function_call_arguments.done references unopened tool call slot " ++
          toString index)
    | some call =>
      match (evt.index "arguments").asStr with
      | none =>
        s.protocolError ("function_call `" ++ call.id ++
          "` completed without an arguments field")
      | some arguments => (.events, s.announceFunctionCallArguments index call.id arguments)

/-- The calls of the final response, one after another. -/
def finishFunctionCalls : List Json → Responses → Except String Unit × Responses
  | [], s => (.ok (), s)
  | item :: rest, s =>
    match s.finishFunctionCallItem item with
    | .error detail => (.error detail, s)
    | .ok s => finishFunctionCalls rest s

/-- The calls among the output of the final response. -/
def outputCalls (evt : Json) : List Json :=
  ((((evt.index "response").index "output").asArray).getD []).filter fun item =>
    (item.index "type").asStr = some "function_call"

def responseCompleted (evt : Json) (s : Responses) : ResponsesEventResult × Responses :=
  match finishFunctionCalls (outputCalls evt) s with
  | (.error detail, s) => s.protocolError detail
  | (.ok (), s) =>
    let usage :=
      ((evt.get "response").bind (·.get "usage")).map parseOpenaiCompatUsage
    (.completed, (s.setUsage usage).closeSegment .completed usage)

def responseFailed (evt : Json) (s : Responses) : ResponsesEventResult × Responses :=
  (.failed, (s.closeSegment .failed none).push (.error (providerErrorText evt)))

def incompleteText (evt : Json) : String :=
  let response := evt.index "response"
  ((((response.index "incomplete_details").index "reason").asStr.map
    ("response incomplete: " ++ ·)).or
      ((((response.index "error").index "message").asStr).or (evt.index "message").asStr)).getD
    "response incomplete"

def responseIncomplete (evt : Json) (s : Responses) : ResponsesEventResult × Responses :=
  (.failed, (s.closeSegment .incomplete none).push (.error (incompleteText evt)))

/-- The identity that the first event announces. -/
def announcedId (evt : Json) : Option String :=
  (((evt.get "response").bind (·.get "id")).or (evt.get "id")).bind Json.asStr

def processResponsesEvent (evt : Json) (s : Responses) : ResponsesEventResult × Responses :=
  let s := (s.startSegment (announcedId evt)).push (.providerRaw evt)
  match (evt.index "type").asStr.getD "" with
  | "response.output_text.delta" => outputTextDelta evt s
  | "response.reasoning_summary_text.delta" => reasoningSummaryTextDelta evt s
  | "response.reasoning_summary_part.done" => reasoningSummaryPartDone evt s
  | "response.output_item.added" => outputItemAdded evt s
  | "response.output_item.done" => outputItemDone evt s
  | "response.function_call_arguments.delta" => functionCallArgumentsDelta evt s
  | "response.function_call_arguments.done" => functionCallArgumentsDone evt s
  | "response.completed" => responseCompleted evt s
  | "error" => responseFailed evt s
  | "response.failed" => responseFailed evt s
  | "response.incomplete" => responseIncomplete evt s
  | _ => (.events, s)

def processResponsesSseLine (parse : String → Except String Json) (data : String)
    (s : Responses) : ResponsesEventResult × Responses :=
  if data = "[DONE]" then (.completed, s)
  else
    match parse data with
    | .ok evt => processResponsesEvent evt s
    | .error error =>
      s.protocolError ("provider sent a non-JSON Responses SSE line: " ++ error)

/-! ## The end of the stream -/

/-- The slots that are still pending are completed in their order. -/
def completePending (s : Responses) : Responses :=
  (s.own.toolCalls.toList.map Prod.fst).foldl completeSlot s

/-- A stream that ends without a terminal event was cut off. -/
def closeAtEnd (s : Responses) : Responses :=
  if s.isOpen then
    (s.closeSegment .transportError (some s.segment.usage)).push
      (.error "provider stream closed before response.completed")
  else s

def finalizeResponsesStream (s : Responses) : Responses :=
  let s := s.completePending.closeAtEnd
  s.push (.done s.segment.usage)

end Responses

/-- The data lines of a response one after another, until one completes it or fails. -/
def responsesStream (parse : String → Except String Json) (ending : StreamEnd) :
    List String → Responses → Responses
  | [], s =>
    match ending with
    | .eof => s.finalizeResponsesStream
    | .failed error => s.closeOnTransportError.push (.error error)
  | data :: rest, s =>
    match s.processResponsesSseLine parse data with
    | (.completed, s) => s.finalizeResponsesStream
    | (.failed, s) => s
    | (.events, s) => responsesStream parse ending rest s

end Chelix.Providers
