import Chelix.Library.Loop
import Chelix.Library.OrderedMap
import Chelix.Library.Search
import Chelix.Library.Text
import Chelix.Providers.Adapter
import Chelix.Providers.Usage
import Mathlib.Data.List.MinMax

/-!
# The adapter of Chat Completions

One data line of a streamed response becomes stream events.  The visible text may hold
reasoning between tags, which can be cut anywhere; the text that could still become a tag is
held back in `tagBuffer`.
-/

namespace Chelix.Providers

open Chelix.Agents.Model Chelix.Common Chelix.Library

/-- Identity of the reasoning item synthesized for Chat Completions streams. -/
def chatReasoningItemId : ProviderItemId := "rs_0"

/-- Identity of the visible message item synthesized for Chat Completions streams. -/
def chatMessageItemId : ProviderItemId := "msg_0"

/-! ## Reasoning tags -/

inductive ReasoningTag where
  | think
  | thought
  deriving DecidableEq

namespace ReasoningTag

def all : List ReasoningTag := [.think, .thought]

/-- The tag that opens a reasoning block. -/
def opening : ReasoningTag → List Char
  | .think => "<think>".toList
  | .thought => "<thought>".toList

def closing : ReasoningTag → List Char
  | .think => "</think>".toList
  | .thought => "</thought>".toList

end ReasoningTag

/-- The first of the earliest opening tags. -/
def findNextOpenTag (text : List Char) : Option (ℕ × ReasoningTag) :=
  (ReasoningTag.all.filterMap fun tag =>
    (find tag.opening text).map fun pos => (pos, tag)).argmin Prod.fst

/-- The first length, counted down from `len`, of a suffix of `text` that is a prefix of
`tag`. -/
def longestTagSuffixFrom (text tag : List Char) : (len : ℕ) → ℕ
  | 0 => 0
  | len + 1 =>
    if text.drop (text.length - (len + 1)) = tag.take (len + 1) then len + 1
    else longestTagSuffixFrom text tag len

/-- The length of the longest suffix of `text` that is a prefix of `tag`. -/
def longestTagSuffix (text tag : List Char) : ℕ :=
  longestTagSuffixFrom text tag (min text.length tag.length)

def longestReasoningOpenTagSuffix (text : List Char) : ℕ :=
  (ReasoningTag.all.map fun tag => longestTagSuffix text tag.opening).foldl max 0

/-! ## The state -/

structure ToolCallBuffer where
  id : String
  name : String
  arguments : String

/-- What the adapter tracks beside its segment. -/
structure StreamingToolState where
  /-- Set once the provider announced a terminal outcome. -/
  terminalSeen : Bool
  toolCalls : OrderedMap ℕ ToolCallBuffer
  inThinkBlock : Bool
  currentReasoningTag : Option ReasoningTag
  /-- White space at the start of a reasoning block is being stripped. -/
  thinkStripLeadingWs : Bool
  /-- White space of the visible text after a reasoning block is being stripped. -/
  visibleStripLeadingWs : Bool
  /-- Text that may be the beginning of a tag. -/
  tagBuffer : List Char

def StreamingToolState.default : StreamingToolState where
  terminalSeen := false
  toolCalls := ∅
  inThinkBlock := false
  currentReasoningTag := none
  thinkStripLeadingWs := false
  visibleStripLeadingWs := false
  tagBuffer := []

abbrev Chat := Adapter StreamingToolState

namespace Chat

def new (segmentId : ProviderSegmentId) : Chat where
  segment := .new segmentId
  own := .default
  events := []

def markTerminal (s : Chat) : Chat := s.setOwn { s.own with terminalSeen := true }

def setBuffer (s : Chat) (text : List Char) : Chat := s.setOwn { s.own with tagBuffer := text }

/-! ## Text -/

def emitReasoningText (s : Chat) (text : List Char) : Chat :=
  s.emitItem chatReasoningItemId (.reasoningTextDelta (String.ofList text))

def emitVisibleText (s : Chat) (text : List Char) : Chat :=
  (s.emitItem chatMessageItemId (.messageDelta (String.ofList text))).push
    (.delta (String.ofList text))

def emitReasoning (text : List Char) (s : Chat) : Chat :=
  if text = [] then s
  else if s.own.thinkStripLeadingWs then
    let trimmed := trimStart text
    if trimmed = [] then s
    else
      let s : Chat := s.setOwn { s.own with thinkStripLeadingWs := false }
      s.emitReasoningText trimmed
  else s.emitReasoningText text

def emitVisible (text : List Char) (s : Chat) : Chat :=
  if text = [] then s
  else if s.own.visibleStripLeadingWs then
    let trimmed := trimStart text
    if trimmed = [] then s
    else
      let s : Chat := s.setOwn { s.own with visibleStripLeadingWs := false }
      s.emitVisibleText trimmed
  else s.emitVisibleText text

/-- The block is left at its closing tag. -/
def closeBlock (s : Chat) (tag : ReasoningTag) (pos : ℕ) : Chat :=
  let buffer := s.own.tagBuffer
  let s := emitReasoning (buffer.take pos) s
  s.setOwn { s.own with
    inThinkBlock := false
    currentReasoningTag := none
    visibleStripLeadingWs := true
    tagBuffer := buffer.drop (pos + tag.closing.length) }

/-- A block is entered at its opening tag. -/
def openBlock (s : Chat) (tag : ReasoningTag) (pos : ℕ) : Chat :=
  let buffer := s.own.tagBuffer
  let s := emitVisible (buffer.take pos) s
  s.setOwn { s.own with
    inThinkBlock := true
    currentReasoningTag := some tag
    thinkStripLeadingWs := true
    tagBuffer := buffer.drop (pos + tag.opening.length) }

/-- One round of the loop that finds a tag; `none` where there is none to find. -/
def tagStep (s : Chat) : Option Chat :=
  if s.own.inThinkBlock then
    match s.own.currentReasoningTag with
    | none => some (s.setOwn { s.own with inThinkBlock := false })
    | some tag => (find tag.closing s.own.tagBuffer).map (s.closeBlock tag)
  else
    (findNextOpenTag s.own.tagBuffer).map fun found => s.openBlock found.2 found.1

/-- The part of the buffer that no tag can begin in any more, and the rest. -/
def splitBuffer (s : Chat) (suffixMatch : ℕ) : List Char × List Char :=
  s.own.tagBuffer.splitAt (s.own.tagBuffer.length - suffixMatch)

/-- The last round: all is emitted but what may be the beginning of a tag. -/
def settle (s : Chat) : Chat :=
  match s.own.inThinkBlock, s.own.currentReasoningTag with
  | true, some tag =>
    let parts := s.splitBuffer (longestTagSuffix s.own.tagBuffer tag.closing)
    (emitReasoning parts.1 s).setBuffer parts.2
  | _, _ =>
    let parts := s.splitBuffer (longestReasoningOpenTagSuffix s.own.tagBuffer)
    (emitVisible parts.1 s).setBuffer parts.2

/-- Bounds the rounds that find a tag. -/
def rounds (s : Chat) : ℕ :=
  2 * s.own.tagBuffer.length + if s.own.inThinkBlock then 1 else 0

def processContentThinkTags (content : List Char) (s : Chat) : Chat :=
  let s := s.setBuffer (s.own.tagBuffer ++ content)
  (loop tagStep s.rounds s).settle

/-! ## Tool calls -/

/-- A delta with an identity and a name opens the slot of its call. -/
def toolCallStart (tc : Json) (index : ℕ) (s : Chat) : Chat :=
  match (tc.index "id").asStr, ((tc.index "function").index "name").asStr with
  | some id, some name =>
    let s := s.setOwn { s.own with toolCalls := s.own.toolCalls.insert index ⟨id, name, ""⟩ }
    (s.emitItem id (.functionCallStart name)).push (.toolCallStart id name index)
  | _, _ => s

/-- The text of the arguments belongs to the call of the slot, where there is one. -/
def toolCallArguments (tc : Json) (index : ℕ) (s : Chat) : Chat :=
  match ((tc.index "function").index "arguments").asStr.filter (· ≠ "") with
  | none => s
  | some argsDelta =>
    let s :=
      match s.own.toolCalls[index]? with
      | some call =>
        let call := { call with arguments := call.arguments ++ argsDelta }
        (s.setOwn { s.own with toolCalls := s.own.toolCalls.insert index call }).emitItem
          call.id (.functionCallDelta argsDelta)
      | none => s
    s.push (.toolCallArgumentsDelta index argsDelta)

/-- Whether all deltas of tool calls had an index, and the state they leave. -/
def toolCallDeltas : List Json → Chat → Bool × Chat
  | [], s => (true, s)
  | tc :: rest, s =>
    match (tc.index "index").asNat with
    | none => (false, s.fail "tool_call delta has no index")
    | some index => toolCallDeltas rest (toolCallArguments tc index (toolCallStart tc index s))

/-! ## One data line -/

inductive SseLineResult where
  /-- The stream is done. -/
  | done
  /-- Events to yield. -/
  | events
  deriving DecidableEq

def successfulFinishReason (reason : String) : Bool :=
  reason = "stop" || reason = "tool_calls" || reason = "length" || reason = "function_call"

/-- A finish reason ends the response; some are errors. -/
def finishReason (evt : Json) (s : Chat) : Chat :=
  match (((evt.index "choices").indexAt 0).index "finish_reason").asStr with
  | none => s
  | some reason =>
    if successfulFinishReason reason then s.markTerminal
    else s.markTerminal.push (.error ("Provider stream ended with finish_reason: " ++ reason))

def contentDelta (delta : Json) (s : Chat) : Chat :=
  match (delta.index "content").asStr.filter (· ≠ "") with
  | none => s
  | some content => processContentThinkTags content.toList s

def reasoningDelta (delta : Json) (s : Chat) : Chat :=
  match ((delta.index "reasoning_content").asStr.or (delta.index "reasoning").asStr).filter
      (· ≠ "") with
  | none => s
  | some text => s.emitItem chatReasoningItemId (.reasoningTextDelta text)

/-- What is done with an event that is no error: its text, its tool calls, its finish reason. -/
def processChoice (evt : Json) (s : Chat) : Chat :=
  let delta := ((evt.index "choices").indexAt 0).index "delta"
  let s := reasoningDelta delta (contentDelta delta s)
  match toolCallDeltas (((delta.index "tool_calls").asArray).getD []) s with
  | (true, s) => finishReason evt s
  | (false, s) => s

def processEvent (evt : Json) (s : Chat) : Chat :=
  let s := (s.push (.providerRaw evt)).startSegment ((evt.get "id").bind Json.asStr)
  if (evt.get "error").any Json.isObject then s.fail (providerErrorText evt)
  else processChoice evt (s.setUsage (parseOpenaiCompatUsageFromPayload evt))

/-- The reader of JSON texts is a parameter; it answers a value or the text of its error. -/
def processOpenaiSseLine (parse : String → Except String Json) (data : String) (s : Chat) :
    SseLineResult × Chat :=
  if data = "[DONE]" then (.done, s.markTerminal)
  else
    match parse data with
    | .error error =>
      (.events, s.fail ("provider sent a non-JSON Chat Completions SSE line: " ++ error))
    | .ok evt => (.events, processEvent evt s)

/-! ## The end of the stream -/

/-- What is left in the buffer is no tag. -/
def flushBuffer (s : Chat) : Chat :=
  if s.own.tagBuffer = [] then s
  else
    let remaining := s.own.tagBuffer
    let s := s.setBuffer []
    if s.own.inThinkBlock then s.emitReasoningText remaining else s.emitVisibleText remaining

/-- The slots are completed in the order of their indices; the source's map has no order. -/
def completeToolCalls (s : Chat) : Chat :=
  { s with
    events := s.events ++ s.own.toolCalls.toList.map fun entry => .toolCallComplete entry.1 }

/-- Only a terminal marker that the provider announced completes a segment. -/
def closeAtEnd (s : Chat) : Chat :=
  if s.isOpen then
    let usage := some s.segment.usage
    if s.own.terminalSeen then s.closeSegment .completed usage
    else (s.closeSegment .transportError usage).push
      (.error "provider stream closed before announcing a finish_reason")
  else s

def finalizeStream (s : Chat) : Chat :=
  let s := s.flushBuffer.completeToolCalls.closeAtEnd
  s.push (.done s.segment.usage)

end Chat

/-! ## The transport -/

/-- How the connection ends after its last data line. -/
inductive StreamEnd where
  | eof
  /-- The connection failed, or sent text that is not UTF-8. -/
  | failed (error : String)

/-- The data lines of a response one after another; nothing is read after `[DONE]`. -/
def chatStream (parse : String → Except String Json) (ending : StreamEnd) :
    List String → Chat → Chat
  | [], s =>
    match ending with
    | .eof => s.finalizeStream
    | .failed error => s.closeOnTransportError.push (.error error)
  | data :: rest, s =>
    match s.processOpenaiSseLine parse data with
    | (.done, s) => s.finalizeStream
    | (.events, s) => chatStream parse ending rest s

end Chelix.Providers
