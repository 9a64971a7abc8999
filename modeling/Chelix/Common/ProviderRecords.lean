import Chelix.Common.ProviderOutput
import Chelix.Library.Decode
import Chelix.Library.Text

/-!
# Provider segments in records

How segments are read from persisted records, and what is read off a segment that goes back
into a request: its text, its visible reasoning and its calls.
-/

namespace Chelix.Common

open Chelix.Library

/-- Visible reasoning: one stream, or the parts that the provider separates. -/
inductive ReasoningContent where
  | text (text : String)
  | parts (parts : List String)
  deriving DecidableEq

/-- Whether every visible fragment contains only white space. -/
def ReasoningContent.isBlank : ReasoningContent → Bool
  | .text s => Library.isBlank s
  | .parts ss => ss.all Library.isBlank

/-! ## What a segment says -/

namespace ProviderSegment

/-- The state of the loop that collects reasoning: the parts so far, the text of an item
without parts that no second one has joined yet, and what was seen. -/
structure ReasoningScan where
  allParts : List String
  singleText : String
  hasParts : Bool
  hasText : Bool

def ReasoningScan.step (scan : ReasoningScan) (item : ProviderOutputItem) : ReasoningScan :=
  match item.payload with
  | .reasoning reasoning =>
    if reasoning.summaryParts ≠ [] then
      { scan with
        hasParts := true
        allParts := scan.allParts ++ reasoning.summaryParts.map ReasoningPart.text }
    else
      match reasoning.visibleText with
      | some text =>
        if scan.singleText = "" then { scan with hasText := true, singleText := text }
        else
          { hasText := true
            hasParts := true
            allParts := scan.allParts ++ [scan.singleText, text]
            singleText := "" }
      | none => scan
  | _ => scan

/-- The reasoning of all reasoning items, in output order. -/
def reasoningContent (segment : ProviderSegment) : Option ReasoningContent :=
  let scan := segment.items.foldl ReasoningScan.step ⟨[], "", false, false⟩
  if scan.hasParts then
    let parts :=
      if scan.singleText = "" then scan.allParts else scan.allParts ++ [scan.singleText]
    if parts = [] then none else some (.parts parts)
  else if scan.hasText && scan.singleText ≠ "" then some (.text scan.singleText)
  else none

/-- The text of all message items, in output order. -/
def messageText (segment : ProviderSegment) : Option String :=
  let text := segment.items.foldl (fun text item =>
    match item.payload with
    | .message part => text ++ part
    | _ => text) ""
  if text = "" then none else some text

end ProviderSegment

/-! ## Decoding -/

def decodeReasoningContent : Decoder ReasoningContent
  | .str text => some (.text text)
  | value => (Decoder.list Decoder.string value).map .parts

def decodeProviderSegmentId : Decoder ProviderSegmentId := Decoder.string

def decodeProviderSegmentOutcome : Decoder ProviderSegmentOutcome :=
  Decoder.enum
    [("active", .active), ("completed", .completed), ("incomplete", .incomplete),
      ("failed", .failed), ("cancelled", .cancelled), ("transport_error", .transportError)]

def decodeReasoningPart : Decoder ReasoningPart := fun value => do
  match ← Decoder.fields ["partIndex", "text"] value with
  | [partIndex, text] =>
    some
      { partIndex := ← Decoder.required Decoder.nat partIndex
        text := ← Decoder.required Decoder.string text }
  | _ => none

def decodeReasoningItem : Decoder ReasoningItem := fun value => do
  let fields ← Decoder.fields
    ["id", "outputIndex", "summaryParts", "visibleText", "encryptedContent"] value
  match fields with
  | [id, outputIndex, summaryParts, visibleText, encryptedContent] =>
    some
      { id := ← Decoder.required Decoder.string id
        outputIndex := ← Decoder.required Decoder.nat outputIndex
        summaryParts := ← Decoder.defaulted (Decoder.list decodeReasoningPart) [] summaryParts
        visibleText := ← Decoder.optional Decoder.string visibleText
        encryptedContent := ← Decoder.optional Decoder.string encryptedContent }
  | _ => none

def decodeProviderOutputPayload : Decoder ProviderOutputPayload := fun value => do
  let (type, content) ← Decoder.tagged "type" value
  match type with
  | "reasoning" => (decodeReasoningItem content).map .reasoning
  | "message" =>
    match ← Decoder.fields ["text"] content with
    | [text] => (Decoder.required Decoder.string text).map .message
    | _ => none
  | "function_call" =>
    match ← Decoder.fields ["call_id", "name", "arguments"] content with
    | [callId, name, arguments] =>
      return .functionCall (← Decoder.required Decoder.string callId)
        (← Decoder.required Decoder.string name)
        (← Decoder.required Decoder.string arguments)
    | _ => none
  | _ => none

def decodeProviderOutputItem : Decoder ProviderOutputItem := fun value => do
  match ← Decoder.fields ["id", "position", "payload"] value with
  | [id, position, payload] =>
    some
      { id := ← Decoder.required Decoder.string id
        position := ← Decoder.required Decoder.nat position
        payload := ← Decoder.required decodeProviderOutputPayload payload }
  | _ => none

/-- The variants of an update payload whose only field is a text. -/
def decodeTextUpdate (field : String) (build : String → ProviderItemUpdatePayload) :
    Decoder ProviderItemUpdatePayload := fun content => do
  match ← Decoder.fields [field] content with
  | [text] => (Decoder.required Decoder.string text).map build
  | _ => none

/-- The variants of an update payload that address a part of a reasoning item. -/
def decodePartUpdate (field : String) (build : ℕ → String → ProviderItemUpdatePayload) :
    Decoder ProviderItemUpdatePayload := fun content => do
  match ← Decoder.fields ["part_index", field] content with
  | [partIndex, text] =>
    return build (← Decoder.required Decoder.nat partIndex)
      (← Decoder.required Decoder.string text)
  | _ => none

def decodeProviderItemUpdatePayload : Decoder ProviderItemUpdatePayload := fun value => do
  let (updateType, content) ← Decoder.tagged "update_type" value
  match updateType with
  | "reasoning_delta" => decodePartUpdate "delta" .reasoningDelta content
  | "reasoning_part_done" => decodePartUpdate "text" .reasoningPartDone content
  | "reasoning_item_done" =>
    match ← Decoder.fields ["encrypted_content"] content with
    | [encryptedContent] =>
      (Decoder.optional Decoder.string encryptedContent).map .reasoningItemDone
    | _ => none
  | "reasoning_text" => decodeTextUpdate "text" .reasoningText content
  | "reasoning_text_delta" => decodeTextUpdate "delta" .reasoningTextDelta content
  | "message_delta" => decodeTextUpdate "delta" .messageDelta content
  | "message_done" => decodeTextUpdate "text" .messageDone content
  | "function_call_start" => decodeTextUpdate "name" .functionCallStart content
  | "function_call_delta" => decodeTextUpdate "delta" .functionCallDelta content
  | "function_call_done" => decodeTextUpdate "arguments" .functionCallDone content
  | _ => none

def decodeProviderItemUpdate : Decoder ProviderItemUpdate := fun value => do
  match ← Decoder.fields ["segmentId", "itemId", "position", "updateSeq", "payload"] value with
  | [segmentId, itemId, position, updateSeq, payload] =>
    some
      { segmentId := ← Decoder.required decodeProviderSegmentId segmentId
        itemId := ← Decoder.required Decoder.string itemId
        position := ← Decoder.required Decoder.nat position
        updateSeq := ← Decoder.required Decoder.nat updateSeq
        payload := ← Decoder.required decodeProviderItemUpdatePayload payload }
  | _ => none

end Chelix.Common
