import Chelix.Common.ProviderRecords
import Chelix.Common.ToolLifecycle

/-!
# Tool disclosures

The tool names whose schemas a journal record reveals, and the segment that it carries.  A
record of an assistant reveals the tools that it calls; a successful call of the meta-tool
reveals the tool whose schema it returned.  The parser of JSON text is a parameter.
-/

namespace Chelix.Common

open Chelix.Library

/-- The reserved name of the meta-tool. -/
def getToolName : String := "get_tool"

/-- A set of names, in their order. -/
abbrev NameSet := Std.ExtTreeSet String compare

/-- Names and assistant segment disclosed by one canonical record. -/
structure RecordDisclosure where
  names : NameSet
  segmentId : Option ProviderSegmentId
  deriving DecidableEq

/-- Why the disclosure of a record is not known: its event, or the text of its result, cannot
be read. -/
inductive DisclosureError where
  | lifecycle (source : DecodeError)
  | result (text : String)
  deriving DecidableEq

/-- The name of a tool, trimmed; the meta-tool and empty names are none. -/
def toolName (value : Option Json) : Option String :=
  ((value.bind Json.asStr).map trim).filter fun name => name ≠ "" ∧ name ≠ getToolName

def collectDirectToolCalls (message : Json) (visible : NameSet) : NameSet :=
  match (message.get "tool_calls").bind Json.asArray with
  | none => visible
  | some toolCalls =>
    toolCalls.foldl (fun visible toolCall =>
      match toolName ((toolCall.get "function").bind fun function => function.get "name") with
      | some name => visible.insert name
      | none => visible) visible

/-- The segment that an assistant record carries. -/
def disclosedSegment (message : Json) : Option ProviderSegmentId :=
  if (message.get "role").bind Json.asStr = some "assistant" then
    (message.get "segmentId").bind decodeProviderSegmentId
  else none

section Reveal

variable (fromStr : String → Except String Json)

def collectGetToolReveal (message : Json) (visible : NameSet) :
    Except DisclosureError NameSet :=
  match Decoder.run "ToolLifecycleEvent" decodeToolLifecycleEvent message with
  | .error source => .error (.lifecycle source)
  | .ok lifecycle =>
    if lifecycle.toolName ≠ getToolName then .ok visible
    else
      match lifecycle.update with
      | .completed _ true (some result) _ =>
        match fromStr result with
        | .error text => .error (.result text)
        | .ok result =>
          if (result.get "schema_visible").bind Json.asBool ≠ some true then .ok visible
          else
            match toolName (result.get "name") with
            | some name => .ok (visible.insert name)
            | none => .ok visible
      | _ => .ok visible

def disclosedNames (message : Json) : Except DisclosureError NameSet :=
  match (message.get "role").bind Json.asStr with
  | some "assistant" => .ok (collectDirectToolCalls message ∅)
  | some "tool_lifecycle" => collectGetToolReveal fromStr message ∅
  | _ => .ok ∅

/-- The names and the segment that one record reveals. -/
def recordDisclosure (message : Json) : Except DisclosureError RecordDisclosure :=
  (disclosedNames fromStr message).map fun names =>
    { names, segmentId := disclosedSegment message }

end Reveal

end Chelix.Common
