import Chelix.Common.ProviderRecords

/-!
# Typed chat messages

The messages of a provider request, and the strict decoding of tool-call arguments: provider
text is parsed once and never repaired.  The parser of JSON text is a parameter.
-/

namespace Chelix.Agents.Model

open Chelix.Library Chelix.Common

inductive ToolCallArgumentSource where
  | emptyString
  | nullOrMissing
  | malformedString
  deriving DecidableEq

structure ToolCallArgumentDiagnostic where
  source : ToolCallArgumentSource
  rawLen : Option ℕ
  rawPreview : Option String
  parseError : Option String
  deriving DecidableEq

structure ToolCall where
  id : String
  name : String
  arguments : Json
  argumentDiagnostic : Option ToolCallArgumentDiagnostic
  deriving DecidableEq

inductive ContentPart where
  | text (text : String)
  | image (mediaType data : String)
  deriving DecidableEq

inductive UserContent where
  | text (text : String)
  | multimodal (parts : List ContentPart)
  deriving DecidableEq

inductive ChatMessage where
  | system (content : String)
  | user (content : UserContent) (name : Option String)
  | assistant (content : Option String) (toolCalls : List ToolCall)
      (reasoning : Option ReasoningContent) (providerItems : List ProviderOutputItem)
      (segmentId : Option ProviderSegmentId)
  | tool (toolCallId content : String)
  deriving DecidableEq

/-! ## Arguments -/

structure DecodedToolCallArguments where
  arguments : Json
  diagnostic : Option ToolCallArgumentDiagnostic

def notAnObjectError : String := "tool arguments must be a JSON object"

/-- At most the first 160 characters of an argument text. -/
def rawArgumentPreview (raw : String) : String :=
  let chars := raw.toList
  String.ofList (chars.take 160) ++ if chars.length > 160 then "..." else ""

def malformed (raw parseError : String) : DecodedToolCallArguments where
  arguments := .obj []
  diagnostic := some ⟨.malformedString, some raw.utf8ByteSize, some (rawArgumentPreview raw),
    some parseError⟩

section Decode

variable (fromStr : String → Except String Json)

/-- An empty text is a call without parameters; any other text must be a JSON object. -/
def decodeToolCallArgumentsFromStr (raw : String) : DecodedToolCallArguments :=
  if isBlank raw then
    { arguments := .obj []
      diagnostic := some ⟨.emptyString, some raw.utf8ByteSize, some (rawArgumentPreview raw),
        none⟩ }
  else
    match fromStr raw with
    | .ok (.obj fields) => { arguments := .obj fields, diagnostic := none }
    | .ok _ => malformed raw notAnObjectError
    | .error e => malformed raw e

def decodeToolCallArgumentsWithDiagnostic : Option Json → DecodedToolCallArguments
  | some (.str raw) => decodeToolCallArgumentsFromStr fromStr raw
  | some .null | none =>
    { arguments := .obj [], diagnostic := some ⟨.nullOrMissing, none, none, none⟩ }
  | some value => { arguments := value, diagnostic := none }

end Decode

end Chelix.Agents.Model
