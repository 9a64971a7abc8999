import Chelix.Agents.Model.StreamEvent

/-!
# Token usage of OpenAI-compatible responses

Backends name the fields of a usage object differently and put the object in different places
of a payload.
-/

namespace Chelix.Providers

open Chelix.Agents.Model Chelix.Library

/-- A 64-bit number in decimal, with an optional plus sign. -/
def parseU64 (raw : String) : Option ℕ :=
  let digits := if raw.toList.head? = some '+' then raw.toList.tail else raw.toList
  if digits ≠ [] ∧ digits.all Char.isDigit then
    let n := digits.foldl (fun n c => 10 * n + (c.toNat - '0'.toNat)) 0
    if n < 2 ^ 64 then some n else none
  else none

def usageValueAtPath (usage : Json) (path : List String) : Option ℕ :=
  match path.foldlM Json.get usage with
  | some cursor => cursor.asNat.or (cursor.asStr.bind parseU64)
  | none => none

/-- The first path that has a number, cut to 32 bits. -/
def usageFieldU32 (usage : Json) (paths : List (List String)) : ℕ :=
  ((paths.findSome? (usageValueAtPath usage)).getD 0) % 2 ^ 32

def parseOpenaiCompatUsage (usage : Json) : Usage where
  inputTokens := usageFieldU32 usage
    [["prompt_tokens"], ["promptTokens"], ["input_tokens"], ["inputTokens"]]
  outputTokens := usageFieldU32 usage
    [["completion_tokens"], ["completionTokens"], ["output_tokens"], ["outputTokens"]]
  cacheReadTokens := usageFieldU32 usage
    [["prompt_tokens_details", "cached_tokens"], ["promptTokensDetails", "cachedTokens"],
      ["input_tokens_details", "cached_tokens"], ["inputTokensDetails", "cachedTokens"],
      ["cache_read_input_tokens"], ["cacheReadInputTokens"],
      ["input_tokens_details", "cache_read_input_tokens"],
      ["inputTokensDetails", "cacheReadInputTokens"]]
  cacheWriteTokens := usageFieldU32 usage
    [["cache_creation_input_tokens"], ["cacheCreationInputTokens"],
      ["input_tokens_details", "cache_creation_input_tokens"],
      ["inputTokensDetails", "cacheCreationInputTokens"]]

/-- The first element of the `choices` of a payload. -/
def firstChoice (payload : Json) : Option Json :=
  ((payload.get "choices").bind Json.asArray).bind List.head?

/-- The usage object of a payload: at the top, in the first choice, in its `delta`, in its
`message`, or in an extension block. -/
def usageObjectFromPayload (payload : Json) : Option Json :=
  let object (value : Option Json) : Option Json := (value.bind (·.get "usage")).filter Json.isObject
  (object (some payload)).or
    ((object (firstChoice payload)).or
      ((object ((firstChoice payload).bind (·.get "delta"))).or
        ((object ((firstChoice payload).bind (·.get "message"))).or
          (object (payload.get "x_groq")))))

def parseOpenaiCompatUsageFromPayload (payload : Json) : Option Usage :=
  (usageObjectFromPayload payload).map parseOpenaiCompatUsage

end Chelix.Providers
