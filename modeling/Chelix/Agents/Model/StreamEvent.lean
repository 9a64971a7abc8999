import Chelix.Common.ProviderOutput
import Chelix.Library.Json

/-!
# Stream events

What a provider adapter yields while a response is streamed.
-/

namespace Chelix.Agents.Model

open Chelix.Common Chelix.Library

structure Usage where
  inputTokens : ℕ
  outputTokens : ℕ
  cacheReadTokens : ℕ
  cacheWriteTokens : ℕ
  deriving DecidableEq

def Usage.zero : Usage := ⟨0, 0, 0, 0⟩

inductive StreamEvent where
  /-- Append-only update of one provider item. -/
  | providerItemUpdate (update : ProviderItemUpdate)
  | segmentStart (segmentId : ProviderSegmentId)
  | segmentClose (segmentId : ProviderSegmentId) (outcome : ProviderSegmentOutcome)
      (usage : Option Usage)
  /-- Visible text. -/
  | delta (text : String)
  | providerRaw (raw : Json)
  | toolCallStart (id name : String) (index : ℕ)
  | toolCallArgumentsDelta (index : ℕ) (delta : String)
  | toolCallComplete (index : ℕ)
  | done (usage : Usage)
  | error (text : String)
  deriving DecidableEq

end Chelix.Agents.Model
