import Chelix.Library.Decode

/-!
# Tool lifecycle events

The life of one tool call as a sequence of events.  A record of an event is a flat object: its
update is flattened into it, tagged by the stage.
-/

namespace Chelix.Common

open Chelix.Library

/-- The values of the automatic checkpoint check. -/
structure ContextBudgetMetadata where
  contextWindow : ℕ
  maxInputTokens : ℕ
  maxOutputTokens : ℕ
  compactionRatio : ℕ
  promptTokens : ℕ
  toolSchemaTokens : ℕ
  availableInputTokens : ℕ
  compactionBudget : ℕ
  usagePercent : ℕ
  compactionRequired : Bool
  deriving DecidableEq

inductive ToolLifecycleStage where
  | created
  | inputStreaming
  | inputReady
  | waitingForExecution
  | executing
  | executionProgress
  | resultReady
  | completed
  | rejected
  | cancelled
  deriving DecidableEq

inductive ToolLifecycleUpdate where
  | created (providerIndex : Option ℕ)
  | inputStreaming (argumentsDelta : String)
  | inputReady (arguments : Json)
  | waitingForExecution (arguments : Json)
  | executing (arguments : Json) (startedAtMs : ℕ)
  | executionProgress (arguments : Json) (elapsedMs : ℕ) (message : String)
  | resultReady (arguments : Json) (success : Bool) (result error : Option String)
  | completed (arguments : Json) (success : Bool) (result error : Option String)
  | rejected (arguments : Json) (reason result : String)
  | cancelled (arguments : Option Json) (reason : String)
  deriving DecidableEq

structure ToolLifecycleEvent where
  toolCallId : String
  toolName : String
  sequence : ℕ
  emittedAtMs : ℕ
  runId : Option String
  contextBudget : Option ContextBudgetMetadata
  update : ToolLifecycleUpdate
  deriving DecidableEq

namespace ToolLifecycleStage

def isTerminal : ToolLifecycleStage → Bool
  | .completed | .rejected | .cancelled => true
  | _ => false

/-- The tags of the stages, in their order. -/
def names : List String :=
  ["created", "input_streaming", "input_ready", "waiting_for_execution", "executing",
    "execution_progress", "result_ready", "completed", "rejected", "cancelled"]

end ToolLifecycleStage

def ToolLifecycleUpdate.stage : ToolLifecycleUpdate → ToolLifecycleStage
  | .created _ => .created
  | .inputStreaming _ => .inputStreaming
  | .inputReady _ => .inputReady
  | .waitingForExecution _ => .waitingForExecution
  | .executing _ _ => .executing
  | .executionProgress _ _ _ => .executionProgress
  | .resultReady _ _ _ _ => .resultReady
  | .completed _ _ _ _ => .completed
  | .rejected _ _ _ => .rejected
  | .cancelled _ _ => .cancelled

/-! ## Decoding -/

def decodeContextBudget : Decoder ContextBudgetMetadata := fun value => do
  let fields ← Decoder.fields ["contextWindow", "maxInputTokens", "maxOutputTokens",
    "compactionRatio", "promptTokens", "toolSchemaTokens", "availableInputTokens",
    "compactionBudget", "usagePercent", "compactionRequired"] value
  match fields with
  | [contextWindow, maxInputTokens, maxOutputTokens, compactionRatio, promptTokens,
      toolSchemaTokens, availableInputTokens, compactionBudget, usagePercent,
      compactionRequired] =>
    let contextWindow ← Decoder.required (Decoder.uint 32) contextWindow
    let maxInputTokens ← Decoder.required (Decoder.uint 32) maxInputTokens
    let maxOutputTokens ← Decoder.required (Decoder.uint 32) maxOutputTokens
    let compactionRatio ← Decoder.required Decoder.nat compactionRatio
    let promptTokens ← Decoder.required Decoder.nat promptTokens
    let toolSchemaTokens ← Decoder.required Decoder.nat toolSchemaTokens
    let availableInputTokens ← Decoder.required Decoder.nat availableInputTokens
    let compactionBudget ← Decoder.required Decoder.nat compactionBudget
    let usagePercent ← Decoder.required Decoder.nat usagePercent
    let compactionRequired ← Decoder.required Decoder.bool compactionRequired
    some
      { contextWindow, maxInputTokens, maxOutputTokens, compactionRatio, promptTokens,
        toolSchemaTokens, availableInputTokens, compactionBudget, usagePercent,
        compactionRequired }
  | _ => none

def decodeToolLifecycleUpdate : Decoder ToolLifecycleUpdate := fun value => do
  let stage ← Decoder.required (Decoder.flattenedTag ToolLifecycleStage.names) (value.get "stage")
  let arguments := Decoder.required Decoder.value (value.get "arguments")
  let success := Decoder.required Decoder.bool (value.get "success")
  let result := Decoder.optional Decoder.string (value.get "result")
  let error := Decoder.optional Decoder.string (value.get "error")
  let reason := Decoder.required Decoder.string (value.get "reason")
  match stage with
  | "created" =>
    return .created (← Decoder.optional Decoder.nat (value.get "providerIndex"))
  | "input_streaming" =>
    return .inputStreaming (← Decoder.required Decoder.string (value.get "argumentsDelta"))
  | "input_ready" => return .inputReady (← arguments)
  | "waiting_for_execution" => return .waitingForExecution (← arguments)
  | "executing" =>
    return .executing (← arguments)
      (← Decoder.required Decoder.nat (value.get "startedAtMs"))
  | "execution_progress" =>
    return .executionProgress (← arguments)
      (← Decoder.required Decoder.nat (value.get "elapsedMs"))
      (← Decoder.required Decoder.string (value.get "message"))
  | "result_ready" => return .resultReady (← arguments) (← success) (← result) (← error)
  | "completed" => return .completed (← arguments) (← success) (← result) (← error)
  | "rejected" =>
    return .rejected (← arguments) (← reason)
      (← Decoder.required Decoder.string (value.get "result"))
  | "cancelled" =>
    return .cancelled (← Decoder.optional Decoder.value (value.get "arguments")) (← reason)
  | _ => none

/-- A structure with a flattened part is read from an object only. -/
def decodeToolLifecycleEvent : Decoder ToolLifecycleEvent
  | .obj fields => do
      let value := Json.obj fields
      let toolCallId ← Decoder.required Decoder.string (value.get "toolCallId")
      let toolName ← Decoder.required Decoder.string (value.get "toolName")
      let sequence ← Decoder.required Decoder.nat (value.get "sequence")
      let emittedAtMs ← Decoder.required Decoder.nat (value.get "emittedAtMs")
      let runId ← Decoder.optional Decoder.string (value.get "runId")
      let contextBudget ← Decoder.optional decodeContextBudget (value.get "contextBudget")
      let update ← decodeToolLifecycleUpdate value
      some { toolCallId, toolName, sequence, emittedAtMs, runId, contextBudget, update }
  | _ => none

end Chelix.Common
