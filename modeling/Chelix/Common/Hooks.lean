import Chelix.Library.Run
import Mathlib.Algebra.Order.Ring.Int

/-!
# Hooks

Handlers subscribe to events and are run in the order of their priorities.  A handler that fails
too often in a row is skipped until a cooldown is over; the state of this breaker is shared by
all entries of the handler.

A check of a breaker is one step.  Instants and durations are natural numbers of nanoseconds.
-/

namespace Chelix.Common

open Chelix.Library

/-! ## Events, actions and handlers -/

inductive HookEvent where
  | beforeAgentStart
  | beforeLLMCall
  | afterLLMCall
  | messageReceived
  | messageSending
  | messageSent
  | beforeToolCall
  | afterToolCall
  | toolResultPersist
  | sessionStart
  | sessionEnd
  | gatewayStart
  | gatewayStop
  | command
  deriving DecidableEq

/-- The events whose handlers can run in parallel. -/
def HookEvent.isReadOnly : HookEvent → Bool
  | .afterToolCall | .messageSent | .sessionStart | .sessionEnd | .gatewayStart | .gatewayStop
  | .command => true
  | _ => false

inductive HookAction (ν : Type*) where
  | continue
  | modifyPayload (value : ν)
  | block (reason : String)
  deriving DecidableEq

/-- What a handler answers: an action or an error. -/
abbrev HookOutcome (ν : Type*) := Except String (HookAction ν)

structure HookHandler where
  name : String
  events : List HookEvent
  priority : ℤ
  deriving DecidableEq

/-- A subscription, with the number of the statistics that the handler's entries share. -/
structure HandlerEntry where
  handler : HookHandler
  stats : ℕ
  deriving DecidableEq

/-! ## The breaker of a handler -/

structure HookStats where
  callCount : ℕ
  failureCount : ℕ
  consecutiveFailures : ℕ
  disabled : Bool
  disabledAt : Option ℕ
  deriving DecidableEq

namespace HookStats

def new : HookStats where
  callCount := 0
  failureCount := 0
  consecutiveFailures := 0
  disabled := false
  disabledAt := none

variable (s : HookStats)

def recordSuccess : HookStats :=
  { s with callCount := s.callCount + 1, consecutiveFailures := 0 }

def recordFailure : HookStats :=
  { s with
    callCount := s.callCount + 1
    failureCount := s.failureCount + 1
    consecutiveFailures := s.consecutiveFailures + 1 }

/-- An action, a `Block` included, is a success. -/
def record {ν : Type*} : HookOutcome ν → HookStats
  | .ok _ => s.recordSuccess
  | .error _ => s.recordFailure

/-- Whether the handler is to be skipped, with the breaker after the check. -/
def checkCircuitBreaker (threshold cooldown now : ℕ) : HookStats × Bool :=
  if s.disabled then
    if s.disabledAt.any fun disabledAt => cooldown ≤ now - disabledAt then
      ({ s with disabled := false, consecutiveFailures := 0 }, false)
    else (s, true)
  else if threshold ≤ s.consecutiveFailures then
    ({ s with disabled := true, disabledAt := some now }, true)
  else (s, false)

end HookStats

/-! ## The registry -/

structure HookRegistry where
  handlers : HookEvent → List HandlerEntry
  registered : ℕ
  circuitBreakerThreshold : ℕ
  circuitBreakerCooldown : ℕ
  dryRun : Bool

namespace HookRegistry

def new : HookRegistry where
  handlers _ := []
  registered := 0
  circuitBreakerThreshold := 3
  circuitBreakerCooldown := 60 * 10 ^ 9
  dryRun := false

variable (r : HookRegistry)

def withCircuitBreaker (threshold cooldown : ℕ) : HookRegistry :=
  { r with circuitBreakerThreshold := threshold, circuitBreakerCooldown := cooldown }

def withDryRun (dryRun : Bool) : HookRegistry := { r with dryRun := dryRun }

/-- Higher priorities come first. -/
def order (entry : HandlerEntry) : ℤᵒᵈ := OrderDual.toDual entry.handler.priority

def subscribe (entry : HandlerEntry) (event : HookEvent) : HookRegistry :=
  { r with
    handlers := Function.update r.handlers event (sortByKey order (r.handlers event ++ [entry])) }

/-- Register a handler for all events it subscribes to. -/
def register (handler : HookHandler) : HookRegistry :=
  handler.events.foldl (fun r' event => r'.subscribe ⟨handler, r.registered⟩ event)
    { r with registered := r.registered + 1 }

def checkCircuitBreaker (stats : HookStats) (now : ℕ) : HookStats × Bool :=
  stats.checkCircuitBreaker r.circuitBreakerThreshold r.circuitBreakerCooldown now

end HookRegistry

/-! ## Calls -/

/-- A call in progress: the entries it has not come to and those that are running, and what became
of the others. -/
structure HookCall (ν : Type*) where
  event : HookEvent
  /-- A call of `dispatch_sync`. -/
  sync : Bool
  remaining : List HandlerEntry
  running : List HandlerEntry
  /-- Entries that were skipped, or whose handlers have answered, in this order. -/
  visits : List (HandlerEntry × Option (HookOutcome ν))
  lastModify : Option ν
  returned : Option (HookAction ν)

namespace HookCall

variable {ν : Type*}

def start (r : HookRegistry) (event : HookEvent) (sync : Bool) : HookCall ν where
  event := event
  sync := sync
  remaining := r.handlers event
  running := []
  visits := []
  lastModify := none
  returned := none

variable (c : HookCall ν)

/-- `dispatch` runs the handlers of a read-only event in parallel; `dispatch_sync` does not look
at this. -/
def parallel : Bool := !c.sync && c.event.isReadOnly

/-- The next entry is skipped, or its handler starts. -/
def visit (skipped : Bool) : HookCall ν :=
  match c.remaining with
  | [] => c
  | entry :: rest =>
    if skipped then { c with remaining := rest, visits := c.visits ++ [(entry, none)] }
    else { c with remaining := rest, running := c.running ++ [entry] }

def settle (dryRun : Bool) (entry : HandlerEntry) (outcome : HookOutcome ν) : HookCall ν :=
  let c' := { c with
    running := c.running.erase entry
    visits := c.visits ++ [(entry, some outcome)] }
  if c.parallel then c'
  else
    match outcome with
    | .ok .continue => c'
    | .ok (.modifyPayload value) => if dryRun then c' else { c' with lastModify := some value }
    | .ok (.block reason) => if dryRun then c' else { c' with returned := some (.block reason) }
    | .error _ => c'

def finish : HookCall ν :=
  { c with
    returned := some (if c.parallel then .continue
      else
        match c.lastModify with
        | some value => .modifyPayload value
        | none => .continue) }

end HookCall

structure HookWorld (ν : Type*) where
  stats : ℕ → HookStats
  calls : ℕ → Option (HookCall ν)
  clock : ℕ

def HookWorld.new (ν : Type*) : HookWorld ν where
  stats _ := .new
  calls _ := none
  clock := 0

inductive HookMove (ν : Type*) where
  | start (d : ℕ) (event : HookEvent) (sync : Bool)
  | check (d : ℕ) (entry : HandlerEntry) (now : ℕ) (skipped : Bool)
  | outcome (d : ℕ) (entry : HandlerEntry) (outcome : HookOutcome ν)
  | finish (d : ℕ)

/-- The steps of calls.  A parallel call checks all its entries before the first handler answers;
the others wait for each handler before they go on. -/
inductive HookStep {ν : Type*} (r : HookRegistry) :
    HookWorld ν → HookMove ν → HookWorld ν → Prop
  | start (w d event sync) (hfree : w.calls d = none) :
      HookStep r w (.start d event sync)
        { w with calls := Function.update w.calls d (some (.start r event sync)) }
  | check (w d c entry rest now) (hcall : w.calls d = some c) (hopen : c.returned = none)
      (hready : c.parallel = true ∨ c.running = []) (hnext : c.remaining = entry :: rest)
      (hnow : w.clock ≤ now) :
      HookStep r w
        (.check d entry now (r.checkCircuitBreaker (w.stats entry.stats) now).2)
        { stats := Function.update w.stats entry.stats
            (r.checkCircuitBreaker (w.stats entry.stats) now).1
          calls := Function.update w.calls d
            (some (c.visit (r.checkCircuitBreaker (w.stats entry.stats) now).2))
          clock := now }
  | outcome (w d c entry outcome) (hcall : w.calls d = some c) (hopen : c.returned = none)
      (hready : c.parallel = true → c.remaining = []) (hrunning : entry ∈ c.running) :
      HookStep r w (.outcome d entry outcome)
        { w with
          stats := Function.update w.stats entry.stats ((w.stats entry.stats).record outcome)
          calls := Function.update w.calls d (some (c.settle r.dryRun entry outcome)) }
  | finish (w d c) (hcall : w.calls d = some c) (hopen : c.returned = none)
      (hremaining : c.remaining = []) (hrunning : c.running = []) :
      HookStep r w (.finish d)
        { w with calls := Function.update w.calls d (some c.finish) }

end Chelix.Common
