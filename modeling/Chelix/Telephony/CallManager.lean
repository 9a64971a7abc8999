import Chelix.Library.Run

/-!
# The call manager

A telephone call has an id of its own and one of the provider.  Active calls are held by their own
id; an index leads from the id of the provider to it, and a timer ends the call after a maximal
duration.  The three maps are changed one after another, by requests, webhooks and timers that run
at the same time.

The lock on a record is not modelled: it only rules out some of the interleavings.
-/

namespace Chelix.Telephony

open Chelix.Library

abbrev CallId := String

/-! ## Calls and events -/

inductive CallMode where
  | notify
  | conversation
  deriving DecidableEq

inductive CallState where
  | initiated
  | ringing
  | answered
  | active
  | speaking
  | listening
  | completed
  | hangupUser
  | hangupBot
  | timeout
  | error
  | noAnswer
  | busy
  deriving DecidableEq

def CallState.isTerminal : CallState → Bool
  | .completed | .hangupUser | .hangupBot | .timeout | .error | .noAnswer | .busy => true
  | .initiated | .ringing | .answered | .active | .speaking | .listening => false

inductive CallEndReason where
  | completed
  | hangupUser
  | hangupBot
  | timeout
  | error
  | noAnswer
  | busy
  deriving DecidableEq

def CallEndReason.toState : CallEndReason → CallState
  | .completed => .completed
  | .hangupUser => .hangupUser
  | .hangupBot => .hangupBot
  | .timeout => .timeout
  | .error => .error
  | .noAnswer => .noAnswer
  | .busy => .busy

theorem CallEndReason.isTerminal_toState (reason : CallEndReason) :
    reason.toState.isTerminal = true := by
  cases reason <;> rfl

inductive CallEvent where
  | initiated (providerCallId : String)
  | ringing (providerCallId : String)
  | answered (providerCallId : String)
  | speaking (providerCallId : String)
  | speech (providerCallId text : String)
  | silence (providerCallId : String)
  | dtmf (providerCallId digits : String)
  | ended (providerCallId : String) (reason : CallEndReason)
  | error (providerCallId message : String)
  deriving DecidableEq

namespace CallEvent

def providerCallId : CallEvent → String
  | .initiated id | .ringing id | .answered id | .speaking id | .speech id _ | .silence id
  | .dtmf id _ | .ended id _ | .error id _ => id

/-- The provider reports the end of the call. -/
def ends : CallEvent → Bool
  | .ended _ _ | .error _ _ => true
  | _ => false

end CallEvent

inductive CallDirection where
  | inbound
  | outbound
  deriving DecidableEq

inductive Speaker where
  | bot
  | user
  deriving DecidableEq

structure CallRecord where
  providerCallId : Option String
  direction : CallDirection
  mode : CallMode
  state : CallState
  initialMessage : Option String
  transcript : List (Speaker × String)
  endReason : Option CallEndReason
  deriving DecidableEq

namespace CallRecord

/-- The record of `initiate`. -/
def outbound (providerCallId : String) (mode : CallMode) (message : Option String) :
    CallRecord where
  providerCallId := some providerCallId
  direction := .outbound
  mode
  state := .initiated
  initialMessage := message
  transcript := []
  endReason := none

/-- The record of `register_inbound`. -/
def inbound (providerCallId : String) : CallRecord where
  providerCallId := some providerCallId
  direction := .inbound
  mode := .conversation
  state := .answered
  initialMessage := none
  transcript := []
  endReason := none

def finish (record : CallRecord) (reason : CallEndReason) : CallRecord :=
  { record with state := reason.toState, endReason := some reason }

/-- What `handle_event` does to the record. -/
def handle (record : CallRecord) : CallEvent → CallRecord
  | .initiated _ => { record with state := .initiated }
  | .ringing _ => { record with state := .ringing }
  | .answered _ => { record with state := .answered }
  | .speaking _ => { record with state := .speaking }
  | .speech _ text =>
    { record with state := .active, transcript := record.transcript ++ [(.user, text)] }
  | .silence _ => record
  | .dtmf _ _ => { record with state := .active }
  | .ended _ reason => record.finish reason
  | .error _ _ => record.finish .error

variable (record : CallRecord)

@[simp] theorem providerCallId_handle (event : CallEvent) :
    (record.handle event).providerCallId = record.providerCallId := by
  cases event <;> rfl

@[simp] theorem providerCallId_finish (reason : CallEndReason) :
    (record.finish reason).providerCallId = record.providerCallId := rfl

theorem isTerminal_handle_of_ends {event : CallEvent}
    (h : event.ends = true) : (record.handle event).state.isTerminal = true := by
  cases event with
  | ended _ reason => exact reason.isTerminal_toState
  | error => rfl
  | _ => exact nomatch h

theorem isTerminal_handle {event : CallEvent} (h : event.ends = false)
    (hrecord : record.state.isTerminal = false) :
    (record.handle event).state.isTerminal = false := by
  cases event with
  | ended | error => exact nomatch h
  | silence => exact hrecord
  | _ => rfl

end CallRecord

/-! ## Threads and timers -/

/-- What a request or a webhook does next. -/
inductive CallThread where
  | idle
  /-- `initiate` waits for the provider. -/
  | requesting (mode : CallMode) (message : Option String)
  /-- The answer webhook calls `resolve_call_id`, `get_call` and `register_inbound`. -/
  | resolving (providerCallId : String)
  | getting (providerCallId : String) (callId : CallId)
  | registering (providerCallId : String)
  /-- `handle_event` looks into the index, and then for the record. -/
  | looking (event : CallEvent)
  | handling (event : CallEvent) (callId : CallId)
  /-- `hangup` waits for the provider. -/
  | hangingUp (callId : CallId) (providerCallId : String)
  /-- The call is over, and is taken out of the index, the calls and the timers. -/
  | unindexing (callId : CallId) (providerCallId : Option String)
  | removing (callId : CallId)
  | cancelling (callId : CallId)
  deriving DecidableEq

/-- What the timer of a call does next. -/
inductive Timer where
  | absent
  | sleeping
  /-- The call has timed out; an abort takes effect at the next await. -/
  | unindexing (providerCallId : String) (aborted : Bool)
  | hangingUp
  | removing
  | finished
  | aborted
  deriving DecidableEq

/-- `JoinHandle::abort`. -/
def Timer.abort : Timer → Timer
  | .sleeping | .hangingUp => .aborted
  | .unindexing providerCallId _ => .unindexing providerCallId true
  | timer => timer

/-- Which of the maps a new call is put into next. -/
inductive StoreStage where
  | active
  | index
  | timer
  | handle
  deriving DecidableEq

structure CallManager where
  activeCalls : CallId → Option CallRecord
  providerIndex : String → Option CallId
  timeoutHandles : CallId → Bool
  timers : CallId → Timer
  /-- The calls that `initiate` or `register_inbound` is storing. -/
  storing : CallId → Option (CallRecord × StoreStage)
  threads : ℕ → CallThread
  /-- The provider ids of the calls that have been begun. -/
  begun : CallId → Option String
  /-- The provider ids whose end was reported. -/
  ended : List String

namespace CallManager

def new : CallManager where
  activeCalls _ := none
  providerIndex _ := none
  timeoutHandles _ := false
  timers _ := .absent
  storing _ := none
  threads _ := .idle
  begun _ := none
  ended := []

variable (m : CallManager)

def move (tid : ℕ) (thread : CallThread) : CallManager :=
  { m with threads := Function.update m.threads tid thread }

/-- The provider id is new: of no call, and nothing was reported about it. -/
def Unassigned (providerCallId : String) : Prop :=
  (∀ callId, m.begun callId ≠ some providerCallId) ∧ providerCallId ∉ m.ended

/-- A call gets its id, and is to be stored. -/
def beginCall (callId : CallId) (record : CallRecord) : CallManager :=
  { m with
    storing := Function.update m.storing callId (some (record, .active))
    begun := Function.update m.begun callId record.providerCallId }

def setActive (callId : CallId) (record : CallRecord) : CallManager :=
  { m with activeCalls := Function.update m.activeCalls callId (some record) }

def removeActive (callId : CallId) : CallManager :=
  { m with activeCalls := Function.update m.activeCalls callId none }

def setIndex (providerCallId : String) (callId : CallId) : CallManager :=
  { m with providerIndex := Function.update m.providerIndex providerCallId (some callId) }

def removeIndex (providerCallId : String) : CallManager :=
  { m with providerIndex := Function.update m.providerIndex providerCallId none }

def setTimer (callId : CallId) (timer : Timer) : CallManager :=
  { m with timers := Function.update m.timers callId timer }

def setHandle (callId : CallId) (present : Bool) : CallManager :=
  { m with timeoutHandles := Function.update m.timeoutHandles callId present }

def store (callId : CallId) (stage : Option (CallRecord × StoreStage)) : CallManager :=
  { m with storing := Function.update m.storing callId stage }

def report (event : CallEvent) : CallManager :=
  { m with ended := if event.ends then event.providerCallId :: m.ended else m.ended }

/-- `resolve_call_id`. -/
def resolved (providerCallId : String) : CallThread :=
  match m.providerIndex providerCallId with
  | some callId => .getting providerCallId callId
  | none => .registering providerCallId

/-- `get_call`. -/
def got (providerCallId : String) (callId : CallId) : CallThread :=
  match m.activeCalls callId with
  | some _ => .idle
  | none => .registering providerCallId

def looked (event : CallEvent) : CallThread :=
  match m.providerIndex event.providerCallId with
  | some callId => .handling event callId
  | none => .idle

/-- The record is updated; if the call is over, it is to be removed. -/
def handled (tid : ℕ) (event : CallEvent) (callId : CallId) : CallManager :=
  match m.activeCalls callId with
  | none => m.move tid .idle
  | some record =>
    (m.setActive callId (record.handle event)).move tid
      (if (record.handle event).state.isTerminal then .unindexing callId record.providerCallId
      else .idle)

/-- The checks of `hangup`. -/
def hangupChecked (callId : CallId) : CallThread :=
  match m.activeCalls callId with
  | none => .idle
  | some record =>
    match record.providerCallId with
    | none => .idle
    | some providerCallId =>
      if record.state.isTerminal then .idle else .hangingUp callId providerCallId

/-- The record, if it is there, is marked as hung up. -/
def hungUp (callId : CallId) : CallManager :=
  match m.activeCalls callId with
  | none => m
  | some record => m.setActive callId (record.finish .hangupBot)

/-- `cancel_timeout`. -/
def cancelTimeout (callId : CallId) : CallManager :=
  if m.timeoutHandles callId then
    (m.setHandle callId false).setTimer callId (m.timers callId).abort
  else m

/-- The timer wakes up: a running call is marked. -/
def fired (callId : CallId) : CallManager :=
  match m.activeCalls callId with
  | none => m.setTimer callId .removing
  | some record =>
    if record.state.isTerminal then m.setTimer callId .removing
    else
      (m.setTimer callId
        (match record.providerCallId with
          | some providerCallId => .unindexing providerCallId false
          | none => .removing)).setActive callId (record.finish .timeout)

end CallManager

/-- Who acts: a thread, the task that stores a call, or a timer. -/
inductive CallAct where
  | thread (tid : ℕ)
  /-- The thread registers a call. -/
  | register (tid : ℕ)
  /-- The thread looks for the call of an event. -/
  | look (tid : ℕ)
  /-- The thread begins to hang up. -/
  | hangup (tid : ℕ) (callId : CallId)
  | store (callId : CallId)
  | timer (callId : CallId)
  deriving DecidableEq

open CallManager in
inductive CallStep (m : CallManager) : CallAct → CallManager → Prop
  | initiate {tid : ℕ} (mode : CallMode) (message : Option String)
      (hidle : m.threads tid = .idle) :
      CallStep m (.thread tid) (m.move tid (.requesting mode message))
  | refused {tid : ℕ} {mode : CallMode} {message : Option String}
      (hphase : m.threads tid = .requesting mode message) :
      CallStep m (.thread tid) (m.move tid .idle)
  /-- The provider assigns an id; its answer is on the way. -/
  | assigned {tid : ℕ} {mode : CallMode} {message : Option String} (callId : CallId)
      (providerCallId : String) (hphase : m.threads tid = .requesting mode message)
      (hnew : m.begun callId = none) (hdistinct : m.Unassigned providerCallId) :
      CallStep m (.thread tid)
        ((m.beginCall callId (.outbound providerCallId mode message)).move tid .idle)
  | storeActive {callId : CallId} {record : CallRecord}
      (hphase : m.storing callId = some (record, .active)) :
      CallStep m (.store callId) ((m.setActive callId record).store callId (some (record, .index)))
  | storeIndex {callId : CallId} {record : CallRecord} {providerCallId : String}
      (hphase : m.storing callId = some (record, .index))
      (hid : record.providerCallId = some providerCallId) :
      CallStep m (.store callId)
        ((m.setIndex providerCallId callId).store callId (some (record, .timer)))
  | storeTimer {callId : CallId} {record : CallRecord}
      (hphase : m.storing callId = some (record, .timer)) :
      CallStep m (.store callId)
        ((m.setTimer callId .sleeping).store callId (some (record, .handle)))
  | storeHandle {callId : CallId} {record : CallRecord}
      (hphase : m.storing callId = some (record, .handle)) :
      CallStep m (.store callId) ((m.setHandle callId true).store callId none)
  | answer {tid : ℕ} (providerCallId : String) (hidle : m.threads tid = .idle) :
      CallStep m (.thread tid) (m.move tid (.resolving providerCallId))
  | resolve {tid : ℕ} {providerCallId : String}
      (hphase : m.threads tid = .resolving providerCallId) :
      CallStep m (.thread tid) (m.move tid (m.resolved providerCallId))
  | get {tid : ℕ} {providerCallId : String} {callId : CallId}
      (hphase : m.threads tid = .getting providerCallId callId) :
      CallStep m (.thread tid) (m.move tid (m.got providerCallId callId))
  /-- The policy rejects the call, or it has no id. -/
  | rejected {tid : ℕ} {providerCallId : String}
      (hphase : m.threads tid = .registering providerCallId) :
      CallStep m (.thread tid) (m.move tid .idle)
  | register {tid : ℕ} {providerCallId : String} (callId : CallId)
      (hphase : m.threads tid = .registering providerCallId) (hid : providerCallId ≠ "")
      (hnew : m.begun callId = none) :
      CallStep m (.register tid) ((m.beginCall callId (.inbound providerCallId)).move tid .idle)
  | event {tid : ℕ} (event : CallEvent) (hidle : m.threads tid = .idle) :
      CallStep m (.thread tid) ((m.report event).move tid (.looking event))
  | look {tid : ℕ} {event : CallEvent} (hphase : m.threads tid = .looking event) :
      CallStep m (.look tid) (m.move tid (m.looked event))
  | handle {tid : ℕ} {event : CallEvent} {callId : CallId}
      (hphase : m.threads tid = .handling event callId) :
      CallStep m (.thread tid) (m.handled tid event callId)
  | hangup {tid : ℕ} (callId : CallId) (hidle : m.threads tid = .idle) :
      CallStep m (.hangup tid callId) (m.move tid (m.hangupChecked callId))
  | hangupFailed {tid : ℕ} {callId : CallId} {providerCallId : String}
      (hphase : m.threads tid = .hangingUp callId providerCallId) :
      CallStep m (.thread tid) (m.move tid .idle)
  | hungUp {tid : ℕ} {callId : CallId} {providerCallId : String}
      (hphase : m.threads tid = .hangingUp callId providerCallId) :
      CallStep m (.thread tid)
        ((m.hungUp callId).move tid (.unindexing callId (some providerCallId)))
  | unindex {tid : ℕ} {callId : CallId} {providerCallId : Option String}
      (hphase : m.threads tid = .unindexing callId providerCallId) :
      CallStep m (.thread tid)
        ((providerCallId.elim m m.removeIndex).move tid (.removing callId))
  | remove {tid : ℕ} {callId : CallId} (hphase : m.threads tid = .removing callId) :
      CallStep m (.thread tid) ((m.removeActive callId).move tid (.cancelling callId))
  | cancel {tid : ℕ} {callId : CallId} (hphase : m.threads tid = .cancelling callId) :
      CallStep m (.thread tid) ((m.cancelTimeout callId).move tid .idle)
  | fire {callId : CallId} (hphase : m.timers callId = .sleeping) :
      CallStep m (.timer callId) (m.fired callId)
  | timerUnindex {callId : CallId} {providerCallId : String} {aborted : Bool}
      (hphase : m.timers callId = .unindexing providerCallId aborted) :
      CallStep m (.timer callId) ((m.removeIndex providerCallId).setTimer callId .hangingUp)
  /-- The abort takes effect. -/
  | timerStopped {callId : CallId} {providerCallId : String}
      (hphase : m.timers callId = .unindexing providerCallId true) :
      CallStep m (.timer callId) ((m.removeIndex providerCallId).setTimer callId .aborted)
  | timerHungUp {callId : CallId} (hphase : m.timers callId = .hangingUp) :
      CallStep m (.timer callId) (m.setTimer callId .removing)
  | timerRemove {callId : CallId} (hphase : m.timers callId = .removing) :
      CallStep m (.timer callId) ((m.removeActive callId).setTimer callId .finished)

end Chelix.Telephony
