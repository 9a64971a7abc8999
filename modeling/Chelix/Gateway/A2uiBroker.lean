import Chelix.Library.Entries
import Chelix.Library.Run
import Mathlib.Algebra.Group.Nat.Defs

/-!
# The broker of surface actions

A call that renders a surface waits at the broker for the action of the operator, under the key
of its interaction.  An action that comes first is buffered for a while, and a key whose wait is
over is remembered as completed for a while.  Both are forgotten by the pruning that `submit` and
`wait` begin with.

Actions are numbered in the order of the calls of `submit`, so that two of them are told apart.
-/

namespace Chelix.Gateway

open Chelix.Library

/-! ## The map -/

structure InteractionKey where
  sessionKey : String
  runId : String
  toolCallId : String
  deriving DecidableEq

structure BufferedAction (μ : Type*) where
  message : μ
  createdAt : ℕ
  deriving DecidableEq

/-- The sender of a waiter belongs to the channel of the wait with its identifier. -/
structure PendingWaiter where
  id : ℕ
  deriving DecidableEq

inductive BrokerEntry (μ : Type*) where
  | buffered (action : BufferedAction μ)
  | waiting (waiter : PendingWaiter)
  | completed (completedAt : ℕ)
  deriving DecidableEq

inductive BrokerSubmitError where
  | duplicate
  | closed
  | bufferFull
  deriving DecidableEq

def maxActionBuffer : ℕ := 128

/-- Thirty seconds, in nanoseconds. -/
def bufferTtl : ℕ := 30 * 10 ^ 9

abbrev BrokerState (μ : Type*) := Entries InteractionKey (BrokerEntry μ)

/-- What a call of `submit` does: the map, the wait that is taken out of it, and the answer. -/
structure Submission (μ : Type*) where
  state : BrokerState μ
  taken : Option ℕ
  answer : Except BrokerSubmitError Unit

/-- What a call of `wait` comes to before it awaits its channel. -/
inductive WaitStart (μ : Type*) where
  | returned (message : μ)
  | failed (error : String)
  | registered

namespace BrokerEntry

variable {μ : Type*}

def isBuffered : BrokerEntry μ → Bool
  | .buffered _ => true
  | _ => false

/-- An entry that is not too old. -/
def fresh (now : ℕ) : BrokerEntry μ → Bool
  | .buffered action => now - action.createdAt < bufferTtl
  | .waiting _ => true
  | .completed completedAt => now - completedAt < bufferTtl

end BrokerEntry

namespace BrokerState

variable {μ : Type*} (s : BrokerState μ)

def pruneBufferedActions (now : ℕ) : BrokerState μ := s.retain fun _ entry => entry.fresh now

def bufferedCount : ℕ := s.count BrokerEntry.isBuffered

/-- The part of `submit` after the pruning.  What the source takes out and puts back stays. -/
def accept (alive : ℕ → Bool) (key : InteractionKey) (message : μ) (now : ℕ) : Submission μ :=
  match s.lookup key with
  | some (.waiting waiter) =>
    ⟨s.insert key (.completed now), some waiter.id,
      if alive waiter.id then .ok () else .error .closed⟩
  | some (.buffered _) => ⟨s, none, .error .duplicate⟩
  | some (.completed _) => ⟨s, none, .error .duplicate⟩
  | none =>
    if maxActionBuffer ≤ s.bufferedCount then ⟨s, none, .error .bufferFull⟩
    else ⟨s.insert key (.buffered ⟨message, now⟩), none, .ok ()⟩

/-- Submits an action; a channel whose receiver is not alive refuses what is sent. -/
def submit (alive : ℕ → Bool) (key : InteractionKey) (message : μ) (now : ℕ) : Submission μ :=
  accept (s.pruneBufferedActions now) alive key message now

/-- The part of `wait` under the lock, after the pruning. -/
def enter (key : InteractionKey) (id now : ℕ) : BrokerState μ × WaitStart μ :=
  match s.lookup key with
  | some (.buffered buffered) => (s.insert key (.completed now), .returned buffered.message)
  | some (.waiting _) =>
    (s, .failed "another render_a2ui call is already waiting with this interaction key")
  | some (.completed _) => (s, .failed "this A2UI interaction has already completed")
  | none => (s.insert key (.waiting ⟨id⟩), .registered)

def wait (key : InteractionKey) (id now : ℕ) : BrokerState μ × WaitStart μ :=
  enter (s.pruneBufferedActions now) key id now

def hasWaiter (key : InteractionKey) (id : ℕ) : Bool :=
  match s.lookup key with
  | some (.waiting waiter) => waiter.id = id
  | _ => false

/-- `WaiterCleanup::remove`: the own waiter of a wait becomes a completed key. -/
def removeWaiter (key : InteractionKey) (id now : ℕ) : BrokerState μ :=
  if s.hasWaiter key id then s.insert key (.completed now) else s

end BrokerState

/-! ## The waits -/

/-- An action with the number of its call of `submit`. -/
structure SentAction (μ : Type*) where
  number : ℕ
  message : μ
  deriving DecidableEq

/-- Where a call of `wait` stands. -/
inductive WaitPhase (μ : Type*) where
  | idle
  | waiting (key : InteractionKey)
  /-- The action is in the channel, and was taken over at a time. -/
  | delivered (key : InteractionKey) (sent : SentAction μ) (since : ℕ)
  /-- The receiver is dropped and the cleanup still to come.  The entry may have been taken. -/
  | abandoned (key : InteractionKey) (since : Option ℕ)
  | returned (key : InteractionKey) (sent : SentAction μ) (since : ℕ)
  | failed (key : InteractionKey) (error : String)
  | dropped (key : InteractionKey) (since : ℕ)
  deriving DecidableEq

namespace WaitPhase

variable {μ : Type*}

def isWaiting : WaitPhase μ → Bool
  | .waiting _ => true
  | _ => false

/-- A wait whose entry `submit` takes. -/
def take (sent : SentAction μ) (now : ℕ) : WaitPhase μ → WaitPhase μ
  | .waiting key => .delivered key sent now
  | .abandoned key none => .abandoned key (some now)
  | phase => phase

/-- The key whose entry a wait keeps in the map. -/
def holding : WaitPhase μ → Option InteractionKey
  | .waiting key => some key
  | .abandoned key none => some key
  | _ => none

/-- The action that a wait has been given. -/
def sent : WaitPhase μ → Option (InteractionKey × SentAction μ)
  | .delivered key sent _ => some (key, sent)
  | .returned key sent _ => some (key, sent)
  | _ => none

/-- The key that a wait has completed, and when. -/
def closed : WaitPhase μ → Option (InteractionKey × ℕ)
  | .delivered key _ since => some (key, since)
  | .returned key _ since => some (key, since)
  | .abandoned key (some since) => some (key, since)
  | .dropped key since => some (key, since)
  | _ => none

/-- A wait for the key that has returned an action or was dropped. -/
def IsOver (key : InteractionKey) : WaitPhase μ → Prop
  | .returned key' _ _ => key' = key
  | .abandoned key' _ => key' = key
  | .dropped key' _ => key' = key
  | _ => False

end WaitPhase

structure A2uiBroker (μ : Type*) where
  state : BrokerState (SentAction μ)
  nextWaiterId : ℕ
  waits : ℕ → WaitPhase μ
  submissions : ℕ
  clock : ℕ

inductive BrokerEvent (μ : Type*) where
  | submit (key : InteractionKey) (message : μ) (now : ℕ)
  | wait (key : InteractionKey) (now : ℕ)
  | receive (id now : ℕ)
  | drop (id now : ℕ)
  | cleanup (id now : ℕ)

def BrokerEvent.now {μ : Type*} : BrokerEvent μ → ℕ
  | .submit _ _ now | .wait _ now | .receive _ now | .drop _ now | .cleanup _ now => now

namespace A2uiBroker

variable {μ : Type*}

def default (clock : ℕ) : A2uiBroker μ where
  state := ∅
  nextWaiterId := 0
  waits _ := .idle
  submissions := 0
  clock := clock

variable (w : A2uiBroker μ)

def setWait (id : ℕ) (phase : WaitPhase μ) : A2uiBroker μ :=
  { w with waits := Function.update w.waits id phase }

/-- What a call of `submit` does in a state. -/
def submission (key : InteractionKey) (message : μ) (now : ℕ) : Submission (SentAction μ) :=
  w.state.submit (fun id => (w.waits id).isWaiting) key ⟨w.submissions, message⟩ now

def submit (key : InteractionKey) (message : μ) (now : ℕ) : A2uiBroker μ :=
  let result := w.submission key message now
  { w with
    state := result.state
    waits :=
      match result.taken with
      | some id =>
        Function.update w.waits id ((w.waits id).take ⟨w.submissions, message⟩ now)
      | none => w.waits
    submissions := w.submissions + 1
    clock := now }

def wait (key : InteractionKey) (now : ℕ) : A2uiBroker μ :=
  let id := w.nextWaiterId
  let result := w.state.wait key id now
  { w with state := result.1, nextWaiterId := id + 1, clock := now }.setWait id
    (match result.2 with
    | .returned sent => .returned key sent now
    | .failed error => .failed key error
    | .registered => .waiting key)

/-- A wait whose channel has an action, or has lost its sender without one. -/
def receive (id now : ℕ) : Option (A2uiBroker μ) :=
  match w.waits id with
  | .delivered key sent since =>
    some ({ w with state := w.state.removeWaiter key id now, clock := now }.setWait id
      (.returned key sent since))
  | .waiting key =>
    if w.state.hasWaiter key id then none
    else
      some ({ w with clock := now }.setWait id (.failed key "A2UI action wait was cancelled"))
  | _ => none

/-- The receiver of a wait that is dropped, with the action that may be in its channel. -/
def drop (id now : ℕ) : Option (A2uiBroker μ) :=
  match w.waits id with
  | .waiting key => some ({ w with clock := now }.setWait id (.abandoned key none))
  | .delivered key _ since => some ({ w with clock := now }.setWait id (.abandoned key (some since)))
  | _ => none

def cleanup (id now : ℕ) : Option (A2uiBroker μ) :=
  match w.waits id with
  | .abandoned key since =>
    some ({ w with state := w.state.removeWaiter key id now, clock := now }.setWait id
      (.dropped key (since.getD now)))
  | _ => none

/-- What an event does; time does not go back. -/
def next (e : BrokerEvent μ) : Option (A2uiBroker μ) :=
  if w.clock ≤ e.now then
    match e with
    | .submit key message now => some (w.submit key message now)
    | .wait key now => some (w.wait key now)
    | .receive id now => w.receive id now
    | .drop id now => w.drop id now
    | .cleanup id now => w.cleanup id now
  else none

end A2uiBroker

def BrokerStep {μ : Type*} (w : A2uiBroker μ) (e : BrokerEvent μ) (w' : A2uiBroker μ) : Prop :=
  w.next e = some w'

theorem brokerStep_unique {μ : Type*} (w : A2uiBroker μ) (e : BrokerEvent μ)
    (t t' : A2uiBroker μ) (h : BrokerStep w e t) (h' : BrokerStep w e t') : t = t' :=
  Option.some.inj (h.symm.trans h')

end Chelix.Gateway
