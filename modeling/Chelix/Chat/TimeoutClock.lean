import Chelix.Library.Run
import Mathlib.Algebra.Group.Nat.Defs
import Mathlib.Data.Finset.Card

/-!
# The clock of the agent timeout

A run may be cancelled when it has taken a time of its own, without the time in which it waits
for an operator.  Waits hold guards.  The clock counts the guards, keeps the start of the current
pause, and adds it to a total when the last guard goes; the three are separate variables.  A
watchdog compares the time of the run with the total, and sleeps or waits for a notification.
-/

namespace Chelix.Chat

open Chelix.Library

/-- Where a guard stands. -/
inductive GuardPhase where
  | idle
  /-- The first guard is counted, and the start of the pause is not set yet. -/
  | starting
  | notifyingStart
  | held
  /-- The last guard is off the count, and the start of the pause is not taken yet. -/
  | stopping
  | notifyingStop
  deriving DecidableEq

namespace GuardPhase

def counts : GuardPhase → Bool
  | .starting => true
  | .notifyingStart => true
  | .held => true
  | _ => false

/-- A guard is held from the last change that its `pause` makes to the clock to the last one that
its `resume` makes. -/
def holds : GuardPhase → Bool
  | .notifyingStart => true
  | .held => true
  | .stopping => true
  | _ => false

def quiet : GuardPhase → Bool
  | .idle => true
  | .held => true
  | _ => false

end GuardPhase

/-- Where the watchdog stands in its loop.  A check keeps the time at which it started, and the
time that guards had been held then. -/
inductive WatchdogPhase where
  | off
  | looping
  | measured (checked heldBefore : ℕ)
  /-- The current pause is read, and the total is read next. -/
  | readExtra (checked extra heldBefore : ℕ)
  | compared (checked unpaused : ℕ)
  /-- The clock is paused, and the notification is not polled yet. -/
  | sawPaused
  | sawUnpaused (checked unpaused : ℕ)
  /-- The timer is set, and the notification is not polled yet.  `delay` is the time since the
  start of the check. -/
  | polling (deadline delay : ℕ)
  | waitingPaused (notified : Bool)
  | sleeping (deadline delay : ℕ) (notified : Bool)
  | returned
  deriving DecidableEq

structure AgentClock where
  pausedCount : ℕ
  pausedTotal : ℕ
  pauseStarted : Option ℕ
  guards : ℕ → GuardPhase
  watchdog : WatchdogPhase
  started : ℕ
  timeout : ℕ
  now : ℕ
  /-- The time in which at least one guard was held. -/
  heldTotal : ℕ

namespace AgentClock

/-- The clock of a run that starts now; there is no watchdog without a timeout. -/
def new (started timeoutSecs : ℕ) : AgentClock where
  pausedCount := 0
  pausedTotal := 0
  pauseStarted := none
  guards _ := .idle
  watchdog := if timeoutSecs = 0 then .off else .looping
  started := started
  timeout := timeoutSecs * 10 ^ 9
  now := started
  heldTotal := 0

variable (m : AgentClock)

def setGuard (n : ℕ) (phase : GuardPhase) : AgentClock :=
  { m with guards := Function.update m.guards n phase }

/-! ## Pausing and resuming -/

/-- `fetch_add`. -/
def enter (n : ℕ) : AgentClock :=
  { m with pausedCount := m.pausedCount + 1 }.setGuard n
    (if m.pausedCount = 0 then .starting else .held)

def start (n : ℕ) : AgentClock := { m with pauseStarted := some m.now }.setGuard n .notifyingStart

/-- `fetch_sub`. -/
def leave (n : ℕ) : AgentClock :=
  { m with pausedCount := m.pausedCount - 1 }.setGuard n
    (if m.pausedCount = 1 then .stopping else .idle)

/-- The time since the start of the current pause. -/
def currentPause : ℕ := (m.pauseStarted.map fun started => m.now - started).getD 0

/-- Takes the start of the pause; its time is added to the total while the start is locked. -/
def stop (n : ℕ) : AgentClock :=
  { m with
    pausedTotal := m.pausedTotal + m.currentPause
    pauseStarted := none }.setGuard n .notifyingStop

/-- `notify_waiters` wakes the watchdog if it has polled the notification. -/
def notifyWaiters : AgentClock :=
  { m with
    watchdog :=
      match m.watchdog with
      | .waitingPaused _ => .waitingPaused true
      | .sleeping deadline delay _ => .sleeping deadline delay true
      | phase => phase }

def isPaused : Bool := m.pausedCount > 0

def pausedDuration : ℕ := m.pausedTotal + m.currentPause

/-! ## The watchdog -/

def setWatchdog (phase : WatchdogPhase) : AgentClock := { m with watchdog := phase }

/-- The next step of the watchdog, if it is not blocked. -/
def watch : Option AgentClock :=
  match m.watchdog with
  | .off => none
  | .looping => some (m.setWatchdog (.measured m.now m.heldTotal))
  | .measured checked heldBefore =>
    some (m.setWatchdog (.readExtra checked m.currentPause heldBefore))
  | .readExtra checked extra _ =>
    let unpaused := (checked - m.started) - (m.pausedTotal + extra)
    some (m.setWatchdog (if unpaused ≥ m.timeout then .returned else .compared checked unpaused))
  | .compared checked unpaused =>
    some (m.setWatchdog (if m.isPaused then .sawPaused else .sawUnpaused checked unpaused))
  | .sawPaused => some (m.setWatchdog (.waitingPaused false))
  | .sawUnpaused checked unpaused =>
    let remaining := m.timeout - unpaused
    some (m.setWatchdog (.polling (m.now + remaining) (m.now - checked)))
  | .polling deadline delay => some (m.setWatchdog (.sleeping deadline delay false))
  | .waitingPaused notified => if notified then some (m.setWatchdog .looping) else none
  | .sleeping deadline _ notified =>
    if notified ∨ deadline ≤ m.now then some (m.setWatchdog .looping) else none
  | .returned => none

end AgentClock

inductive ClockAct where
  | tick (d : ℕ)
  | enter (n : ℕ)
  | start (n : ℕ)
  | leave (n : ℕ)
  | stop (n : ℕ)
  | notify (n : ℕ)
  | watch
  /-- The run returns, and the watchdog is dropped. -/
  | finish
  deriving DecidableEq

inductive ClockStep (m : AgentClock) : ClockAct → AgentClock → Prop
  | tickHeld (d : ℕ) (hheld : ∃ n, (m.guards n).holds = true) :
      ClockStep m (.tick d) { m with now := m.now + d, heldTotal := m.heldTotal + d }
  | tickFree (d : ℕ) (hfree : ∀ n, (m.guards n).holds = false) :
      ClockStep m (.tick d) { m with now := m.now + d }
  | enter {n : ℕ} (hphase : m.guards n = .idle) : ClockStep m (.enter n) (m.enter n)
  | start {n : ℕ} (hphase : m.guards n = .starting) : ClockStep m (.start n) (m.start n)
  | leave {n : ℕ} (hphase : m.guards n = .held) : ClockStep m (.leave n) (m.leave n)
  | stop {n : ℕ} (hphase : m.guards n = .stopping) : ClockStep m (.stop n) (m.stop n)
  | notifyStart {n : ℕ} (hphase : m.guards n = .notifyingStart) :
      ClockStep m (.notify n) (m.notifyWaiters.setGuard n .held)
  | notifyStop {n : ℕ} (hphase : m.guards n = .notifyingStop) :
      ClockStep m (.notify n) (m.notifyWaiters.setGuard n .idle)
  | watch {m' : AgentClock} (hwatch : m.watch = some m') : ClockStep m .watch m'
  | finish (hphase : m.watchdog ≠ .returned) : ClockStep m .finish (m.setWatchdog .off)

namespace AgentClock

variable (m : AgentClock)

/-- The watchdog has counted the end of a pause twice, and has not polled the notification that
tells it so. -/
def Overcounts : Prop :=
  match m.watchdog with
  | .readExtra _ extra _ => m.heldTotal < m.pausedTotal + extra
  | .compared checked unpaused => m.started + m.heldTotal + unpaused < checked
  | .sawUnpaused checked unpaused => m.started + m.heldTotal + unpaused < checked
  | .polling deadline delay => m.started + m.timeout + m.heldTotal + delay < deadline
  | .sleeping deadline delay false => m.started + m.timeout + m.heldTotal + delay < deadline
  | _ => False

/-- A guard is counted when no other one is about to set the start of the pause; that is set when
no other one is about to take it; and a guard that goes notifies when the watchdog would miss
nothing. -/
def Orderly : ClockAct → Prop
  | .enter _ => ∀ n, m.guards n ≠ .starting
  | .start _ => ∀ n, m.guards n ≠ .stopping
  | .notify n => m.guards n = .notifyingStop → m.watchdog ≠ .sawPaused ∧
      (m.Overcounts → ∃ deadline delay, m.watchdog = .sleeping deadline delay false)
  | _ => True

def OrderlyStep (m : AgentClock) (act : ClockAct) (m' : AgentClock) : Prop :=
  ClockStep m act m' ∧ m.Orderly act

/-- The time of the run in which no guard was held. -/
def unpaused : ℕ := m.now - m.started - m.heldTotal

end AgentClock

end Chelix.Chat
