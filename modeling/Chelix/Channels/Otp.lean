import Chelix.Library.Run
import Mathlib.Algebra.Group.Nat.Defs

/-!
# One-time codes for self-approval

A peer that is not on the allowlist gets a code, and is approved when it sends the code back in
time.  Too many wrong codes lock the peer out for a while.  Challenges and lockouts that are over
are dropped when their peer calls again, or by an eviction.

Instants and durations are natural numbers of nanoseconds; the code that `initiate` generates is
one of its arguments.
-/

namespace Chelix.Channels

open Chelix.Library

/-- How long a code stays valid. -/
def otpTtl : ℕ := 300 * 10 ^ 9

/-- Wrong codes before a lockout. -/
def maxAttempts : ℕ := 3

/-- A pending challenge for a single peer. -/
structure OtpChallenge where
  code : String
  peerId : String
  username : Option String
  senderName : Option String
  createdAt : ℕ
  expiresAt : ℕ
  attempts : ℕ
  deriving DecidableEq

structure Lockout where
  lockedUntil : ℕ
  deriving DecidableEq

inductive OtpInitResult where
  | created (code : String)
  | alreadyPending
  | lockedOut
  deriving DecidableEq

inductive OtpVerifyResult where
  | approved
  | wrongCode (attemptsLeft : ℕ)
  | lockedOut
  | noPending
  | expired
  deriving DecidableEq

structure OtpState where
  challenges : String → Option OtpChallenge
  lockouts : String → Option Lockout
  cooldown : ℕ

namespace OtpState

def fromSecs (secs : ℕ) : ℕ := secs * 10 ^ 9

def new (cooldownSecs : ℕ) : OtpState where
  challenges _ := none
  lockouts _ := none
  cooldown := fromSecs cooldownSecs

variable (s : OtpState)

def setCooldown (cooldownSecs : ℕ) : OtpState := { s with cooldown := fromSecs cooldownSecs }

def setChallenge (peerId : String) (challenge : Option OtpChallenge) : OtpState :=
  { s with challenges := Function.update s.challenges peerId challenge }

def setLockout (peerId : String) (lockout : Option Lockout) : OtpState :=
  { s with lockouts := Function.update s.lockouts peerId lockout }

/-- The lockout of a peer at an instant, if it is not over. -/
def activeLockout (peerId : String) (now : ℕ) : Option Lockout :=
  (s.lockouts peerId).filter fun lockout => now < lockout.lockedUntil

/-- The part of `initiate` after the lockout check. -/
def challenge (peerId : String) (username senderName : Option String) (code : String) (now : ℕ) :
    OtpState × OtpInitResult :=
  let issue :=
    (s.setChallenge peerId
      (some ⟨code, peerId, username, senderName, now, now + otpTtl, 0⟩), OtpInitResult.created code)
  match s.challenges peerId with
  | some existing => if now < existing.expiresAt then (s, .alreadyPending) else issue
  | none => issue

def initiate (peerId : String) (username senderName : Option String) (code : String) (now : ℕ) :
    OtpState × OtpInitResult :=
  match s.activeLockout peerId now with
  | some _ => (s, .lockedOut)
  | none => (s.setLockout peerId none).challenge peerId username senderName code now

/-- The part of `verify` after the lockout check. -/
def attempt (peerId code : String) (now : ℕ) : OtpState × OtpVerifyResult :=
  match s.challenges peerId with
  | none => (s, .noPending)
  | some challenge =>
    if challenge.expiresAt ≤ now then (s.setChallenge peerId none, .expired)
    else if challenge.code = code then (s.setChallenge peerId none, .approved)
    else if maxAttempts ≤ challenge.attempts + 1 then
      ((s.setChallenge peerId none).setLockout peerId (some ⟨now + s.cooldown⟩), .lockedOut)
    else
      (s.setChallenge peerId (some { challenge with attempts := challenge.attempts + 1 }),
        .wrongCode (maxAttempts - (challenge.attempts + 1)))

def verify (peerId code : String) (now : ℕ) : OtpState × OtpVerifyResult :=
  match s.activeLockout peerId now with
  | some _ => (s, .lockedOut)
  | none => (s.setLockout peerId none).attempt peerId code now

/-- Remove expired challenges and elapsed lockouts. -/
def evictExpired (now : ℕ) : OtpState :=
  { s with
    challenges := fun peerId => (s.challenges peerId).filter fun challenge =>
      now < challenge.expiresAt
    lockouts := fun peerId => s.activeLockout peerId now }

end OtpState

/-! ## Calls -/

inductive OtpCall where
  | initiate (peerId : String) (username senderName : Option String) (code : String) (now : ℕ)
  | verify (peerId code : String) (now : ℕ)
  | evictExpired (now : ℕ)
  | setCooldown (cooldownSecs now : ℕ)
  deriving DecidableEq

inductive OtpAnswer where
  | initiate (result : OtpInitResult)
  | verify (result : OtpVerifyResult)
  | done
  deriving DecidableEq

def OtpCall.now : OtpCall → ℕ
  | .initiate _ _ _ _ now | .verify _ _ now | .evictExpired now | .setCooldown _ now => now

/-- The peer that makes a call. -/
def OtpCall.peer : OtpCall → Option String
  | .initiate peerId _ _ _ _ | .verify peerId _ _ => some peerId
  | .evictExpired _ | .setCooldown _ _ => none

def OtpState.call (s : OtpState) : OtpCall → OtpState × OtpAnswer
  | .initiate peerId username senderName code now =>
    let result := s.initiate peerId username senderName code now
    (result.1, .initiate result.2)
  | .verify peerId code now =>
    let result := s.verify peerId code now
    (result.1, .verify result.2)
  | .evictExpired now => (s.evictExpired now, .done)
  | .setCooldown cooldownSecs _ => (s.setCooldown cooldownSecs, .done)

/-- The state at an instant. -/
structure OtpWorld where
  state : OtpState
  clock : ℕ

def OtpWorld.new (cooldownSecs clock : ℕ) : OtpWorld where
  state := .new cooldownSecs
  clock := clock

/-- A call and its answer; time does not go back. -/
def OtpStep (w : OtpWorld) (e : OtpCall × OtpAnswer) (w' : OtpWorld) : Prop :=
  w.clock ≤ e.1.now ∧ w'.clock = e.1.now ∧ w.state.call e.1 = (w'.state, e.2)

theorem otpStep_call (w : OtpWorld) (c : OtpCall) (hnow : w.clock ≤ c.now) :
    OtpStep w (c, (w.state.call c).2) ⟨(w.state.call c).1, c.now⟩ :=
  ⟨hnow, rfl, rfl⟩

end Chelix.Channels
