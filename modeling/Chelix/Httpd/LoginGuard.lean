import Chelix.Library.Expiry
import Mathlib.Algebra.Order.Ring.Nat

/-!
# The login guard

Two defences against guessing passwords.  An address that fails often enough in a row is banned,
each ban longer than the one before; an account for which several addresses fail within a window
is locked.  Both records live in memory, and every so many failures a cleanup drops those that
it takes for expired.

Instants and durations are natural numbers of nanoseconds.
-/

namespace Chelix.Httpd

open Chelix.Library

/-! ## Tuning constants -/

def fromSecs (secs : ℕ) : ℕ := secs * 1000000000

/-- Consecutive failures from a single address before it is banned. -/
def ipBanThreshold : ℕ := 10

/-- Base ban duration (first offence). -/
def ipBanBase : ℕ := fromSecs (5 * 60)

/-- Maximum ban duration after repeated escalations. -/
def ipBanCap : ℕ := fromSecs (24 * 60 * 60)

/-- Distinct addresses that must fail for one account to lock it. -/
def accountLockoutIpThreshold : ℕ := 3

def accountLockoutWindow : ℕ := fromSecs (15 * 60)

def accountLockoutDuration : ℕ := fromSecs (15 * 60)

/-- Run the cleanup every so many failures. -/
def cleanupEvery : ℕ := 128

/-! ## One address -/

structure IpRecord where
  /-- Consecutive failures (reset on success). -/
  consecutiveFailures : ℕ
  /-- Number of bans, a 32-bit counter. -/
  banCount : ℕ
  bannedUntil : Option ℕ
  lastFailureAt : ℕ
  deriving DecidableEq

namespace IpRecord

def fresh (now : ℕ) : IpRecord where
  consecutiveFailures := 0
  banCount := 0
  bannedUntil := none
  lastFailureAt := now

/-- How long the ban with this count lasts. -/
def banDuration (banCount : ℕ) : ℕ :=
  min (ipBanBase * 1 <<< min (banCount - 1) 10) ipBanCap

def recordFailure (record : IpRecord) (now : ℕ) : IpRecord :=
  let failures := record.consecutiveFailures + 1
  if ipBanThreshold ≤ failures then
    let banCount := (record.banCount + 1) % 2 ^ 32
    { consecutiveFailures := 0
      banCount
      bannedUntil := some (now + banDuration banCount)
      lastFailureAt := now }
  else
    { record with consecutiveFailures := failures, lastFailureAt := now }

def recordSuccess (record : IpRecord) : IpRecord :=
  { record with consecutiveFailures := 0, bannedUntil := none }

/-- Cleanup keeps the record of an address that is banned or has failed recently. -/
def kept (now : ℕ) (record : IpRecord) : Bool :=
  (remaining record.bannedUntil now).isSome ||
    (decide (0 < record.consecutiveFailures) &&
      decide (now - record.lastFailureAt < accountLockoutWindow))

theorem recordFailure_of_lt {record : IpRecord} (now : ℕ)
    (h : record.consecutiveFailures + 1 < ipBanThreshold) :
    record.recordFailure now =
      { record with
        consecutiveFailures := record.consecutiveFailures + 1, lastFailureAt := now } :=
  if_neg (by omega)

theorem recordFailure_of_le {record : IpRecord} (now : ℕ)
    (h : ipBanThreshold ≤ record.consecutiveFailures + 1) :
    record.recordFailure now =
      { consecutiveFailures := 0
        banCount := (record.banCount + 1) % 2 ^ 32
        bannedUntil := some (now + banDuration ((record.banCount + 1) % 2 ^ 32))
        lastFailureAt := now } :=
  if_pos h

theorem banDuration_pos (banCount : ℕ) : 0 < banDuration banCount := by
  have hshift : 0 < 1 <<< min (banCount - 1) 10 := by
    rw [Nat.one_shiftLeft]
    exact Nat.two_pow_pos _
  refine lt_min ?_ (by decide)
  exact Nat.mul_pos (by decide) hshift

theorem kept_recordFailure (record : IpRecord) (now : ℕ) :
    (record.recordFailure now).kept now = true := by
  rcases Nat.lt_or_ge (record.consecutiveFailures + 1) ipBanThreshold with h | h
  · rw [recordFailure_of_lt now h, kept, Bool.or_eq_true]
    right
    simp only [Nat.succ_pos, decide_true, Nat.sub_self, Bool.true_and]
    decide
  · rw [recordFailure_of_le now h, kept, Bool.or_eq_true]
    left
    have hpos := banDuration_pos ((record.banCount + 1) % 2 ^ 32)
    rw [remaining, Option.bind_some, if_pos (by omega)]
    rfl

end IpRecord

/-! ## One account -/

structure AccountRecord (Ip : Type) where
  /-- Each address with its first failure within the window. -/
  recentIps : List (Ip × ℕ)
  lockedUntil : Option ℕ

namespace AccountRecord

variable {Ip : Type}

def fresh : AccountRecord Ip where
  recentIps := []
  lockedUntil := none

/-- Prune the addresses outside the window. -/
def prune (record : AccountRecord Ip) (now : ℕ) : AccountRecord Ip :=
  { record with recentIps := within accountLockoutWindow now record.recentIps }

/-- Cleanup keeps a pruned record that still tracks an address or is locked. -/
def kept (now : ℕ) (record : AccountRecord Ip) : Bool :=
  !record.recentIps.isEmpty || (remaining record.lockedUntil now).isSome

variable [DecidableEq Ip]

/-- Add the address unless it is tracked already. -/
def track (recentIps : List (Ip × ℕ)) (ip : Ip) (now : ℕ) : List (Ip × ℕ) :=
  if recentIps.any fun entry => entry.1 = ip then recentIps else recentIps ++ [(ip, now)]

def recordFailure (record : AccountRecord Ip) (ip : Ip) (now : ℕ) : AccountRecord Ip :=
  let recentIps := track (record.prune now).recentIps ip now
  if accountLockoutIpThreshold ≤ (keys recentIps).card then
    { recentIps := [], lockedUntil := some (now + accountLockoutDuration) }
  else
    { record with recentIps }

theorem mem_track {recentIps : List (Ip × ℕ)} {ip : Ip} {now : ℕ} {entry : Ip × ℕ}
    (h : entry ∈ track recentIps ip now) : entry ∈ recentIps ∨ entry = (ip, now) := by
  rw [track] at h
  split at h
  · exact .inl h
  · simpa using h

theorem keys_track (recentIps : List (Ip × ℕ)) (ip : Ip) (now : ℕ) :
    keys (track recentIps ip now) = insert ip (keys recentIps) := by
  rw [track]
  split
  · next h =>
      obtain ⟨⟨found, t⟩, hmem, hip⟩ := List.any_eq_true.mp h
      have hfound : found = ip := of_decide_eq_true hip
      subst hfound
      exact (Finset.insert_eq_of_mem (mem_keys.mpr ⟨t, hmem⟩)).symm
  · ext other
    simp only [mem_keys, List.mem_append, List.mem_singleton, Prod.mk.injEq, Finset.mem_insert]
    constructor
    · rintro ⟨t, h | ⟨rfl, -⟩⟩
      · exact .inr ⟨t, h⟩
      · exact .inl rfl
    · rintro (rfl | ⟨t, h⟩)
      · exact ⟨now, .inr ⟨rfl, rfl⟩⟩
      · exact ⟨t, .inl h⟩

theorem recordFailure_of_le {record : AccountRecord Ip} {ip : Ip} {now : ℕ}
    (h : accountLockoutIpThreshold ≤ (keys (track (record.prune now).recentIps ip now)).card) :
    record.recordFailure ip now =
      { recentIps := [], lockedUntil := some (now + accountLockoutDuration) } :=
  if_pos h

theorem recordFailure_of_lt {record : AccountRecord Ip} {ip : Ip} {now : ℕ}
    (h : ¬ accountLockoutIpThreshold ≤
      (keys (track (record.prune now).recentIps ip now)).card) :
    record.recordFailure ip now =
      { record with recentIps := track (record.prune now).recentIps ip now } :=
  if_neg h

end AccountRecord

/-! ## The guard -/

/-- Why an attempt is rejected, and after what time it may be tried again. -/
inductive BlockReason where
  | ipBanned (retryAfter : ℕ)
  | accountLocked (retryAfter : ℕ)
  deriving DecidableEq

structure LoginGuard (Ip : Type) where
  ips : Ip → Option IpRecord
  accounts : String → Option (AccountRecord Ip)
  /-- A 64-bit counter of the recorded failures. -/
  calls : ℕ

namespace LoginGuard

variable {Ip : Type}

def new : LoginGuard Ip where
  ips := fun _ => none
  accounts := fun _ => none
  calls := 0

def bannedUntil (guard : LoginGuard Ip) (ip : Ip) : Option ℕ :=
  (guard.ips ip).bind IpRecord.bannedUntil

def lockedUntil (guard : LoginGuard Ip) (account : String) : Option ℕ :=
  (guard.accounts account).bind AccountRecord.lockedUntil

/-- The addresses tracked for an account. -/
def recentIps (guard : LoginGuard Ip) (account : String) : List (Ip × ℕ) :=
  (guard.accounts account).elim [] AccountRecord.recentIps

def checkAt (guard : LoginGuard Ip) (ip : Ip) (account : String) (now : ℕ) :
    Option BlockReason :=
  match remaining (guard.bannedUntil ip) now with
  | some retryAfter => some (.ipBanned retryAfter)
  | none => (remaining (guard.lockedUntil account) now).map .accountLocked

def cleanup (guard : LoginGuard Ip) (now : ℕ) : LoginGuard Ip :=
  { guard with
    ips := fun ip => (guard.ips ip).filter (IpRecord.kept now)
    accounts := fun account =>
      ((guard.accounts account).map fun record => record.prune now).filter
        (AccountRecord.kept now) }

/-- The next failure runs the cleanup. -/
def cleanupDue (guard : LoginGuard Ip) : Prop := (guard.calls + 1) % 2 ^ 64 % cleanupEvery = 0

instance (guard : LoginGuard Ip) : Decidable guard.cleanupDue := by
  unfold cleanupDue
  infer_instance

variable [DecidableEq Ip]

/-- The two records and the counter, before any cleanup. -/
def noteFailure (guard : LoginGuard Ip) (ip : Ip) (account : String) (now : ℕ) :
    LoginGuard Ip where
  ips := Function.update guard.ips ip
    (some (((guard.ips ip).getD (.fresh now)).recordFailure now))
  accounts := Function.update guard.accounts account
    (some (((guard.accounts account).getD .fresh).recordFailure ip now))
  calls := (guard.calls + 1) % 2 ^ 64

variable (guard : LoginGuard Ip)

theorem noteFailure_ips_self (ip : Ip) (account : String) (now : ℕ) :
    (guard.noteFailure ip account now).ips ip =
      some (((guard.ips ip).getD (.fresh now)).recordFailure now) :=
  Function.update_self ..

theorem noteFailure_ips_of_ne {ip other : Ip} (account : String) (now : ℕ) (h : other ≠ ip) :
    (guard.noteFailure ip account now).ips other = guard.ips other :=
  Function.update_of_ne h ..

theorem noteFailure_accounts_self (ip : Ip) (account : String) (now : ℕ) :
    (guard.noteFailure ip account now).accounts account =
      some (((guard.accounts account).getD .fresh).recordFailure ip now) :=
  Function.update_self ..

theorem noteFailure_accounts_of_ne (ip : Ip) {account other : String}
    (now : ℕ) (h : other ≠ account) :
    (guard.noteFailure ip account now).accounts other = guard.accounts other :=
  Function.update_of_ne h ..

def recordFailureAt (guard : LoginGuard Ip) (ip : Ip) (account : String) (now : ℕ) :
    LoginGuard Ip :=
  if guard.cleanupDue then (guard.noteFailure ip account now).cleanup now
  else guard.noteFailure ip account now

/-- A success clears the failures of the address and its ban. -/
def recordSuccess (guard : LoginGuard Ip) (ip : Ip) : LoginGuard Ip :=
  { guard with
    ips := Function.update guard.ips ip ((guard.ips ip).map IpRecord.recordSuccess) }

theorem recordSuccess_ips_self (ip : Ip) :
    (guard.recordSuccess ip).ips ip = (guard.ips ip).map IpRecord.recordSuccess :=
  Function.update_self ..

theorem recordSuccess_ips_of_ne {ip other : Ip} (h : other ≠ ip) :
    (guard.recordSuccess ip).ips other = guard.ips other :=
  Function.update_of_ne h ..

end LoginGuard

end Chelix.Httpd
