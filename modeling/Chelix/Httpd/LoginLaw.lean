import Chelix.Httpd.LoginGuard
import Chelix.Library.Run

/-!
# What the login guard promises

The rules are stated over the calls made so far, with none of the guard's records.

The guard forgets: a cleanup drops the record of an address together with its number of bans,
and an account keeps only the first failure of an address within the window.  `Remembers` says
of one call that nothing is forgotten there that the rules count.  **`guard_keeps_rules`**: in a
run whose calls all meet it, `checkAt` answers by the rules.
-/

namespace Chelix.Httpd

open Option

open Chelix.Library List

variable {Ip : Type} [DecidableEq Ip]

inductive Call (Ip : Type) where
  | recordFailure (ip : Ip) (account : String) (now : ℕ)
  | recordSuccess (ip : Ip)
  | check (ip : Ip) (account : String) (now : ℕ)

namespace Call

/-- The clock after a call: the time the call reads, where it reads one. -/
def clock (before : ℕ) : Call Ip → ℕ
  | .recordFailure _ _ now => now
  | .recordSuccess _ => before
  | .check _ _ now => now

end Call

def LoginGuard.call (guard : LoginGuard Ip) : Call Ip → LoginGuard Ip
  | .recordFailure ip account now => guard.recordFailureAt ip account now
  | .recordSuccess ip => guard.recordSuccess ip
  | .check _ _ _ => guard

/-! ## The rules -/

/-- How long the `n`-th ban of an address lasts. -/
def banLength (n : ℕ) : ℕ := min (ipBanBase * 2 ^ (n - 1)) ipBanCap

structure IpHistory where
  /-- Failures since the last success or ban. -/
  failures : ℕ
  bans : ℕ
  /-- When the last ban began and its number, unless a success ended it. -/
  ban : Option (ℕ × ℕ)

namespace IpHistory

def start : IpHistory where
  failures := 0
  bans := 0
  ban := none

def fail (history : IpHistory) (now : ℕ) : IpHistory :=
  if history.failures + 1 = ipBanThreshold then
    { failures := 0, bans := history.bans + 1, ban := some (now, history.bans + 1) }
  else
    { history with failures := history.failures + 1 }

def succeed (history : IpHistory) : IpHistory := { history with failures := 0, ban := none }

def next (ip : Ip) (history : IpHistory) : Call Ip → IpHistory
  | .recordFailure other _ now => if other = ip then history.fail now else history
  | .recordSuccess other => if other = ip then history.succeed else history
  | .check _ _ _ => history

/-- What the calls say of one address. -/
def of (ip : Ip) (calls : List (Call Ip)) : IpHistory := calls.foldl (next ip) start

/-- When the ban that is running ends. -/
def ends (history : IpHistory) : Option ℕ :=
  history.ban.map fun ban => ban.1 + banLength ban.2

end IpHistory

structure AccountHistory (Ip : Type) where
  /-- Failures since the last lockout. -/
  failures : List (Ip × ℕ)
  lockedAt : Option ℕ

namespace AccountHistory

def start : AccountHistory Ip where
  failures := []
  lockedAt := none

/-- The distinct addresses that failed within the window. -/
def failing (history : AccountHistory Ip) (now : ℕ) : Finset Ip :=
  keys (within accountLockoutWindow now history.failures)

/-- The history with one failure more, before it is asked whether that locks the account. -/
def note (history : AccountHistory Ip) (ip : Ip) (now : ℕ) : AccountHistory Ip :=
  { history with failures := (ip, now) :: history.failures }

def fail (history : AccountHistory Ip) (ip : Ip) (now : ℕ) : AccountHistory Ip :=
  if accountLockoutIpThreshold ≤ ((history.note ip now).failing now).card then
    { failures := [], lockedAt := some now }
  else
    history.note ip now

def next (account : String) (history : AccountHistory Ip) : Call Ip → AccountHistory Ip
  | .recordFailure ip other now => if other = account then history.fail ip now else history
  | .recordSuccess _ => history
  | .check _ _ _ => history

/-- What the calls say of one account. -/
def of (account : String) (calls : List (Call Ip)) : AccountHistory Ip :=
  calls.foldl (next account) start

/-- When the lockout that is running ends. -/
def ends (history : AccountHistory Ip) : Option ℕ :=
  history.lockedAt.map fun since => since + accountLockoutDuration

end AccountHistory

/-- After the calls the address is banned at `now`, for the time `left`. -/
def Banned (calls : List (Call Ip)) (ip : Ip) (now left : ℕ) : Prop :=
  ∃ since n, (IpHistory.of ip calls).ban = some (since, n) ∧
    now + left = since + banLength n ∧ 0 < left

/-- After the calls the account is locked at `now`, for the time `left`. -/
def Locked (calls : List (Call Ip)) (account : String) (now left : ℕ) : Prop :=
  ∃ since, (AccountHistory.of account calls).lockedAt = some since ∧
    now + left = since + accountLockoutDuration ∧ 0 < left

variable {calls : List (Call Ip)} {ip : Ip} {now : ℕ}

theorem banned_iff {left : ℕ} :
    Banned calls ip now left ↔ remaining (IpHistory.of ip calls).ends now = some left := by
  rw [remaining_eq_some_iff, Banned, IpHistory.ends]
  simp only [map_eq_some_iff, Prod.exists]
  constructor
  · rintro ⟨since, n, hban, hleft, hpos⟩
    exact ⟨_, ⟨since, n, hban, rfl⟩, hleft, hpos⟩
  · rintro ⟨_, ⟨since, n, hban, rfl⟩, hleft, hpos⟩
    exact ⟨since, n, hban, hleft, hpos⟩

variable {account : String}

theorem locked_iff {left : ℕ} :
    Locked calls account now left ↔
      remaining (AccountHistory.of account calls).ends now = some left := by
  rw [remaining_eq_some_iff, Locked, AccountHistory.ends]
  simp only [map_eq_some_iff]
  constructor
  · rintro ⟨since, hlock, hleft, hpos⟩
    exact ⟨_, ⟨since, hlock, rfl⟩, hleft, hpos⟩
  · rintro ⟨_, ⟨since, hlock, rfl⟩, hleft, hpos⟩
    exact ⟨since, hlock, hleft, hpos⟩

/-! ## What one call must not forget -/

/-- The cleanup that a failure runs drops no record of another address that still counts
failures or bans. -/
def KeepsCounts (guard : LoginGuard Ip) (ip : Ip) (now : ℕ) : Prop :=
  guard.cleanupDue → ∀ other record, other ≠ ip → guard.ips other = some record →
    record.kept now = false → record.consecutiveFailures = 0 ∧ record.banCount = 0

/-- The number of bans fits its counter. -/
def CountsBans (guard : LoginGuard Ip) (ip : Ip) : Prop :=
  ∀ record, guard.ips ip = some record →
    ipBanThreshold ≤ record.consecutiveFailures + 1 → record.banCount + 1 < 2 ^ 32

/-- When this failure is the one of a third address within the window, two other addresses are
tracked with a failure within the window. -/
def TracksOthers (guard : LoginGuard Ip) (calls : List (Call Ip)) (ip : Ip) (account : String)
    (now : ℕ) : Prop :=
  accountLockoutIpThreshold ≤
      (((AccountHistory.of account calls).note ip now).failing now).card →
    accountLockoutIpThreshold ≤
      ((keys (within accountLockoutWindow now (guard.recentIps account))).erase ip).card + 1

/-- Nothing that the rules count is forgotten at this call. -/
def Remembers (guard : LoginGuard Ip) (calls : List (Call Ip)) : Call Ip → Prop
  | .recordFailure ip account now =>
    KeepsCounts guard ip now ∧ CountsBans guard ip ∧ TracksOthers guard calls ip account now
  | .recordSuccess _ => True
  | .check _ _ _ => True

/-! ## One step -/

/-- The guard, the calls made so far and the clock. -/
structure World (Ip : Type) where
  guard : LoginGuard Ip
  calls : List (Call Ip)
  clock : ℕ

namespace World

def start (clock : ℕ) : World Ip where
  guard := .new
  calls := []
  clock := clock

def next (world : World Ip) (call : Call Ip) : World Ip where
  guard := world.guard.call call
  calls := world.calls ++ [call]
  clock := call.clock world.clock

/-- The clock does not go back. -/
def Step (world : World Ip) (call : Call Ip) (after : World Ip) : Prop :=
  world.clock ≤ call.clock world.clock ∧ after = world.next call

/-- A step at which nothing that counts is forgotten. -/
def FaithfulStep (world : World Ip) (call : Call Ip) (after : World Ip) : Prop :=
  Step world call after ∧ Remembers world.guard world.calls call

end World

/-! ## One address follows its rules -/

theorem banDuration_eq (n : ℕ) : IpRecord.banDuration n = banLength n := by
  rw [IpRecord.banDuration, banLength, Nat.one_shiftLeft]
  rcases Nat.le_total (n - 1) 10 with h | h
  · rw [min_eq_left h]
  · rw [min_eq_right h]
    have hcap : ipBanCap ≤ ipBanBase * 2 ^ 10 := by decide
    have hpow : 2 ^ 10 ≤ 2 ^ (n - 1) := Nat.pow_le_pow_right (by decide) h
    rw [min_eq_right hcap, min_eq_right (hcap.trans (Nat.mul_le_mul_left _ hpow))]

/-- The record of an address, where there is one, says what its history says. -/
structure IpFollows (clock : ℕ) (record : Option IpRecord) (history : IpHistory) : Prop where
  failures : record.elim 0 IpRecord.consecutiveFailures = history.failures
  bans : record.elim 0 IpRecord.banCount = history.bans
  ban : AgreeFrom clock (record.bind IpRecord.bannedUntil) history.ends

namespace IpFollows

variable {clock now : ℕ} {record : Option IpRecord} {history : IpHistory}

theorem start (clock : ℕ) : IpFollows clock none .start :=
  ⟨rfl, rfl, AgreeFrom.refl _ _⟩

theorem mono (h : IpFollows clock record history) (hle : clock ≤ now) :
    IpFollows now record history :=
  ⟨h.failures, h.bans, h.ban.mono hle⟩

theorem getD_fresh (h : IpFollows clock record history) (now : ℕ) :
    IpFollows clock (some (record.getD (.fresh now))) history := by
  cases record with
  | none => exact ⟨h.failures, h.bans, h.ban⟩
  | some record => exact h

theorem fail {record : IpRecord} (h : IpFollows clock (some record) history)
    (hlt : history.failures < ipBanThreshold) (hle : clock ≤ now)
    (hcount : ipBanThreshold ≤ record.consecutiveFailures + 1 → record.banCount + 1 < 2 ^ 32) :
    IpFollows now (some (record.recordFailure now)) (history.fail now) := by
  have hfailures : record.consecutiveFailures = history.failures := h.failures
  have hbans : record.banCount = history.bans := h.bans
  rcases Nat.lt_or_ge (record.consecutiveFailures + 1) ipBanThreshold with hfew | hmany
  · rw [IpRecord.recordFailure_of_lt now hfew, IpHistory.fail, if_neg (by omega)]
    exact ⟨congrArg (· + 1) hfailures, hbans, h.ban.mono hle⟩
  · rw [IpRecord.recordFailure_of_le now hmany, IpHistory.fail, if_pos (by omega),
      Nat.mod_eq_of_lt (hcount hmany), banDuration_eq, hbans]
    exact ⟨rfl, rfl, AgreeFrom.refl _ _⟩

theorem succeed (h : IpFollows clock record history) :
    IpFollows clock (record.map IpRecord.recordSuccess) history.succeed := by
  cases record with
  | none | some record => exact ⟨rfl, h.bans, AgreeFrom.refl _ _⟩

theorem filter_kept (h : IpFollows now record history)
    (hfresh : ∀ r, record = some r → r.kept now = false →
      r.consecutiveFailures = 0 ∧ r.banCount = 0) :
    IpFollows now (record.filter (IpRecord.kept now)) history := by
  cases record with
  | none => exact h
  | some r =>
    by_cases hkept : r.kept now = true
    · rw [filter_some_pos hkept]
      exact h
    · have hdrop := Bool.eq_false_iff.mpr hkept
      rw [filter_some_neg hdrop]
      obtain ⟨hfailures, hbans⟩ := hfresh r rfl hdrop
      have hover : remaining r.bannedUntil now = none := by
        by_contra hsome
        apply hkept
        rw [IpRecord.kept, isSome_iff_ne_none.mpr hsome, Bool.true_or]
      exact ⟨hfailures.symm.trans h.failures, hbans.symm.trans h.bans, h.ban.forget hover⟩

end IpFollows

theorem IpHistory.failures_lt_of_next {history : IpHistory} (call : Call Ip)
    (h : history.failures < ipBanThreshold) : (history.next ip call).failures < ipBanThreshold := by
  have hfail : ∀ now, (history.fail now).failures < ipBanThreshold := by
    intro now
    rw [fail]
    split
    · exact (by decide : 0 < ipBanThreshold)
    · next hne => exact lt_of_le_of_ne h hne
  cases call with
  | recordFailure other account now =>
    show (if other = ip then history.fail now else history).failures < _
    split
    · exact hfail now
    · exact h
  | recordSuccess other =>
    show (if other = ip then history.succeed else history).failures < _
    split
    · exact (by decide : 0 < ipBanThreshold)
    · exact h
  | check other account now => exact h

theorem IpHistory.failures_lt (ip : Ip) (calls : List (Call Ip)) :
    (IpHistory.of ip calls).failures < ipBanThreshold := by
  induction calls using List.reverseRecOn with
  | nil => exact (by decide : 0 < ipBanThreshold)
  | append_singleton calls call ih =>
    rw [of, foldl_append]
    exact failures_lt_of_next call ih

/-! ## One account follows its rules -/

/-- The record of an account has its lockout, and tracks only failures of its history. -/
structure AccountFollows (clock : ℕ) (record : Option (AccountRecord Ip))
    (history : AccountHistory Ip) : Prop where
  tracked : ∀ entry ∈ record.elim [] AccountRecord.recentIps, entry ∈ history.failures
  lock : AgreeFrom clock (record.bind AccountRecord.lockedUntil) history.ends

namespace AccountFollows

variable {clock now : ℕ} {record : Option (AccountRecord Ip)} {history : AccountHistory Ip}

omit [DecidableEq Ip] in
theorem start (clock : ℕ) : AccountFollows clock none (.start : AccountHistory Ip) :=
  ⟨fun _ h => (nomatch h), AgreeFrom.refl _ _⟩

omit [DecidableEq Ip] in
theorem mono (h : AccountFollows clock record history) (hle : clock ≤ now) :
    AccountFollows now record history :=
  ⟨h.tracked, h.lock.mono hle⟩

omit [DecidableEq Ip] in
theorem getD_fresh (h : AccountFollows clock record history) :
    AccountFollows clock (some (record.getD .fresh)) history := by
  cases record with
  | none => exact ⟨h.tracked, h.lock⟩
  | some record => exact h

theorem keys_track_subset {record : AccountRecord Ip} (ip : Ip)
    (h : AccountFollows clock (some record) history) :
    keys (AccountRecord.track (record.prune now).recentIps ip now) ⊆
      (history.note ip now).failing now := by
  apply keys_subset
  intro entry hentry
  rw [mem_within, AccountHistory.note, mem_cons]
  rcases AccountRecord.mem_track hentry with hold | rfl
  · obtain ⟨hmem, hyoung⟩ := mem_within.mp hold
    exact ⟨.inr (h.tracked entry hmem), hyoung⟩
  · refine ⟨.inl rfl, ?_⟩
    rw [Nat.sub_self]
    decide

theorem fail {record : AccountRecord Ip} (h : AccountFollows clock (some record) history)
    (hle : clock ≤ now)
    (hothers : accountLockoutIpThreshold ≤ ((history.note ip now).failing now).card →
      accountLockoutIpThreshold ≤
        ((keys (within accountLockoutWindow now record.recentIps)).erase ip).card + 1) :
    AccountFollows now (some (record.recordFailure ip now)) (history.fail ip now) := by
  have hsub : (keys (AccountRecord.track (record.prune now).recentIps ip now)).card ≤
      ((history.note ip now).failing now).card :=
    Finset.card_le_card (h.keys_track_subset ip)
  by_cases hlock : accountLockoutIpThreshold ≤
      (keys (AccountRecord.track (record.prune now).recentIps ip now)).card
  · rw [AccountRecord.recordFailure_of_le hlock, AccountHistory.fail,
      if_pos (hlock.trans hsub)]
    exact ⟨fun _ h => (nomatch h), AgreeFrom.refl _ _⟩
  · have hfew : ¬ accountLockoutIpThreshold ≤ ((history.note ip now).failing now).card := by
      intro hthree
      apply hlock
      rw [AccountRecord.keys_track, card_insert_eq_card_erase_add_one]
      exact hothers hthree
    rw [AccountRecord.recordFailure_of_lt hlock, AccountHistory.fail, if_neg hfew]
    refine ⟨?_, h.lock.mono hle⟩
    intro entry hentry
    show entry ∈ (ip, now) :: history.failures
    rcases AccountRecord.mem_track hentry with hold | rfl
    · exact mem_cons_of_mem _ (h.tracked entry (mem_within.mp hold).1)
    · exact mem_cons_self

omit [DecidableEq Ip] in
/-- Cleanup drops only what is not tracked and not locked. -/
theorem cleanup (h : AccountFollows now record history) :
    AccountFollows now ((record.map fun r => r.prune now).filter (AccountRecord.kept now))
      history := by
  cases record with
  | none => exact h
  | some r =>
    rw [map_some]
    by_cases hkept : (r.prune now).kept now = true
    · rw [filter_some_pos hkept]
      exact ⟨fun entry hentry => h.tracked entry (mem_within.mp hentry).1, h.lock⟩
    · have hdrop := Bool.eq_false_iff.mpr hkept
      rw [filter_some_neg hdrop]
      have hover : remaining r.lockedUntil now = none := by
        by_contra hsome
        apply hkept
        rw [AccountRecord.kept, Bool.or_eq_true]
        exact .inr (isSome_iff_ne_none.mpr hsome)
      exact ⟨fun _ h => (nomatch h), h.lock.forget hover⟩

end AccountFollows

/-! ## The guard follows the rules -/

/-- Every record says what its history says. -/
structure Follows (world : World Ip) : Prop where
  ips : ∀ ip, IpFollows world.clock (world.guard.ips ip) (.of ip world.calls)
  accounts : ∀ account,
    AccountFollows world.clock (world.guard.accounts account) (.of account world.calls)

variable {world : World Ip}

namespace Follows

theorem start (clock : ℕ) : Follows (World.start clock : World Ip) :=
  ⟨fun _ => IpFollows.start clock, fun _ => AccountFollows.start clock⟩

theorem noteFailure (h : Follows world) (hle : world.clock ≤ now)
    (hremembers : Remembers world.guard world.calls (.recordFailure ip account now)) :
    Follows
      { guard := world.guard.noteFailure ip account now
        calls := world.calls ++ [.recordFailure ip account now]
        clock := now } := by
  obtain ⟨-, hcounts, htracks⟩ := hremembers
  constructor
  · intro other
    rw [IpHistory.of, foldl_append]
    by_cases hother : other = ip
    · subst hother
      rw [LoginGuard.noteFailure_ips_self]
      show IpFollows _ _ (if other = other then _ else _)
      rw [if_pos rfl]
      refine ((h.ips other).getD_fresh now).fail (IpHistory.failures_lt other _) hle ?_
      intro hmany
      cases hrecord : world.guard.ips other with
      | none => exact (by decide : 0 + 1 < 2 ^ 32)
      | some record =>
        rw [hrecord] at hmany
        exact hcounts record hrecord hmany
    · rw [LoginGuard.noteFailure_ips_of_ne _ account now hother]
      show IpFollows _ _ (if ip = other then _ else _)
      rw [if_neg (Ne.symm hother)]
      exact (h.ips other).mono hle
  · intro other
    rw [AccountHistory.of, foldl_append]
    by_cases hother : other = account
    · subst hother
      rw [LoginGuard.noteFailure_accounts_self]
      show AccountFollows _ _ (if other = other then _ else _)
      rw [if_pos rfl]
      refine ((h.accounts other).getD_fresh).fail hle ?_
      intro hthree
      have hothers := htracks hthree
      cases hrecord : world.guard.accounts other with
      | none | some record =>
        rw [LoginGuard.recentIps, hrecord] at hothers
        exact hothers
    · rw [LoginGuard.noteFailure_accounts_of_ne _ ip now hother]
      show AccountFollows _ _ (if account = other then _ else _)
      rw [if_neg (Ne.symm hother)]
      exact (h.accounts other).mono hle

theorem cleanup (h : Follows world)
    (hfresh : ∀ ip record, world.guard.ips ip = some record → record.kept world.clock = false →
      record.consecutiveFailures = 0 ∧ record.banCount = 0) :
    Follows { world with guard := world.guard.cleanup world.clock } :=
  ⟨fun ip => (h.ips ip).filter_kept (hfresh ip), fun account => (h.accounts account).cleanup⟩

theorem recordFailureAt (h : Follows world) (hle : world.clock ≤ now)
    (hremembers : Remembers world.guard world.calls (.recordFailure ip account now)) :
    Follows (world.next (.recordFailure ip account now)) := by
  have hnoted := h.noteFailure hle hremembers
  obtain ⟨hkeeps, -, -⟩ := hremembers
  by_cases hdue : world.guard.cleanupDue
  · have heq : world.guard.recordFailureAt ip account now =
        (world.guard.noteFailure ip account now).cleanup now := if_pos hdue
    rw [World.next, LoginGuard.call, heq]
    refine hnoted.cleanup ?_
    intro other record hrecord hdrop
    by_cases hother : other = ip
    · -- The address that has just failed is kept.
      subst hother
      rw [LoginGuard.noteFailure_ips_self, Option.some.injEq] at hrecord
      rw [← hrecord, IpRecord.kept_recordFailure] at hdrop
      cases hdrop
    · rw [LoginGuard.noteFailure_ips_of_ne _ account now hother] at hrecord
      exact hkeeps hdue other record hother hrecord hdrop
  · have heq : world.guard.recordFailureAt ip account now =
        world.guard.noteFailure ip account now := if_neg hdue
    rw [World.next, LoginGuard.call, heq]
    exact hnoted

theorem recordSuccess (h : Follows world) (ip : Ip) : Follows (world.next (.recordSuccess ip)) := by
  constructor
  · intro other
    show IpFollows world.clock ((world.guard.recordSuccess ip).ips other)
      (IpHistory.of other (world.calls ++ [.recordSuccess ip]))
    rw [IpHistory.of, foldl_append]
    by_cases hother : other = ip
    · subst hother
      rw [LoginGuard.recordSuccess_ips_self]
      show IpFollows _ _ (if other = other then _ else _)
      rw [if_pos rfl]
      exact (h.ips other).succeed
    · rw [LoginGuard.recordSuccess_ips_of_ne _ hother]
      show IpFollows _ _ (if ip = other then _ else _)
      rw [if_neg (Ne.symm hother)]
      exact h.ips other
  · intro account
    show AccountFollows world.clock (world.guard.accounts account)
      (AccountHistory.of account (world.calls ++ [.recordSuccess ip]))
    rw [AccountHistory.of, foldl_append]
    exact h.accounts account

theorem check (h : Follows world) (ip : Ip) (account : String) (hle : world.clock ≤ now) :
    Follows (world.next (.check ip account now)) := by
  constructor
  · intro other
    show IpFollows now (world.guard.ips other)
      (IpHistory.of other (world.calls ++ [.check ip account now]))
    rw [IpHistory.of, foldl_append]
    exact (h.ips other).mono hle
  · intro other
    show AccountFollows now (world.guard.accounts other)
      (AccountHistory.of other (world.calls ++ [.check ip account now]))
    rw [AccountHistory.of, foldl_append]
    exact (h.accounts other).mono hle

theorem step {after : World Ip} {call : Call Ip} (h : Follows world)
    (hstep : world.FaithfulStep call after) : Follows after := by
  obtain ⟨⟨hle, rfl⟩, hremembers⟩ := hstep
  cases call with
  | recordFailure ip account now => exact h.recordFailureAt hle hremembers
  | recordSuccess ip => exact h.recordSuccess ip
  | check ip account now => exact h.check ip account hle

theorem checkAt (h : Follows world) (ip : Ip) (account : String) (hle : world.clock ≤ now) :
    world.guard.checkAt ip account now =
      match remaining (IpHistory.of ip world.calls).ends now with
      | some left => some (.ipBanned left)
      | none =>
        (remaining (AccountHistory.of account world.calls).ends now).map .accountLocked := by
  rw [← (h.ips ip).ban now hle, ← (h.accounts account).lock now hle]
  rfl

end Follows

theorem World.calls_of_run {Step : World Ip → Call Ip → World Ip → Prop}
    (hstep : ∀ world call after, Step world call after → after = world.next call)
    {first last : World Ip} (hrun : Run Step first calls last) :
    last.calls = first.calls ++ calls := by
  induction hrun with
  | nil => rw [append_nil]
  | @cons world after last call calls hhead _ ih =>
    rw [ih, hstep _ _ _ hhead, World.next, append_assoc, singleton_append]

/-- **Bans and lockouts follow the rules** in every run at whose calls nothing that the rules
count is forgotten. -/
theorem guard_keeps_rules {clock : ℕ} {calls : List (Call Ip)} {world : World Ip}
    (hrun : Run World.FaithfulStep (World.start clock) calls world) (ip : Ip)
    (account : String) {now : ℕ} (hnow : world.clock ≤ now) :
    (∀ left, world.guard.checkAt ip account now = some (.ipBanned left) ↔
        Banned calls ip now left) ∧
      (∀ left, world.guard.checkAt ip account now = some (.accountLocked left) ↔
        (∀ left', ¬ Banned calls ip now left') ∧ Locked calls account now left) ∧
      (world.guard.checkAt ip account now = none ↔
        (∀ left, ¬ Banned calls ip now left) ∧ ∀ left, ¬ Locked calls account now left) := by
  have hfollows : Follows world :=
    hrun.invariant (fun _ _ _ h hstep => h.step hstep) (Follows.start clock)
  have hcalls : world.calls = calls :=
    World.calls_of_run (fun _ _ _ hstep => hstep.1.2) hrun
  have hcheck := hfollows.checkAt ip account hnow
  rw [hcalls] at hcheck
  simp only [banned_iff, locked_iff, hcheck]
  cases hban : remaining (IpHistory.of ip calls).ends now with
  | some left => simp [eq_comm]
  | none =>
    cases hlock : remaining (AccountHistory.of account calls).ends now with
    | some left => simp [eq_comm]
    | none => simp

/-! ## Runs on fixed calls -/

/-- The clock of the calls does not go back. -/
def Clocked : ℕ → List (Call Ip) → Prop
  | _, [] => True
  | before, call :: calls => before ≤ call.clock before ∧ Clocked (call.clock before) calls

instance decidableClocked : (before : ℕ) → (calls : List (Call Ip)) →
    Decidable (Clocked before calls)
  | _, [] => .isTrue trivial
  | before, call :: calls =>
    have := decidableClocked (call.clock before) calls
    inferInstanceAs (Decidable (_ ∧ _))

theorem run_foldl (h : Clocked world.clock calls) :
    Run World.Step world calls (calls.foldl World.next world) := by
  induction calls generalizing world with
  | nil => exact .nil world
  | cons call calls ih =>
    obtain ⟨hle, hrest⟩ := h
    exact .cons ⟨hle, rfl⟩ (ih hrest)

def minutes (n : ℕ) : ℕ := fromSecs (n * 60)

/-- Three addresses fail for one account. -/
def threeFailures : List (Call ℕ) :=
  [.recordFailure 1 "admin" 0, .recordFailure 2 "admin" 0, .recordFailure 3 "admin" 0]

theorem threeFailures_run :
    Run World.FaithfulStep (World.start 0) threeFailures
      (threeFailures.foldl World.next (World.start 0)) := by
  have hfirst : ∀ {world : World ℕ} {ip : ℕ} {now : ℕ}, world.clock ≤ now →
      ¬ world.guard.cleanupDue → world.guard.ips ip = none →
      TracksOthers world.guard world.calls ip "admin" now →
      World.FaithfulStep world (.recordFailure ip "admin" now)
        (world.next (.recordFailure ip "admin" now)) := by
    intro world ip now hle hdue hnone htracks
    refine ⟨⟨hle, rfl⟩, fun h => absurd h hdue, ?_, htracks⟩
    intro record hrecord
    rw [hnone] at hrecord
    cases hrecord
  refine .cons (hfirst ?_ ?_ ?_ ?_) (.cons (hfirst ?_ ?_ ?_ ?_)
    (.cons (hfirst ?_ ?_ ?_ ?_) (.nil _)))
  all_goals first | decide | (intro h; revert h; decide)

theorem guard_keeps_rules_locked :
    (threeFailures.foldl World.next (World.start 0)).guard.checkAt 4 "admin" 0 =
      some (.accountLocked (minutes 15)) ∧
    Locked threeFailures "admin" 0 (minutes 15) := by
  have hrules := (guard_keeps_rules threeFailures_run 4 "admin" (le_refl 0)).2.1 (minutes 15)
  have hanswer : (threeFailures.foldl World.next (World.start 0)).guard.checkAt 4 "admin" 0 =
      some (.accountLocked (minutes 15)) := by decide
  exact ⟨hanswer, (hrules.mp hanswer).2⟩

/-- The first address is banned, stays away until a cleanup, and fails again. -/
def banForgotten : List (Call ℕ) :=
  List.replicate 10 (.recordFailure 1 "admin" (minutes 0)) ++
    List.replicate 118 (.recordFailure 2 "admin" (minutes 6)) ++
    List.replicate 10 (.recordFailure 1 "admin" (minutes 7))

/-- The first address fails twice, and two others fail within the window of its second time. -/
def failureForgotten : List (Call ℕ) :=
  [.recordFailure 1 "admin" (minutes 0), .recordFailure 1 "admin" (minutes 14),
    .recordFailure 2 "admin" (minutes 16), .recordFailure 3 "admin" (minutes 17)]

/-- The second ban of an address lasts as long as its first, and an account is not locked
although three addresses failed for it within the window. -/
theorem guard_forgets :
    (∃ world, Run World.Step (World.start 0) banForgotten world ∧
      Banned banForgotten 1 (minutes 7) (minutes 10) ∧
      world.guard.checkAt 1 "admin" (minutes 7) = some (.ipBanned (minutes 5))) ∧
    ∃ world, Run World.Step (World.start 0) failureForgotten world ∧
      Locked failureForgotten "admin" (minutes 17) (minutes 15) ∧
      world.guard.checkAt 4 "admin" (minutes 17) = none := by
  refine ⟨⟨_, run_foldl (by decide +kernel), ?_, by decide +kernel⟩,
    ⟨_, run_foldl (by decide), ?_, by decide⟩⟩
  · exact ⟨minutes 7, 2, by decide +kernel, by decide, by decide⟩
  · exact ⟨minutes 17, by decide, by decide, by decide⟩

end Chelix.Httpd
