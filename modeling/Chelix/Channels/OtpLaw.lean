import Chelix.Channels.Otp

/-!
# What one-time codes protect

The challenge of a peer is read off the history of calls and answers, and so are its lockouts.
-/

namespace Chelix.Channels

open Option

open Chelix.Library List OtpState

abbrev OtpHistory := List (OtpCall × OtpAnswer)

/-! ## Reading a history -/

/-- An entry that uses the challenge of a peer or creates a new one. -/
def endsChallenge (peerId : String) : OtpCall × OtpAnswer → Bool
  | (.initiate peer _ _ _ _, .initiate (.created _)) => peer = peerId
  | (.verify peer _ _, .verify .approved) => peer = peerId
  | _ => false

/-- A code of a peer that is not the given one. -/
def isWrongCode (peerId code : String) : OtpCall × OtpAnswer → Bool
  | (.verify peer sent _, _) => peer = peerId && sent ≠ code
  | _ => false

/-- The most recent challenge of a peer has this code, was created at this time and is not used;
the last number counts the wrong codes that came after it. -/
def Current (h : OtpHistory) (peerId code : String) (createdAt wrong : ℕ) : Prop :=
  ∃ pre username senderName post,
    h = pre ++ (.initiate peerId username senderName code createdAt, .initiate (.created code)) ::
      post ∧
    (∀ e ∈ post, endsChallenge peerId e = false) ∧ post.countP (isWrongCode peerId code) = wrong

/-- The cooldown in force after a history. -/
def cooldownAfter (cooldownSecs : ℕ) (h : OtpHistory) : ℕ :=
  h.foldl (fun cooldown e =>
    match e.1 with
    | .setCooldown secs _ => OtpState.fromSecs secs
    | _ => cooldown) (OtpState.fromSecs cooldownSecs)

/-- Some code of a peer was the third wrong one for its challenge, and the cooldown that was then
in force ends at this time. -/
def ThirdWrong (cooldownSecs : ℕ) (h : OtpHistory) (peerId : String) (lockedUntil : ℕ) : Prop :=
  ∃ pre sent now answer post code createdAt,
    h = pre ++ (.verify peerId sent now, answer) :: post ∧ Current pre peerId code createdAt 2 ∧
    sent ≠ code ∧ now < createdAt + otpTtl ∧ lockedUntil = now + cooldownAfter cooldownSecs pre

/-- A peer is inside a lockout. -/
def InLockout (cooldownSecs : ℕ) (h : OtpHistory) (peerId : String) (now : ℕ) : Prop :=
  ∃ lockedUntil, ThirdWrong cooldownSecs h peerId lockedUntil ∧ now < lockedUntil

variable {h : OtpHistory} {e : OtpCall × OtpAnswer} {peerId code code' : String}
  {createdAt createdAt' wrong wrong' cooldownSecs lockedUntil : ℕ}

theorem current_snoc_iff :
    Current (h ++ [e]) peerId code createdAt wrong ↔
      (∃ username senderName, e = (.initiate peerId username senderName code createdAt,
        .initiate (.created code)) ∧ wrong = 0) ∨
      endsChallenge peerId e = false ∧ ∃ before, Current h peerId code createdAt before ∧
        wrong = before + if isWrongCode peerId code e then 1 else 0 := by
  constructor
  · rintro ⟨pre, username, senderName, post, heq, hends, hwrong⟩
    rcases post.eq_nil_or_concat' with rfl | ⟨post, last, rfl⟩
    · obtain ⟨-, hlast⟩ := append_inj' heq rfl
      cases hlast
      exact .inl ⟨username, senderName, rfl, hwrong.symm⟩
    · rw [← cons_append, ← append_assoc] at heq
      obtain ⟨rfl, hlast⟩ := append_inj' heq rfl
      cases hlast
      refine .inr ⟨hends e (by simp), _, ⟨pre, username, senderName, post, rfl,
        fun e he => hends e (mem_append_left _ he), rfl⟩, ?_⟩
      rw [← hwrong, countP_append, countP_singleton]
  · rintro (⟨username, senderName, rfl, rfl⟩ | ⟨hends, before, hcurrent, rfl⟩)
    · exact ⟨h, username, senderName, [], rfl, by simp, rfl⟩
    · obtain ⟨pre, username, senderName, post, rfl, hpost, rfl⟩ := hcurrent
      refine ⟨pre, username, senderName, post ++ [e], by simp, ?_, ?_⟩
      · intro e' he'
        rcases mem_append.mp he' with he' | he'
        · exact hpost e' he'
        · rw [mem_singleton.mp he']
          exact hends
      · rw [countP_append, countP_singleton]

theorem not_current_nil : ¬ Current [] peerId code createdAt wrong := by
  rintro ⟨pre, username, senderName, post, heq, -⟩
  simp at heq

theorem Current.unique (h₁ : Current h peerId code createdAt wrong)
    (h₂ : Current h peerId code' createdAt' wrong') :
    code' = code ∧ createdAt' = createdAt ∧ wrong' = wrong := by
  induction h using List.reverseRecOn generalizing wrong wrong' with
  | nil => exact absurd h₁ not_current_nil
  | append_singleton h e ih =>
    rcases current_snoc_iff.mp h₁ with ⟨username, senderName, rfl, rfl⟩ | ⟨hends, n, hn, rfl⟩
    · rcases current_snoc_iff.mp h₂ with ⟨username', senderName', heq, rfl⟩ | ⟨hends, -⟩
      · cases heq
        exact ⟨rfl, rfl, rfl⟩
      · simp [endsChallenge] at hends
    · rcases current_snoc_iff.mp h₂ with ⟨username', senderName', rfl, rfl⟩ | ⟨-, n', hn', rfl⟩
      · simp [endsChallenge] at hends
      · obtain ⟨rfl, rfl, rfl⟩ := ih hn hn'
        exact ⟨rfl, rfl, rfl⟩

theorem thirdWrong_snoc_iff :
    ThirdWrong cooldownSecs (h ++ [e]) peerId lockedUntil ↔
      ThirdWrong cooldownSecs h peerId lockedUntil ∨
      ∃ sent now answer code createdAt, e = (.verify peerId sent now, answer) ∧
        Current h peerId code createdAt 2 ∧ sent ≠ code ∧ now < createdAt + otpTtl ∧
        lockedUntil = now + cooldownAfter cooldownSecs h := by
  constructor
  · rintro ⟨pre, sent, now, answer, post, code, createdAt, heq, hcurrent, hwrong, htime, huntil⟩
    rcases post.eq_nil_or_concat' with rfl | ⟨post, last, rfl⟩
    · obtain ⟨rfl, hlast⟩ := append_inj' heq rfl
      cases hlast
      exact .inr ⟨sent, now, answer, code, createdAt, rfl, hcurrent, hwrong, htime, huntil⟩
    · rw [← cons_append, ← append_assoc] at heq
      obtain ⟨rfl, -⟩ := append_inj' heq rfl
      exact .inl ⟨pre, sent, now, answer, post, code, createdAt, rfl, hcurrent, hwrong, htime,
        huntil⟩
  · rintro (⟨pre, sent, now, answer, post, code, createdAt, rfl, hrest⟩ |
      ⟨sent, now, answer, code, createdAt, rfl, hrest⟩)
    · exact ⟨pre, sent, now, answer, post ++ [e], code, createdAt, by simp, hrest⟩
    · exact ⟨h, sent, now, answer, [], code, createdAt, rfl, hrest⟩

theorem not_thirdWrong_nil : ¬ ThirdWrong cooldownSecs [] peerId lockedUntil := by
  rintro ⟨pre, sent, now, answer, post, code, createdAt, heq, -⟩
  simp at heq

/-! ## What is kept for a peer -/

/-- The challenge and the lockout that the maps hold for a peer, in terms of the history. -/
structure PeerSound (cooldownSecs : ℕ) (h : OtpHistory) (clock : ℕ) (peerId : String)
    (challenge : Option OtpChallenge) (lockout : Option Lockout) : Prop where
  current : ∀ ch, challenge = some ch → Current h peerId ch.code ch.createdAt ch.attempts ∧
    ch.attempts < maxAttempts ∧ ch.expiresAt = ch.createdAt + otpTtl
  /-- A challenge that can still be met is in the map. -/
  kept : ∀ code createdAt wrong, Current h peerId code createdAt wrong → wrong < maxAttempts →
    clock < createdAt + otpTtl → challenge ≠ none
  issued : ∀ lock, lockout = some lock → ThirdWrong cooldownSecs h peerId lock.lockedUntil
  locked : ∀ lockedUntil, ThirdWrong cooldownSecs h peerId lockedUntil → clock < lockedUntil →
    lockout = some ⟨lockedUntil⟩
  /-- There is no challenge inside a lockout. -/
  apart : challenge ≠ none → ∀ lock, lockout = some lock → lock.lockedUntil ≤ clock

variable {sent : String}

namespace PeerSound

variable {clock now : ℕ} {challenge : Option OtpChallenge} {lockout : Option Lockout}

theorem nil (cooldownSecs clock : ℕ) (peerId : String) :
    PeerSound cooldownSecs [] clock peerId none none where
  current ch hch := by cases hch
  kept code createdAt wrong hcurrent := absurd hcurrent not_current_nil
  issued lock hlock := by cases hlock
  locked lockedUntil hthird := absurd hthird not_thirdWrong_nil
  apart hne := absurd rfl hne

theorem advance (hs : PeerSound cooldownSecs h clock peerId challenge lockout)
    (hnow : clock ≤ now) : PeerSound cooldownSecs h now peerId challenge lockout where
  __ := hs
  kept code createdAt wrong hcurrent hwrong htime :=
    hs.kept code createdAt wrong hcurrent hwrong (lt_of_le_of_lt hnow htime)
  locked lockedUntil hthird htime := hs.locked lockedUntil hthird (lt_of_le_of_lt hnow htime)
  apart hne lock hlock := (hs.apart hne lock hlock).trans hnow

theorem dropChallenge (hs : PeerSound cooldownSecs h clock peerId challenge lockout)
    (hover : ∀ ch, challenge = some ch → ch.expiresAt ≤ clock) :
    PeerSound cooldownSecs h clock peerId none lockout where
  __ := hs
  current ch hch := by cases hch
  kept code createdAt wrong hcurrent hwrong htime := by
    obtain ⟨ch, hch⟩ := ne_none_iff_exists'.mp
      (hs.kept code createdAt wrong hcurrent hwrong htime)
    obtain ⟨hsame, -, hexpires⟩ := hs.current ch hch
    obtain ⟨-, hcreated, -⟩ := hsame.unique hcurrent
    have := hover ch hch
    omega
  apart hne := absurd rfl hne

theorem dropLockout (hs : PeerSound cooldownSecs h clock peerId challenge lockout)
    (hover : ∀ lock, lockout = some lock → lock.lockedUntil ≤ clock) :
    PeerSound cooldownSecs h clock peerId challenge none where
  __ := hs
  issued lock hlock := by cases hlock
  locked lockedUntil hthird htime :=
    absurd (hover _ (hs.locked lockedUntil hthird htime)) (not_le.mpr htime)
  apart hne lock hlock := by cases hlock

theorem evict (hs : PeerSound cooldownSecs h clock peerId challenge lockout) :
    PeerSound cooldownSecs h clock peerId (challenge.filter fun ch => clock < ch.expiresAt)
      (lockout.filter fun lock => clock < lock.lockedUntil) := by
  have hchallenge : PeerSound cooldownSecs h clock peerId
      (challenge.filter fun ch => clock < ch.expiresAt) lockout := by
    cases challenge with
    | none => exact hs
    | some ch =>
      by_cases htime : clock < ch.expiresAt
      · rwa [filter_some_pos (by simpa using htime)]
      · rw [filter_some_neg (by simpa using htime)]
        refine hs.dropChallenge ?_
        rintro ch' ⟨⟩
        exact not_lt.mp htime
  cases lockout with
  | none => exact hchallenge
  | some lock =>
    by_cases htime : clock < lock.lockedUntil
    · rwa [filter_some_pos (by simpa using htime)]
    · rw [filter_some_neg (by simpa using htime)]
      refine hchallenge.dropLockout ?_
      rintro lock' ⟨⟩
      exact not_lt.mp htime

theorem quiet (hs : PeerSound cooldownSecs h clock peerId challenge lockout)
    (hends : endsChallenge peerId e = false)
    (hverify : ∀ sent now answer, e ≠ (.verify peerId sent now, answer)) :
    PeerSound cooldownSecs (h ++ [e]) clock peerId challenge lockout := by
  have hwrong : ∀ code, isWrongCode peerId code e = false := by
    intro code
    obtain ⟨call, answer⟩ := e
    cases call with
    | verify peer sent now =>
      have hne : peer ≠ peerId := by
        rintro rfl
        exact hverify sent now answer rfl
      simp [isWrongCode, hne]
    | initiate | evictExpired | setCooldown => rfl
  have hcurrent : ∀ code createdAt wrong,
      Current (h ++ [e]) peerId code createdAt wrong ↔ Current h peerId code createdAt wrong := by
    intro code createdAt wrong
    rw [current_snoc_iff, or_iff_right]
    · simp [hends, hwrong]
    · rintro ⟨username, senderName, rfl, -⟩
      simp [endsChallenge] at hends
  have hthird : ∀ lockedUntil, ThirdWrong cooldownSecs (h ++ [e]) peerId lockedUntil ↔
      ThirdWrong cooldownSecs h peerId lockedUntil := by
    intro lockedUntil
    rw [thirdWrong_snoc_iff, or_iff_left]
    rintro ⟨sent, now, answer, code, createdAt, rfl, -⟩
    exact hverify sent now answer rfl
  refine ⟨?_, ?_, ?_, ?_, hs.apart⟩
  · simpa only [hcurrent] using hs.current
  · simpa only [hcurrent] using hs.kept
  · simpa only [hthird] using hs.issued
  · simpa only [hthird] using hs.locked

theorem unheeded (hs : PeerSound cooldownSecs h clock peerId none lockout)
    {answer : OtpVerifyResult} :
    PeerSound cooldownSecs (h ++ [(.verify peerId sent clock, .verify answer)]) clock peerId none
      lockout := by
  have hgone : ∀ code createdAt wrong, Current h peerId code createdAt wrong →
      clock < createdAt + otpTtl → maxAttempts ≤ wrong := by
    intro code createdAt wrong hcurrent htime
    by_contra hwrong
    exact hs.kept code createdAt wrong hcurrent (not_le.mp hwrong) htime rfl
  have hthird : ∀ lockedUntil,
      ThirdWrong cooldownSecs (h ++ [(.verify peerId sent clock, .verify answer)]) peerId
        lockedUntil ↔ ThirdWrong cooldownSecs h peerId lockedUntil := by
    intro lockedUntil
    rw [thirdWrong_snoc_iff, or_iff_left]
    rintro ⟨sent, now, answer, code, createdAt, heq, hcurrent, -, htime, -⟩
    cases heq
    exact absurd (hgone _ _ _ hcurrent htime) (by decide)
  refine ⟨?_, ?_, ?_, ?_, ?_⟩
  · intro ch hch
    cases hch
  · intro code createdAt wrong hcurrent hwrong htime
    rcases current_snoc_iff.mp hcurrent with ⟨username, senderName, heq, -⟩ | ⟨-, before, hbefore, rfl⟩
    · cases heq
    · have := hgone _ _ _ hbefore htime
      omega
  · simpa only [hthird] using hs.issued
  · simpa only [hthird] using hs.locked
  · exact fun hne => absurd rfl hne

theorem create (hs : PeerSound cooldownSecs h clock peerId challenge none) (code : String)
    (username senderName : Option String) :
    PeerSound cooldownSecs
      (h ++ [(.initiate peerId username senderName code clock, .initiate (.created code))]) clock
      peerId (some ⟨code, peerId, username, senderName, clock, clock + otpTtl, 0⟩) none := by
  have hthird : ∀ lockedUntil, ThirdWrong cooldownSecs
      (h ++ [(.initiate peerId username senderName code clock, .initiate (.created code))]) peerId
        lockedUntil ↔ ThirdWrong cooldownSecs h peerId lockedUntil := by
    intro lockedUntil
    rw [thirdWrong_snoc_iff, or_iff_left]
    rintro ⟨sent, now, answer, code, createdAt, heq, -⟩
    cases heq
  refine ⟨?_, ?_, ?_, ?_, ?_⟩
  · rintro ch ⟨⟩
    exact ⟨current_snoc_iff.mpr (.inl ⟨username, senderName, rfl, rfl⟩),
      Nat.zero_lt_succ 2, rfl⟩
  · exact fun _ _ _ _ _ _ => some_ne_none _
  · simpa only [hthird] using hs.issued
  · simpa only [hthird] using hs.locked
  · rintro - lock ⟨⟩

variable {ch : OtpChallenge}

theorem approve (hs : PeerSound cooldownSecs h clock peerId (some ch) lockout) :
    PeerSound cooldownSecs (h ++ [(.verify peerId ch.code clock, .verify .approved)]) clock peerId
      none lockout := by
  have hthird : ∀ lockedUntil,
      ThirdWrong cooldownSecs (h ++ [(.verify peerId ch.code clock, .verify .approved)]) peerId
        lockedUntil ↔ ThirdWrong cooldownSecs h peerId lockedUntil := by
    intro lockedUntil
    rw [thirdWrong_snoc_iff, or_iff_left]
    rintro ⟨sent, now, answer, code, createdAt, heq, hcurrent, hwrong, -⟩
    cases heq
    exact hwrong (hcurrent.unique (hs.current ch rfl).1).1
  refine ⟨?_, ?_, ?_, ?_, ?_⟩
  · intro ch' hch'
    cases hch'
  · intro code createdAt wrong hcurrent
    rcases current_snoc_iff.mp hcurrent with ⟨username, senderName, heq, -⟩ | ⟨hends, -⟩
    · cases heq
    · simp [endsChallenge] at hends
  · simpa only [hthird] using hs.issued
  · simpa only [hthird] using hs.locked
  · exact fun hne => absurd rfl hne

theorem wrongCode (hs : PeerSound cooldownSecs h clock peerId (some ch) lockout)
    (hsent : ch.code ≠ sent) (hattempts : ch.attempts + 1 < maxAttempts) {left : ℕ} :
    PeerSound cooldownSecs (h ++ [(.verify peerId sent clock, .verify (.wrongCode left))]) clock
      peerId (some { ch with attempts := ch.attempts + 1 }) lockout := by
  obtain ⟨hcurrent, -, hexpires⟩ := hs.current ch rfl
  have hthird : ∀ lockedUntil, ThirdWrong cooldownSecs
      (h ++ [(.verify peerId sent clock, .verify (.wrongCode left))]) peerId lockedUntil ↔
        ThirdWrong cooldownSecs h peerId lockedUntil := by
    intro lockedUntil
    rw [thirdWrong_snoc_iff, or_iff_left]
    rintro ⟨sent, now, answer, code, createdAt, heq, hcurrent', -⟩
    have := (hcurrent.unique hcurrent').2.2
    have hmax : maxAttempts = 3 := rfl
    omega
  refine ⟨?_, ?_, ?_, ?_, ?_⟩
  · rintro ch' ⟨⟩
    refine ⟨current_snoc_iff.mpr (.inr ⟨rfl, ch.attempts, hcurrent, ?_⟩), hattempts, hexpires⟩
    simp [isWrongCode, hsent.symm]
  · exact fun _ _ _ _ _ _ => some_ne_none _
  · simpa only [hthird] using hs.issued
  · simpa only [hthird] using hs.locked
  · intro _ lock hlock
    exact hs.apart (some_ne_none _) lock hlock

theorem lock (hs : PeerSound cooldownSecs h clock peerId (some ch) lockout) (hsent : ch.code ≠ sent)
    (hattempts : maxAttempts ≤ ch.attempts + 1) (htime : clock < ch.expiresAt) :
    PeerSound cooldownSecs (h ++ [(.verify peerId sent clock, .verify .lockedOut)]) clock peerId
      none (some ⟨clock + cooldownAfter cooldownSecs h⟩) := by
  obtain ⟨hcurrent, hlt, hexpires⟩ := hs.current ch rfl
  have htwo : ch.attempts = 2 := by
    have hmax : maxAttempts = 3 := rfl
    omega
  rw [htwo] at hcurrent
  refine ⟨?_, ?_, ?_, ?_, ?_⟩
  · intro ch' hch'
    cases hch'
  · intro code createdAt wrong hcurrent' hwrong
    rcases current_snoc_iff.mp hcurrent' with ⟨username, senderName, heq, -⟩ | ⟨-, before, hbefore, rfl⟩
    · cases heq
    · obtain ⟨rfl, rfl, rfl⟩ := hcurrent.unique hbefore
      simp [isWrongCode, hsent.symm, maxAttempts] at hwrong
  · rintro lock ⟨⟩
    exact thirdWrong_snoc_iff.mpr (.inr ⟨sent, clock, _, ch.code, ch.createdAt, rfl, hcurrent,
      hsent.symm, hexpires ▸ htime, rfl⟩)
  · intro lockedUntil hthird huntil
    rcases thirdWrong_snoc_iff.mp hthird with hold | ⟨sent, now, answer, code, createdAt, heq,
      -, -, -, rfl⟩
    · exact absurd (hs.apart (some_ne_none _) _ (hs.locked lockedUntil hold huntil))
        (not_le.mpr huntil)
    · cases heq
      rfl
  · exact fun hne => absurd rfl hne

end PeerSound

/-! ## Calls -/

variable {c : OtpCall}

namespace OtpState

variable {s t : OtpState} {now : ℕ} {username senderName : Option String} {other : String}

theorem activeLockout_eq_some {lockout : Lockout} :
    s.activeLockout peerId now = some lockout ↔
      s.lockouts peerId = some lockout ∧ now < lockout.lockedUntil := by
  simp [activeLockout, filter_eq_some_iff]

theorem activeLockout_eq_none : s.activeLockout peerId now = none ↔
    ∀ lockout, s.lockouts peerId = some lockout → lockout.lockedUntil ≤ now := by
  simp [activeLockout, filter_eq_none_iff]

variable (challenge : Option OtpChallenge)

@[simp] theorem setChallenge_challenges_self :
    (s.setChallenge peerId challenge).challenges peerId = challenge :=
  Function.update_self ..

variable (lockout : Option Lockout)

@[simp] theorem setLockout_lockouts_self :
    (s.setLockout peerId lockout).lockouts peerId = lockout :=
  Function.update_self ..

@[simp] theorem setChallenge_lockouts :
    (s.setChallenge peerId challenge).lockouts = s.lockouts := rfl

@[simp] theorem setLockout_challenges :
    (s.setLockout peerId lockout).challenges = s.challenges := rfl

@[simp] theorem setChallenge_cooldown :
    (s.setChallenge peerId challenge).cooldown = s.cooldown := rfl

@[simp] theorem setLockout_cooldown :
    (s.setLockout peerId lockout).cooldown = s.cooldown := rfl

theorem setChallenge_challenges_of_ne (h : other ≠ peerId) (challenge : Option OtpChallenge) :
    (s.setChallenge peerId challenge).challenges other = s.challenges other :=
  Function.update_of_ne h ..

theorem setLockout_lockouts_of_ne (h : other ≠ peerId) (lockout : Option Lockout) :
    (s.setLockout peerId lockout).lockouts other = s.lockouts other :=
  Function.update_of_ne h ..

/-- Two states hold the same for a peer. -/
def SameFor (peerId : String) (s t : OtpState) : Prop :=
  t.challenges peerId = s.challenges peerId ∧ t.lockouts peerId = s.lockouts peerId

theorem sameFor_call (hc : c.peer = some peerId) (other : String) (hother : other ≠ peerId) :
    SameFor other s (s.call c).1 := by
  cases c with
  | evictExpired | setCooldown => cases hc
  | initiate peer username senderName code now =>
    cases hc
    simp only [call, initiate]
    split
    · exact ⟨rfl, rfl⟩
    · unfold challenge
      split
      · split
        · exact ⟨rfl, setLockout_lockouts_of_ne hother _⟩
        · exact ⟨setChallenge_challenges_of_ne hother _, setLockout_lockouts_of_ne hother _⟩
      · exact ⟨setChallenge_challenges_of_ne hother _, setLockout_lockouts_of_ne hother _⟩
  | verify peer code now =>
    cases hc
    simp only [call, verify]
    split
    · exact ⟨rfl, rfl⟩
    · unfold attempt
      split
      · exact ⟨rfl, setLockout_lockouts_of_ne hother _⟩
      · split
        · exact ⟨setChallenge_challenges_of_ne hother _, setLockout_lockouts_of_ne hother _⟩
        · split
          · exact ⟨setChallenge_challenges_of_ne hother _, setLockout_lockouts_of_ne hother _⟩
          · split
            · exact ⟨setChallenge_challenges_of_ne hother _,
                (setLockout_lockouts_of_ne hother _).trans (setLockout_lockouts_of_ne hother _)⟩
            · exact ⟨setChallenge_challenges_of_ne hother _, setLockout_lockouts_of_ne hother _⟩

theorem cooldown_call (hc : c.peer ≠ none) : (s.call c).1.cooldown = s.cooldown := by
  cases c with
  | evictExpired | setCooldown => exact absurd rfl hc
  | initiate peer username senderName code now =>
    simp only [call, initiate]
    split
    · rfl
    · unfold challenge
      split
      · split <;> rfl
      · rfl
  | verify peer code now =>
    simp only [call, verify]
    split
    · rfl
    · unfold attempt
      split
      · rfl
      · split
        · rfl
        · split
          · rfl
          · split <;> rfl

/-- The part of `initiate` after the lockout check reads what is held for the peer. -/
theorem challenge_congr (h : SameFor peerId s t) (username senderName : Option String)
    (code : String) (now : ℕ) :
    (t.challenge peerId username senderName code now).2 =
        (s.challenge peerId username senderName code now).2 ∧
      SameFor peerId (s.challenge peerId username senderName code now).1
        (t.challenge peerId username senderName code now).1 := by
  unfold challenge
  rw [h.1]
  cases s.challenges peerId with
  | none => exact ⟨rfl, by simp [SameFor, h.2]⟩
  | some existing =>
    by_cases hpending : now < existing.expiresAt
    · simp only [if_pos hpending]
      exact ⟨trivial, h⟩
    · simp only [if_neg hpending]
      exact ⟨trivial, by simp [SameFor, h.2]⟩

/-- So does the part of `verify`, besides the cooldown. -/
theorem attempt_congr (h : SameFor peerId s t) (hcooldown : t.cooldown = s.cooldown)
    (code : String) (now : ℕ) :
    (t.attempt peerId code now).2 = (s.attempt peerId code now).2 ∧
      SameFor peerId (s.attempt peerId code now).1 (t.attempt peerId code now).1 := by
  unfold attempt
  rw [h.1, hcooldown]
  cases hch : s.challenges peerId with
  | none => exact ⟨rfl, h⟩
  | some challenge =>
    by_cases hexpired : challenge.expiresAt ≤ now
    · simp only [if_pos hexpired]
      exact ⟨trivial, by simp [SameFor, h.2]⟩
    · simp only [if_neg hexpired]
      by_cases hcode : challenge.code = code
      · simp only [if_pos hcode]
        exact ⟨trivial, by simp [SameFor, h.2]⟩
      · simp only [if_neg hcode]
        by_cases hmax : maxAttempts ≤ challenge.attempts + 1
        · simp only [if_pos hmax]
          exact ⟨trivial, by simp [SameFor]⟩
        · simp only [if_neg hmax]
          exact ⟨trivial, by simp [SameFor, h.2]⟩

theorem sameFor_setLockout (h : t.challenges peerId = s.challenges peerId) :
    SameFor peerId (s.setLockout peerId none) (t.setLockout peerId none) :=
  ⟨h, by simp⟩

theorem call_congr (hc : c.peer = some peerId) (h : SameFor peerId s t)
    (hcooldown : t.cooldown = s.cooldown) :
    (t.call c).2 = (s.call c).2 ∧ SameFor peerId (s.call c).1 (t.call c).1 := by
  have hactive : ∀ now, t.activeLockout peerId now = s.activeLockout peerId now := by
    intro now
    rw [activeLockout, h.2, activeLockout]
  cases c with
  | evictExpired | setCooldown => cases hc
  | initiate peer username senderName code now =>
    cases hc
    simp only [call, initiate, hactive]
    cases s.activeLockout peerId now with
    | some lockout => exact ⟨rfl, h⟩
    | none =>
      obtain ⟨hanswer, hsame⟩ := challenge_congr (sameFor_setLockout h.1) username senderName
        code now
      exact ⟨congrArg _ hanswer, hsame⟩
  | verify peer code now =>
    cases hc
    simp only [call, verify, hactive]
    cases s.activeLockout peerId now with
    | some lockout => exact ⟨rfl, h⟩
    | none =>
      obtain ⟨hanswer, hsame⟩ := attempt_congr (sameFor_setLockout h.1) hcooldown code now
      exact ⟨congrArg _ hanswer, hsame⟩

/-- States that hold the same for some peers go on to do so, if the call is none of another's. -/
theorem call_kept {P : String → Prop} (hc : ∀ peer, c.peer = some peer → P peer)
    (hsame : ∀ peer, P peer → SameFor peer s t) (hcooldown : t.cooldown = s.cooldown) :
    (t.call c).2 = (s.call c).2 ∧ (∀ peer, P peer → SameFor peer (s.call c).1 (t.call c).1) ∧
      (t.call c).1.cooldown = (s.call c).1.cooldown := by
  cases hpeer : c.peer with
  | some caller =>
    obtain ⟨hanswer, hcaller⟩ := call_congr hpeer (hsame caller (hc caller hpeer)) hcooldown
    have hne : c.peer ≠ none := by
      rw [hpeer]
      exact some_ne_none _
    refine ⟨hanswer, fun peer hP => ?_, ?_⟩
    · by_cases heq : peer = caller
      · rw [heq]
        exact hcaller
      · obtain ⟨hs₁, hs₂⟩ := sameFor_call (s := s) hpeer peer heq
        obtain ⟨ht₁, ht₂⟩ := sameFor_call (s := t) hpeer peer heq
        obtain ⟨h₁, h₂⟩ := hsame peer hP
        exact ⟨ht₁.trans (h₁.trans hs₁.symm), ht₂.trans (h₂.trans hs₂.symm)⟩
    · rw [cooldown_call hne, cooldown_call hne, hcooldown]
  | none =>
    cases c with
    | initiate | verify => cases hpeer
    | evictExpired now =>
      refine ⟨rfl, fun peer hP => ?_, hcooldown⟩
      obtain ⟨h₁, h₂⟩ := hsame peer hP
      simp only [call, evictExpired, SameFor, activeLockout, h₁, h₂]
      exact ⟨trivial, trivial⟩
    | setCooldown secs now => exact ⟨rfl, hsame, rfl⟩

end OtpState

/-! ## The invariant of a run -/

def OtpSound (cooldownSecs : ℕ) (h : OtpHistory) (w : OtpWorld) : Prop :=
  w.state.cooldown = cooldownAfter cooldownSecs h ∧
    ∀ peerId, PeerSound cooldownSecs h w.clock peerId (w.state.challenges peerId)
      (w.state.lockouts peerId)

namespace OtpSound

variable {w w' : OtpWorld} {now : ℕ} {username senderName : Option String}

theorem cooldownAfter_snoc (hpeer : e.1.peer ≠ none ∨ ∃ now, e.1 = .evictExpired now) :
    cooldownAfter cooldownSecs (h ++ [e]) = cooldownAfter cooldownSecs h := by
  obtain ⟨call, answer⟩ := e
  rw [cooldownAfter, foldl_append]
  cases call with
  | initiate | verify | evictExpired => rfl
  | setCooldown secs now =>
    rcases hpeer with hpeer | ⟨t, heq⟩
    · exact absurd rfl hpeer
    · cases heq

variable {clock : ℕ}

/-- What is held for the peer of an `initiate` after it. -/
theorem initiate {s : OtpState} (username senderName : Option String) (code : String)
    (hs : PeerSound cooldownSecs h clock peerId (s.challenges peerId) (s.lockouts peerId)) :
    PeerSound cooldownSecs
      (h ++ [(.initiate peerId username senderName code clock,
        .initiate (s.initiate peerId username senderName code clock).2)]) clock peerId
      ((s.initiate peerId username senderName code clock).1.challenges peerId)
      ((s.initiate peerId username senderName code clock).1.lockouts peerId) := by
  unfold OtpState.initiate
  cases hactive : s.activeLockout peerId clock with
  | some lockout => exact hs.quiet rfl (by simp)
  | none =>
    have hdropped := hs.dropLockout (OtpState.activeLockout_eq_none.mp hactive)
    simp only [OtpState.challenge, OtpState.setLockout_challenges]
    cases hch : s.challenges peerId with
    | none =>
      simp only [OtpState.setChallenge_challenges_self, OtpState.setChallenge_lockouts,
        OtpState.setLockout_lockouts_self]
      exact hdropped.create code username senderName
    | some existing =>
      by_cases hpending : clock < existing.expiresAt
      · simp only [if_pos hpending, OtpState.setLockout_challenges,
          OtpState.setLockout_lockouts_self]
        exact hdropped.quiet rfl (by simp)
      · simp only [if_neg hpending, OtpState.setChallenge_challenges_self,
          OtpState.setChallenge_lockouts, OtpState.setLockout_lockouts_self]
        exact hdropped.create code username senderName

/-- What is held for the peer of a `verify` after it. -/
theorem verify {s : OtpState} (code : String)
    (hcooldown : s.cooldown = cooldownAfter cooldownSecs h)
    (hs : PeerSound cooldownSecs h clock peerId (s.challenges peerId) (s.lockouts peerId)) :
    PeerSound cooldownSecs
      (h ++ [(.verify peerId code clock, .verify (s.verify peerId code clock).2)]) clock peerId
      ((s.verify peerId code clock).1.challenges peerId)
      ((s.verify peerId code clock).1.lockouts peerId) := by
  unfold OtpState.verify
  cases hactive : s.activeLockout peerId clock with
  | some lockout =>
    obtain ⟨hlockout, htime⟩ := OtpState.activeLockout_eq_some.mp hactive
    have hnone : s.challenges peerId = none := by
      by_contra hne
      exact absurd (hs.apart hne lockout hlockout) (not_le.mpr htime)
    rw [hnone] at hs ⊢
    exact hs.unheeded
  | none =>
    have hdropped := hs.dropLockout (OtpState.activeLockout_eq_none.mp hactive)
    simp only [OtpState.attempt, OtpState.setLockout_challenges]
    cases hch : s.challenges peerId with
    | none =>
      rw [hch] at hdropped
      simp only [OtpState.setLockout_challenges, OtpState.setLockout_lockouts_self, hch]
      exact hdropped.unheeded
    | some challenge =>
      rw [hch] at hdropped
      by_cases hexpired : challenge.expiresAt ≤ clock
      · simp only [if_pos hexpired, OtpState.setChallenge_challenges_self,
          OtpState.setChallenge_lockouts, OtpState.setLockout_lockouts_self]
        refine (hdropped.dropChallenge ?_).unheeded
        rintro ch ⟨⟩
        exact hexpired
      · simp only [if_neg hexpired]
        by_cases hcode : challenge.code = code
        · simp only [if_pos hcode, OtpState.setChallenge_challenges_self,
            OtpState.setChallenge_lockouts, OtpState.setLockout_lockouts_self]
          rw [← hcode]
          exact hdropped.approve
        · simp only [if_neg hcode]
          by_cases hmax : maxAttempts ≤ challenge.attempts + 1
          · simp only [if_pos hmax, OtpState.setLockout_challenges,
              OtpState.setChallenge_challenges_self, OtpState.setLockout_lockouts_self,
              OtpState.setLockout_cooldown, hcooldown]
            exact hdropped.lock hcode hmax (not_le.mp hexpired)
          · simp only [if_neg hmax, OtpState.setChallenge_challenges_self,
              OtpState.setChallenge_lockouts, OtpState.setLockout_lockouts_self]
            exact hdropped.wrongCode hcode (not_le.mp hmax)

theorem endsChallenge_of_peer_ne {call : OtpCall} {answer : OtpAnswer}
    (hpeer : call.peer ≠ some peerId) : endsChallenge peerId (call, answer) = false := by
  cases call with
  | evictExpired | setCooldown => rfl
  | initiate peer username senderName code now =>
    have hne : peer ≠ peerId := fun heq => hpeer (congrArg some heq)
    cases answer with
    | initiate result =>
      cases result with
      | created => simp [endsChallenge, hne]
      | alreadyPending | lockedOut => rfl
    | verify | done => rfl
  | verify peer sent now =>
    have hne : peer ≠ peerId := fun heq => hpeer (congrArg some heq)
    cases answer with
    | verify result =>
      cases result with
      | approved => simp [endsChallenge, hne]
      | wrongCode | lockedOut | noPending | expired => rfl
    | initiate | done => rfl

theorem step (hs : OtpSound cooldownSecs h w) (hstep : OtpStep w e w') :
    OtpSound cooldownSecs (h ++ [e]) w' := by
  obtain ⟨hnow, hclock, hcall⟩ := hstep
  obtain ⟨call, answer⟩ := e
  have hadvanced : ∀ peerId, PeerSound cooldownSecs h w'.clock peerId
      (w.state.challenges peerId) (w.state.lockouts peerId) :=
    fun peerId => (hs.2 peerId).advance (hclock ▸ hnow)
  have hquiet : ∀ {peerId challenge lockout}, call.peer ≠ some peerId →
      PeerSound cooldownSecs h w'.clock peerId challenge lockout →
      PeerSound cooldownSecs (h ++ [(call, answer)]) w'.clock peerId challenge lockout := by
    intro peerId challenge lockout hpeer hsound
    refine hsound.quiet (endsChallenge_of_peer_ne hpeer) ?_
    rintro sent now answer' ⟨⟩
    exact hpeer rfl
  have hothers : ∀ {peer}, call.peer = some peer → ∀ peerId, peerId ≠ peer →
      PeerSound cooldownSecs (h ++ [(call, answer)]) w'.clock peerId
        (w'.state.challenges peerId) (w'.state.lockouts peerId) := by
    intro peer hpeer peerId hne
    have hsame := sameFor_call (s := w.state) hpeer peerId hne
    rw [hcall] at hsame
    rw [hsame.1, hsame.2]
    refine hquiet ?_ (hadvanced peerId)
    rw [hpeer]
    exact fun heq => hne (Option.some.inj heq).symm
  cases call with
  | initiate peer username senderName code now =>
    have hstate : w'.state = (w.state.initiate peer username senderName code now).1 :=
      (congrArg Prod.fst hcall).symm
    have hanswer : answer = .initiate (w.state.initiate peer username senderName code now).2 :=
      (congrArg Prod.snd hcall).symm
    refine ⟨?_, fun peerId => ?_⟩
    · rw [cooldownAfter_snoc (.inl (by simp [OtpCall.peer])), ← hs.1, hstate]
      exact cooldown_call (c := .initiate peer username senderName code now)
        (some_ne_none _)
    · by_cases hpeer : peerId = peer
      · subst hpeer
        have hsound := initiate username senderName code (hadvanced peerId)
        rw [hclock] at hsound ⊢
        rw [hstate, hanswer]
        exact hsound
      · exact hothers rfl peerId hpeer
  | verify peer sent now =>
    have hstate : w'.state = (w.state.verify peer sent now).1 := (congrArg Prod.fst hcall).symm
    have hanswer : answer = .verify (w.state.verify peer sent now).2 :=
      (congrArg Prod.snd hcall).symm
    refine ⟨?_, fun peerId => ?_⟩
    · rw [cooldownAfter_snoc (.inl (by simp [OtpCall.peer])), ← hs.1, hstate]
      exact cooldown_call (c := .verify peer sent now) (some_ne_none _)
    · by_cases hpeer : peerId = peer
      · subst hpeer
        have hsound := verify sent hs.1 (hadvanced peerId)
        rw [hclock] at hsound ⊢
        rw [hstate, hanswer]
        exact hsound
      · exact hothers rfl peerId hpeer
  | evictExpired now =>
    have hstate : w'.state = w.state.evictExpired now := (congrArg Prod.fst hcall).symm
    refine ⟨?_, fun peerId => hquiet (by simp [OtpCall.peer]) ?_⟩
    · rw [cooldownAfter_snoc (.inr ⟨now, rfl⟩), ← hs.1, hstate]
      rfl
    · have hsound := hadvanced peerId
      rw [hclock] at hsound ⊢
      rw [hstate]
      exact hsound.evict
  | setCooldown secs now =>
    have hstate : w'.state = w.state.setCooldown secs := (congrArg Prod.fst hcall).symm
    refine ⟨?_, fun peerId => hquiet (by simp [OtpCall.peer]) ?_⟩
    · rw [hstate, cooldownAfter, foldl_append]
      rfl
    · rw [hstate]
      exact hadvanced peerId

theorem of_run (hrun : Run OtpStep (.new cooldownSecs clock) h w) : OtpSound cooldownSecs h w :=
  hrun.history ⟨rfl, fun peerId => .nil cooldownSecs clock peerId⟩
    fun _ _ _ _ hs hstep => hs.step hstep

/-- A peer is inside a lockout if and only if the map holds one that is not over. -/
theorem inLockout_iff (hs : OtpSound cooldownSecs h w) (hnow : w.clock ≤ now) :
    InLockout cooldownSecs h peerId now ↔ w.state.activeLockout peerId now ≠ none := by
  have hpeer := hs.2 peerId
  constructor
  · rintro ⟨lockedUntil, hthird, htime⟩
    have hlockout := hpeer.locked lockedUntil hthird (lt_of_le_of_lt hnow htime)
    rw [activeLockout_eq_some.mpr ⟨hlockout, htime⟩]
    exact some_ne_none _
  · intro hne
    obtain ⟨lockout, hlockout⟩ := ne_none_iff_exists'.mp hne
    obtain ⟨hheld, htime⟩ := activeLockout_eq_some.mp hlockout
    exact ⟨_, hpeer.issued lockout hheld, htime⟩

theorem lockedOut (hs : OtpSound cooldownSecs h w) (hnow : w.clock ≤ now)
    (hlockout : InLockout cooldownSecs h peerId now) :
    (∀ username senderName code,
      (w.state.initiate peerId username senderName code now).2 = .lockedOut) ∧
    ∀ code, (w.state.verify peerId code now).2 = .lockedOut := by
  obtain ⟨lockout, hactive⟩ := ne_none_iff_exists'.mp ((hs.inLockout_iff hnow).mp hlockout)
  refine ⟨fun username senderName code => ?_, fun code => ?_⟩
  · rw [OtpState.initiate, hactive]
  · rw [OtpState.verify, hactive]

/-- A code is approved if and only if it is that of the current challenge, in time, with wrong
codes to spare and outside a lockout. -/
theorem approved_iff (hs : OtpSound cooldownSecs h w) (hnow : w.clock ≤ now) :
    (w.state.verify peerId code now).2 = .approved ↔
      ∃ createdAt wrong, Current h peerId code createdAt wrong ∧ wrong < maxAttempts ∧
        now < createdAt + otpTtl ∧ ¬ InLockout cooldownSecs h peerId now := by
  have hpeer := hs.2 peerId
  rw [hs.inLockout_iff hnow, OtpState.verify]
  cases hactive : w.state.activeLockout peerId now with
  | some lockout => simp
  | none =>
    simp only [OtpState.attempt, OtpState.setLockout_challenges]
    constructor
    · intro happroved
      cases hch : w.state.challenges peerId with
      | none => simp [hch] at happroved
      | some ch =>
        obtain ⟨hcurrent, hwrong, hexpires⟩ := hpeer.current ch hch
        simp only [hch] at happroved
        split at happroved
        · cases happroved
        · case isFalse htime =>
          split at happroved
          · case isTrue hcode =>
            subst hcode
            exact ⟨ch.createdAt, ch.attempts, hcurrent, hwrong, hexpires ▸ not_le.mp htime,
              by simp⟩
          · split at happroved
            · cases happroved
            · cases happroved
    · rintro ⟨createdAt, wrong, hcurrent, hwrong, htime, -⟩
      obtain ⟨ch, hch⟩ := ne_none_iff_exists'.mp
        (hpeer.kept code createdAt wrong hcurrent hwrong (lt_of_le_of_lt hnow htime))
      obtain ⟨hsame, -, hexpires⟩ := hpeer.current ch hch
      obtain ⟨rfl, rfl, rfl⟩ := hsame.unique hcurrent
      simp [hch, not_le.mpr (hexpires ▸ htime)]

theorem third_lockedOut (hs : OtpSound cooldownSecs h w) (hnow : w.clock ≤ now)
    (hcurrent : Current h peerId code createdAt 2) (hsent : sent ≠ code)
    (htime : now < createdAt + otpTtl) : (w.state.verify peerId sent now).2 = .lockedOut := by
  have hpeer := hs.2 peerId
  obtain ⟨ch, hch⟩ := ne_none_iff_exists'.mp
    (hpeer.kept code createdAt 2 hcurrent (by decide) (lt_of_le_of_lt hnow htime))
  obtain ⟨hsame, -, hexpires⟩ := hpeer.current ch hch
  obtain ⟨rfl, rfl, htwo⟩ := hsame.unique hcurrent
  rw [OtpState.verify]
  cases hactive : w.state.activeLockout peerId now with
  | some lockout => rfl
  | none =>
    simp only [OtpState.attempt, OtpState.setLockout_challenges, hch]
    rw [if_neg (not_le.mpr (hexpires ▸ htime)), if_neg hsent.symm, if_pos (by rw [← htwo]; decide)]

end OtpSound

/-! ## What has no say -/

/-- A history without the calls of a peer. -/
def withoutPeer (peerId : String) (h : OtpHistory) : OtpHistory :=
  h.filter fun e => e.1.peer ≠ some peerId

theorem run_withoutPeer {start w : OtpWorld} (hrun : Run OtpStep start h w) (peerId : String) :
    ∃ w', Run OtpStep start (withoutPeer peerId h) w' ∧
      (∀ other, other ≠ peerId → OtpState.SameFor other w.state w'.state) ∧
      w'.state.cooldown = w.state.cooldown ∧ w'.clock ≤ w.clock := by
  refine hrun.history (P := fun h w => ∃ w', Run OtpStep start (withoutPeer peerId h) w' ∧
    (∀ other, other ≠ peerId → OtpState.SameFor other w.state w'.state) ∧
    w'.state.cooldown = w.state.cooldown ∧ w'.clock ≤ w.clock) ?_ ?_
  · exact ⟨start, .nil start, fun _ _ => ⟨rfl, rfl⟩, rfl, le_rfl⟩
  · rintro h u ⟨call, answer⟩ v ⟨u', hrun', hsame, hcooldown, hclock⟩ ⟨hnow, hv, hcall⟩
    have hstate : v.state = (u.state.call call).1 := (congrArg Prod.fst hcall).symm
    have hanswer : answer = (u.state.call call).2 := (congrArg Prod.snd hcall).symm
    by_cases hpeer : call.peer = some peerId
    · have hout : withoutPeer peerId (h ++ [(call, answer)]) = withoutPeer peerId h := by
        simp [withoutPeer, filter_append, hpeer]
      rw [hout]
      refine ⟨u', hrun', fun other hother => ?_, ?_, by rw [hv]; exact hclock.trans hnow⟩
      · obtain ⟨hc, hl⟩ := sameFor_call (s := u.state) hpeer other hother
        rw [hstate]
        exact ⟨(hsame other hother).1.trans hc.symm, (hsame other hother).2.trans hl.symm⟩
      · rw [hstate, cooldown_call (by rw [hpeer]; exact some_ne_none _)]
        exact hcooldown
    · have hin : withoutPeer peerId (h ++ [(call, answer)]) =
          withoutPeer peerId h ++ [(call, answer)] := by
        simp [withoutPeer, filter_append, hpeer]
      rw [hin]
      have hkept : (u'.state.call call).2 = answer ∧
          (∀ other, other ≠ peerId →
            OtpState.SameFor other (u.state.call call).1 (u'.state.call call).1) ∧
          (u'.state.call call).1.cooldown = (u.state.call call).1.cooldown := by
        rw [hanswer]
        refine call_kept ?_ hsame hcooldown
        rintro other hother rfl
        exact hpeer hother
      refine ⟨⟨(u'.state.call call).1, call.now⟩, Run.append hrun' (.cons ⟨hclock.trans hnow, rfl,
        Prod.ext rfl hkept.1⟩ (.nil _)), ?_, ?_, hv.ge⟩
      · rw [hstate]
        exact hkept.2.1
      · rw [hstate]
        exact hkept.2.2

/-- The second state lacks some of what is over in the first. -/
structure Evicted (clock : ℕ) (s t : OtpState) : Prop where
  cooldown : t.cooldown = s.cooldown
  challenge : ∀ peerId, t.challenges peerId = s.challenges peerId ∨
    t.challenges peerId = none ∧ ∀ ch, s.challenges peerId = some ch → ch.expiresAt ≤ clock
  lockout : ∀ peerId, t.lockouts peerId = s.lockouts peerId ∨
    t.lockouts peerId = none ∧ ∀ lock, s.lockouts peerId = some lock → lock.lockedUntil ≤ clock

/-- The same answer, except that an expired challenge may be gone. -/
def SameUnlessExpired (a b : OtpAnswer) : Prop :=
  b = a ∨ a = .verify .expired ∧ b = .verify .noPending

namespace Evicted

variable {clock now : ℕ} {s t : OtpState}

theorem refl (clock : ℕ) (s : OtpState) : Evicted clock s s where
  cooldown := rfl
  challenge _ := .inl rfl
  lockout _ := .inl rfl

/-- An eviction that only the second state makes. -/
theorem evict (h : Evicted clock s t) (hnow : clock ≤ now) : Evicted now s (t.evictExpired now) where
  cooldown := h.cooldown
  challenge peerId := by
    simp only [evictExpired]
    rcases h.challenge peerId with heq | ⟨hnone, hover⟩
    · rw [heq]
      cases s.challenges peerId with
      | none => exact .inl rfl
      | some ch =>
        by_cases htime : now < ch.expiresAt
        · exact .inl (filter_some_pos (by simpa using htime))
        · refine .inr ⟨filter_some_neg (by simpa using htime), ?_⟩
          rintro ch' ⟨⟩
          exact not_lt.mp htime
    · rw [hnone]
      exact .inr ⟨rfl, fun ch hch => (hover ch hch).trans hnow⟩
  lockout peerId := by
    simp only [evictExpired, activeLockout]
    rcases h.lockout peerId with heq | ⟨hnone, hover⟩
    · rw [heq]
      cases s.lockouts peerId with
      | none => exact .inl rfl
      | some lock =>
        by_cases htime : now < lock.lockedUntil
        · exact .inl (filter_some_pos (by simpa using htime))
        · refine .inr ⟨filter_some_neg (by simpa using htime), ?_⟩
          rintro lock' ⟨⟩
          exact not_lt.mp htime
    · rw [hnone]
      exact .inr ⟨rfl, fun lock hlock => (hover lock hlock).trans hnow⟩

theorem activeLockout (h : Evicted clock s t) (hnow : clock ≤ now) (peerId : String) :
    t.activeLockout peerId now = s.activeLockout peerId now := by
  rcases h.lockout peerId with heq | ⟨hnone, hover⟩
  · rw [OtpState.activeLockout, heq, OtpState.activeLockout]
  · rw [OtpState.activeLockout, hnone]
    exact (OtpState.activeLockout_eq_none.mpr
      fun lock hlock => (hover lock hlock).trans hnow).symm

theorem evictBoth (h : Evicted clock s t) (hnow : clock ≤ now) :
    Evicted now (s.evictExpired now) (t.evictExpired now) where
  cooldown := h.cooldown
  challenge peerId := by
    refine .inl ?_
    simp only [evictExpired]
    rcases h.challenge peerId with heq | ⟨hnone, hover⟩
    · rw [heq]
    · rw [hnone, filter_none, eq_comm, filter_eq_none_iff]
      intro ch hch
      simpa using (hover ch hch).trans hnow
  lockout peerId := .inl (h.activeLockout hnow peerId)

theorem advance (h : Evicted clock s t) (hnow : clock ≤ now) : Evicted now s t where
  cooldown := h.cooldown
  challenge peerId := (h.challenge peerId).imp_right fun ⟨hnone, hover⟩ =>
    ⟨hnone, fun ch hch => (hover ch hch).trans hnow⟩
  lockout peerId := (h.lockout peerId).imp_right fun ⟨hnone, hover⟩ =>
    ⟨hnone, fun lock hlock => (hover lock hlock).trans hnow⟩

theorem of_sameFor (h : Evicted now s t) {s' t' : OtpState}
    (hcooldown : s'.cooldown = s.cooldown ∧ t'.cooldown = t.cooldown)
    (hs : ∀ other, other ≠ peerId → OtpState.SameFor other s s')
    (ht : ∀ other, other ≠ peerId → OtpState.SameFor other t t')
    (hpeer : OtpState.SameFor peerId s' t') : Evicted now s' t' where
  cooldown := by rw [hcooldown.1, hcooldown.2, h.cooldown]
  challenge other := by
    by_cases heq : other = peerId
    · rw [heq]
      exact .inl hpeer.1
    · rw [(hs other heq).1, (ht other heq).1]
      exact h.challenge other
  lockout other := by
    by_cases heq : other = peerId
    · rw [heq]
      exact .inl hpeer.2
    · rw [(hs other heq).2, (ht other heq).2]
      exact h.lockout other

theorem open_call (h : Evicted clock s t) (hnow : clock ≤ now) (peerId : String) :
    (∀ username senderName code,
      ((t.setLockout peerId none).challenge peerId username senderName code now).2 =
        ((s.setLockout peerId none).challenge peerId username senderName code now).2 ∧
      OtpState.SameFor peerId
        ((s.setLockout peerId none).challenge peerId username senderName code now).1
        ((t.setLockout peerId none).challenge peerId username senderName code now).1) ∧
    ∀ code, (((t.setLockout peerId none).attempt peerId code now).2 =
          ((s.setLockout peerId none).attempt peerId code now).2 ∨
        ((s.setLockout peerId none).attempt peerId code now).2 = .expired ∧
          ((t.setLockout peerId none).attempt peerId code now).2 = .noPending) ∧
      OtpState.SameFor peerId ((s.setLockout peerId none).attempt peerId code now).1
        ((t.setLockout peerId none).attempt peerId code now).1 := by
  rcases h.challenge peerId with heq | ⟨hnone, hover⟩
  · have hsame := OtpState.sameFor_setLockout heq
    refine ⟨fun _ _ _ => OtpState.challenge_congr hsame _ _ _ _, fun code => ?_⟩
    obtain ⟨hanswer, hsame'⟩ := OtpState.attempt_congr hsame h.cooldown code now
    exact ⟨.inl hanswer, hsame'⟩
  · cases hch : s.challenges peerId with
    | none =>
      have hsame := OtpState.sameFor_setLockout (hnone.trans hch.symm)
      refine ⟨fun _ _ _ => OtpState.challenge_congr hsame _ _ _ _, fun code => ?_⟩
      obtain ⟨hanswer, hsame'⟩ := OtpState.attempt_congr hsame h.cooldown code now
      exact ⟨.inl hanswer, hsame'⟩
    | some ch =>
      have hexpired : ch.expiresAt ≤ now := (hover ch hch).trans hnow
      refine ⟨fun username senderName code => ?_, fun code => ?_⟩
      · simp only [OtpState.challenge, OtpState.setLockout_challenges, hnone, hch,
          if_neg (not_lt.mpr hexpired)]
        exact ⟨trivial, by simp [OtpState.SameFor]⟩
      · simp only [OtpState.attempt, OtpState.setLockout_challenges, hnone, hch, if_pos hexpired]
        exact ⟨.inr ⟨trivial, trivial⟩, by simp [OtpState.SameFor, hnone]⟩

theorem call (h : Evicted clock s t) (hnow : clock ≤ c.now) :
    SameUnlessExpired (s.call c).2 (t.call c).2 ∧ Evicted c.now (s.call c).1 (t.call c).1 := by
  have hlater := h.advance hnow
  cases c with
  | evictExpired now => exact ⟨.inl rfl, h.evictBoth hnow⟩
  | setCooldown secs now => exact ⟨.inl rfl, rfl, hlater.challenge, hlater.lockout⟩
  | initiate peerId username senderName code now =>
    have hs := OtpState.sameFor_call (s := s)
      (c := .initiate peerId username senderName code now) rfl
    have ht := OtpState.sameFor_call (s := t)
      (c := .initiate peerId username senderName code now) rfl
    have hcooldown := OtpState.cooldown_call (s := s)
      (c := .initiate peerId username senderName code now) (some_ne_none _)
    have hcooldown' := OtpState.cooldown_call (s := t)
      (c := .initiate peerId username senderName code now) (some_ne_none _)
    have hnow' : clock ≤ now := hnow
    have hactive' := h.activeLockout hnow' peerId
    simp only [OtpState.call, OtpState.initiate, hactive'] at hs ht hcooldown hcooldown' ⊢
    cases hactive : s.activeLockout peerId now with
    | some lockout => exact ⟨.inl rfl, hlater⟩
    | none =>
      simp only [hactive] at hs ht hcooldown hcooldown'
      obtain ⟨hanswer, hsame⟩ := (h.open_call hnow' peerId).1 username senderName code
      exact ⟨.inl (congrArg _ hanswer), hlater.of_sameFor ⟨hcooldown, hcooldown'⟩ hs ht hsame⟩
  | verify peerId code now =>
    have hs := OtpState.sameFor_call (s := s)
      (c := .verify peerId code now) rfl
    have ht := OtpState.sameFor_call (s := t)
      (c := .verify peerId code now) rfl
    have hcooldown := OtpState.cooldown_call (s := s)
      (c := .verify peerId code now) (some_ne_none _)
    have hcooldown' := OtpState.cooldown_call (s := t)
      (c := .verify peerId code now) (some_ne_none _)
    have hnow' : clock ≤ now := hnow
    have hactive' := h.activeLockout hnow' peerId
    simp only [OtpState.call, OtpState.verify, hactive'] at hs ht hcooldown hcooldown' ⊢
    cases hactive : s.activeLockout peerId now with
    | some lockout => exact ⟨.inl rfl, hlater⟩
    | none =>
      simp only [hactive] at hs ht hcooldown hcooldown'
      obtain ⟨hanswer, hsame⟩ := (h.open_call hnow' peerId).2 code
      refine ⟨?_, hlater.of_sameFor ⟨hcooldown, hcooldown'⟩ hs ht hsame⟩
      rcases hanswer with heq | ⟨hexpired, hgone⟩
      · exact .inl (congrArg _ heq)
      · exact .inr ⟨congrArg _ hexpired, congrArg _ hgone⟩

end Evicted

/-- The second list of calls has some more evictions. -/
inductive Inserted : List OtpCall → List OtpCall → Prop
  | nil : Inserted [] []
  | keep {cs ds : List OtpCall} (c : OtpCall) : Inserted cs ds → Inserted (c :: cs) (c :: ds)
  | evict {cs ds : List OtpCall} (now : ℕ) :
      Inserted cs ds → Inserted cs (.evictExpired now :: ds)

theorem run_inserted {s t w w' : OtpWorld} {h h' : OtpHistory} (hrun : Run OtpStep s h w)
    (hrun' : Run OtpStep t h' w') (hinserted : Inserted (h.map Prod.fst) (h'.map Prod.fst))
    (hevicted : Evicted t.clock s.state t.state) : Evicted w'.clock w.state w'.state := by
  induction hrun' generalizing s h with
  | nil t =>
    cases h with
    | nil =>
      cases hrun
      exact hevicted
    | cons => cases hinserted
  | @cons t u w' e h' hstep _ ih =>
    obtain ⟨call, answer⟩ := e
    obtain ⟨hnow, hclock, hcall⟩ := hstep
    have hstate : u.state = (t.state.call call).1 := (congrArg Prod.fst hcall).symm
    cases hinserted' : h.map Prod.fst with
    | nil =>
      rw [hinserted'] at hinserted
      cases hinserted with
      | evict now hrest =>
        refine ih hrun (by rw [hinserted']; exact hrest) ?_
        rw [hclock, hstate]
        exact hevicted.evict hnow
    | cons c cs =>
      rw [hinserted'] at hinserted
      cases hinserted with
      | evict now hrest =>
        refine ih hrun (by rw [hinserted']; exact hrest) ?_
        rw [hclock, hstate]
        exact hevicted.evict hnow
      | keep _ hrest =>
        cases h with
        | nil => cases hinserted'
        | cons e' h =>
          obtain ⟨heq, rfl⟩ := List.cons.inj hinserted'
          obtain ⟨v, ⟨-, -, hcall'⟩, hrun⟩ := Run.cons_iff.mp hrun
          have hstate' : v.state = (s.state.call call).1 := by
            rw [show e'.1 = call from heq] at hcall'
            exact (congrArg Prod.fst hcall').symm
          refine ih hrun hrest ?_
          rw [hclock, hstate, hstate']
          exact (hevicted.call hnow).2

/-! ## The law -/

end Chelix.Channels
