import Chelix.Chat.TimeoutClock

/-!
# The timeout counts the unpaused time
-/

namespace Chelix.Chat

open Chelix.Library

namespace GuardPhase

variable {phase : GuardPhase}

/-- A counted guard is held, unless its start is not set yet. -/
theorem holds_of_counts (h : phase.counts = true) (hne : phase ≠ .starting) :
    phase.holds = true := by
  cases phase with
  | starting => exact (hne rfl).elim
  | notifyingStart | held => rfl
  | _ => cases h

/-- A guard that is held is counted, unless it is on its way out. -/
theorem counts_of_holds (h : phase.holds = true) (hne : phase ≠ .stopping) :
    phase.counts = true := by
  cases phase with
  | stopping => exact (hne rfl).elim
  | notifyingStart | held => rfl
  | _ => cases h

end GuardPhase

namespace AgentClock

variable {m : AgentClock}

/-! ## The clock -/

theorem guards_setGuard (m : AgentClock) (n : ℕ) (phase : GuardPhase) (k : ℕ) :
    (m.setGuard n phase).guards k = if k = n then phase else m.guards k :=
  Function.update_apply ..

/-- The variables of the clock fit the guards. -/
structure Clocked (m : AgentClock) : Prop where
  count : ∃ s : Finset ℕ, (∀ n, n ∈ s ↔ (m.guards n).counts = true) ∧ m.pausedCount = s.card
  starting : ∀ n k, m.guards n = .starting → (m.guards k).counts = true → k = n
  stopping : ∀ n k, m.guards n = .stopping → (m.guards k).holds = true → k = n
  isOpen : (∃ s, m.pauseStarted = some s) ↔ ∃ n, (m.guards n).holds = true
  pauseStarted : ∀ s, m.pauseStarted = some s → s ≤ m.now
  accounting : m.pausedDuration = m.heldTotal
  elapsed : m.started + m.heldTotal ≤ m.now

variable {n : ℕ} {phase : GuardPhase}

namespace Clocked

theorem new (started timeoutSecs : ℕ) : (new started timeoutSecs).Clocked where
  count := ⟨∅, fun _ => by simp [AgentClock.new, GuardPhase.counts], rfl⟩
  starting _ _ hphase := nomatch hphase
  stopping _ _ hphase := nomatch hphase
  isOpen := by
    constructor
    · rintro ⟨s, hs⟩
      cases hs
    · rintro ⟨n, hn⟩
      cases hn
  pauseStarted _ hs := nomatch hs
  accounting := rfl
  elapsed := Nat.le_refl _

variable (h : m.Clocked)
include h

theorem counts_of_pos (hpos : m.pausedCount ≠ 0) : ∃ k, (m.guards k).counts = true := by
  obtain ⟨s, hs, hcard⟩ := h.count
  rw [hcard, Finset.card_ne_zero] at hpos
  obtain ⟨k, hk⟩ := hpos
  exact ⟨k, (hs k).mp hk⟩

theorem not_counts_of_zero (hzero : m.pausedCount = 0) (k : ℕ) :
    (m.guards k).counts = false := by
  obtain ⟨s, hs, hcard⟩ := h.count
  rw [hcard, Finset.card_eq_zero] at hzero
  rw [← Bool.not_eq_true, ← hs k, hzero]
  exact Finset.notMem_empty k

theorem eq_of_count_one {k : ℕ} (hone : m.pausedCount = 1) (hn : (m.guards n).counts = true)
    (hk : (m.guards k).counts = true) : k = n := by
  obtain ⟨s, hs, hcard⟩ := h.count
  rw [hcard, Finset.card_eq_one] at hone
  obtain ⟨a, rfl⟩ := hone
  have hna := Finset.mem_singleton.mp ((hs n).mpr hn)
  have hka := Finset.mem_singleton.mp ((hs k).mpr hk)
  rw [hka, hna]

theorem counts_pos (hn : (m.guards n).counts = true) : 0 < m.pausedCount := by
  by_contra hzero
  have hnone := h.not_counts_of_zero (by omega) n
  rw [hn] at hnone
  cases hnone

theorem exists_other (hn : (m.guards n).counts = true) (hone : m.pausedCount ≠ 1) :
    ∃ k, k ≠ n ∧ (m.guards k).counts = true := by
  obtain ⟨s, hs, hcard⟩ := h.count
  have hpos := h.counts_pos hn
  have htwo : 1 < s.card := by omega
  obtain ⟨k, hk, hne⟩ := Finset.exists_mem_ne htwo n
  exact ⟨k, hne, (hs k).mp hk⟩

theorem setWatchdog (phase : WatchdogPhase) : (m.setWatchdog phase).Clocked :=
  ⟨h.count, h.starting, h.stopping, h.isOpen, h.pauseStarted, h.accounting, h.elapsed⟩

theorem relabel (hcounts : phase.counts = (m.guards n).counts)
    (hholds : phase.holds = (m.guards n).holds) (hstarting : phase ≠ .starting)
    (hstopping : phase ≠ .stopping) : (m.setGuard n phase).Clocked := by
  have hcountsAll : ∀ k, ((m.setGuard n phase).guards k).counts = (m.guards k).counts := by
    intro k
    rw [guards_setGuard]
    split
    · rename_i heq
      rw [heq, hcounts]
    · rfl
  have hholdsAll : ∀ k, ((m.setGuard n phase).guards k).holds = (m.guards k).holds := by
    intro k
    rw [guards_setGuard]
    split
    · rename_i heq
      rw [heq, hholds]
    · rfl
  refine ⟨?_, fun k k' hphase hk => ?_, fun k k' hphase hk => ?_, ?_, h.pauseStarted,
    h.accounting, h.elapsed⟩
  · obtain ⟨s, hs, hcard⟩ := h.count
    exact ⟨s, fun k => by rw [hcountsAll, hs], hcard⟩
  · rw [hcountsAll] at hk
    rw [guards_setGuard] at hphase
    split at hphase
    · exact (hstarting hphase).elim
    · exact h.starting k k' hphase hk
  · rw [hholdsAll] at hk
    rw [guards_setGuard] at hphase
    split at hphase
    · exact (hstopping hphase).elim
    · exact h.stopping k k' hphase hk
  · refine h.isOpen.trans (exists_congr fun k => ?_)
    rw [hholdsAll]

theorem tickHeld (d : ℕ) (hheld : ∃ n, (m.guards n).holds = true) :
    Clocked { m with now := m.now + d, heldTotal := m.heldTotal + d } := by
  obtain ⟨s, hs⟩ := h.isOpen.mpr hheld
  have hle := h.pauseStarted s hs
  have haccounting := h.accounting
  refine ⟨h.count, h.starting, h.stopping, h.isOpen, fun s' hs' => ?_, ?_, ?_⟩
  · exact Nat.le_trans (h.pauseStarted s' hs') (Nat.le_add_right _ _)
  · simp only [pausedDuration, currentPause, hs, Option.map_some, Option.getD_some] at haccounting ⊢
    omega
  · have helapsed := h.elapsed
    change m.started + (m.heldTotal + d) ≤ m.now + d
    omega

theorem tickFree (d : ℕ) (hfree : ∀ n, (m.guards n).holds = false) :
    Clocked { m with now := m.now + d } := by
  have hnone : m.pauseStarted = none := by
    by_contra hsome
    obtain ⟨n, hn⟩ := h.isOpen.mp (Option.ne_none_iff_exists'.mp hsome)
    rw [hfree n] at hn
    cases hn
  have haccounting := h.accounting
  refine ⟨h.count, h.starting, h.stopping, h.isOpen, fun s' hs' => ?_, ?_, ?_⟩
  · exact Nat.le_trans (h.pauseStarted s' hs') (Nat.le_add_right _ _)
  · simp only [pausedDuration, currentPause, hnone, Option.map_none, Option.getD_none] at haccounting ⊢
    exact haccounting
  · exact Nat.le_trans h.elapsed (Nat.le_add_right _ _)

theorem enter (hphase : m.guards n = .idle) (horderly : ∀ k, m.guards k ≠ .starting) :
    (m.enter n).Clocked := by
  have hself : (m.enter n).guards n = if m.pausedCount = 0 then .starting else .held :=
    (guards_setGuard ..).trans (if_pos rfl)
  have hother : ∀ {k}, k ≠ n → (m.enter n).guards k = m.guards k := fun hne =>
    (guards_setGuard ..).trans (if_neg hne)
  have hselfCounts : ((m.enter n).guards n).counts = true := by
    rw [hself]
    split <;> rfl
  have hholder : m.pausedCount ≠ 0 → ∃ k, k ≠ n ∧ (m.guards k).holds = true ∧
      m.guards k ≠ .stopping := by
    intro hpos
    obtain ⟨k, hk⟩ := h.counts_of_pos hpos
    refine ⟨k, ?_, ?_, ?_⟩
    · rintro rfl
      rw [hphase] at hk
      cases hk
    · exact GuardPhase.holds_of_counts hk (horderly k)
    · intro hstopping
      rw [hstopping] at hk
      cases hk
  refine ⟨?_, fun k k' hk hk' => ?_, fun k k' hk hk' => ?_, ?_, h.pauseStarted, h.accounting,
    h.elapsed⟩
  · obtain ⟨s, hs, hcard⟩ := h.count
    have hn : n ∉ s := by
      rw [hs n, hphase]
      exact nofun
    refine ⟨insert n s, fun k => ?_, ?_⟩
    · rw [Finset.mem_insert]
      by_cases hne : k = n
      · rw [hne, hselfCounts]
        simp
      · rw [hother hne, hs k]
        simp [hne]
    · rw [Finset.card_insert_of_notMem hn, ← hcard]
      rfl
  · by_cases hne : k = n
    · by_contra hne'
      rw [hne, hself] at hk
      rw [hother (by rwa [hne] at hne')] at hk'
      split at hk
      · rename_i hzero
        rw [h.not_counts_of_zero hzero k'] at hk'
        cases hk'
      · cases hk
    · rw [hother hne] at hk
      exact (horderly k hk).elim
  · by_cases hne : k = n
    · rw [hne, hself] at hk
      split at hk <;> cases hk
    · rw [hother hne] at hk
      by_cases hne' : k' = n
      · rw [hne', hself] at hk'
        split at hk'
        · cases hk'
        · rename_i hpos
          obtain ⟨k₀, -, hholds, hk₀⟩ := hholder hpos
          obtain rfl := h.stopping k k₀ hk hholds
          exact (hk₀ hk).elim
      · rw [hother hne'] at hk'
        exact h.stopping k k' hk hk'
  · refine h.isOpen.trans ⟨?_, ?_⟩
    · rintro ⟨k, hk⟩
      refine ⟨k, ?_⟩
      rw [hother, hk]
      rintro rfl
      rw [hphase] at hk
      cases hk
    · rintro ⟨k, hk⟩
      by_cases hne : k = n
      · rw [hne, hself] at hk
        split at hk
        · cases hk
        · rename_i hpos
          obtain ⟨k₀, -, hholds, -⟩ := hholder hpos
          exact ⟨k₀, hholds⟩
      · rw [hother hne] at hk
        exact ⟨k, hk⟩

theorem start (hphase : m.guards n = .starting) (horderly : ∀ k, m.guards k ≠ .stopping) :
    (m.start n).Clocked := by
  have hself : (m.start n).guards n = .notifyingStart := (guards_setGuard ..).trans (if_pos rfl)
  have hother : ∀ {k}, k ≠ n → (m.start n).guards k = m.guards k := fun hne =>
    (guards_setGuard ..).trans (if_neg hne)
  have hcounts : ∀ {k}, (m.guards k).counts = true → k = n := h.starting n _ hphase
  have hfree : ∀ k, (m.guards k).holds = false := by
    intro k
    by_contra hk
    rw [Bool.not_eq_false] at hk
    have hkn : k = n := hcounts (GuardPhase.counts_of_holds hk (horderly k))
    rw [hkn, hphase] at hk
    cases hk
  have hnone : m.pauseStarted = none := by
    by_contra hsome
    obtain ⟨k, hk⟩ := h.isOpen.mp (Option.ne_none_iff_exists'.mp hsome)
    rw [hfree k] at hk
    cases hk
  refine ⟨?_, fun k k' hk hk' => ?_, fun k k' hk hk' => ?_, ?_, fun s hs => ?_, ?_, h.elapsed⟩
  · obtain ⟨s, hs, hcard⟩ := h.count
    refine ⟨s, fun k => ?_, hcard⟩
    by_cases hne : k = n
    · rw [hne, hself, hs n, hphase]
      rfl
    · rw [hother hne, hs k]
  · by_cases hne : k = n
    · rw [hne, hself] at hk
      cases hk
    · rw [hother hne] at hk
      exact (hne (hcounts (by rw [hk]; rfl))).elim
  · by_cases hne : k = n
    · rw [hne, hself] at hk
      cases hk
    · rw [hother hne] at hk
      exact (horderly k hk).elim
  · exact ⟨fun _ => ⟨n, by rw [hself]; rfl⟩, fun _ => ⟨m.now, rfl⟩⟩
  · rw [← Option.some.inj hs]
    exact Nat.le_refl _
  · have haccounting := h.accounting
    simp only [pausedDuration, currentPause, hnone, Option.map_none, Option.getD_none] at haccounting
    change m.pausedTotal + (m.now - m.now) = m.heldTotal
    omega

theorem leave (hphase : m.guards n = .held) : (m.leave n).Clocked := by
  have hself : (m.leave n).guards n = if m.pausedCount = 1 then .stopping else .idle :=
    (guards_setGuard ..).trans (if_pos rfl)
  have hother : ∀ {k}, k ≠ n → (m.leave n).guards k = m.guards k := fun hne =>
    (guards_setGuard ..).trans (if_neg hne)
  have hn : (m.guards n).counts = true := by rw [hphase]; rfl
  have hnHolds : (m.guards n).holds = true := by rw [hphase]; rfl
  have hnoStarting : ∀ k, m.guards k ≠ .starting := by
    intro k hk
    obtain rfl := h.starting k n hk hn
    rw [hphase] at hk
    cases hk
  have hnoStopping : ∀ k, m.guards k ≠ .stopping := by
    intro k hk
    obtain rfl := h.stopping k n hk hnHolds
    rw [hphase] at hk
    cases hk
  refine ⟨?_, fun k k' hk hk' => ?_, fun k k' hk hk' => ?_, ?_, h.pauseStarted, h.accounting,
    h.elapsed⟩
  · obtain ⟨s, hs, hcard⟩ := h.count
    refine ⟨s.erase n, fun k => ?_, ?_⟩
    · rw [Finset.mem_erase]
      by_cases hne : k = n
      · rw [hne, hself]
        split <;> simp [GuardPhase.counts]
      · rw [hother hne, hs k]
        simp [hne]
    · rw [Finset.card_erase_of_mem ((hs n).mpr hn), ← hcard]
      rfl
  · by_cases hne : k = n
    · rw [hne, hself] at hk
      split at hk <;> cases hk
    · rw [hother hne] at hk
      exact (hnoStarting k hk).elim
  · by_cases hne : k = n
    · by_contra hne'
      rw [hne] at hne'
      rw [hne, hself] at hk
      rw [hother hne'] at hk'
      split at hk
      · rename_i hone
        exact hne' (h.eq_of_count_one hone hn (GuardPhase.counts_of_holds hk' (hnoStopping k')))
      · cases hk
    · rw [hother hne] at hk
      exact (hnoStopping k hk).elim
  · refine h.isOpen.trans ⟨fun _ => ?_, fun _ => ⟨n, hnHolds⟩⟩
    by_cases hone : m.pausedCount = 1
    · refine ⟨n, ?_⟩
      rw [hself, if_pos hone]
      rfl
    · obtain ⟨k, hne, hk⟩ := h.exists_other hn hone
      refine ⟨k, ?_⟩
      rw [hother hne]
      exact GuardPhase.holds_of_counts hk (hnoStarting k)

theorem stop (hphase : m.guards n = .stopping) : (m.stop n).Clocked := by
  have hself : (m.stop n).guards n = .notifyingStop := (guards_setGuard ..).trans (if_pos rfl)
  have hother : ∀ {k}, k ≠ n → (m.stop n).guards k = m.guards k := fun hne =>
    (guards_setGuard ..).trans (if_neg hne)
  have hholds : ∀ {k}, (m.guards k).holds = true → k = n := h.stopping n _ hphase
  refine ⟨?_, fun k k' hk hk' => ?_, fun k k' hk hk' => ?_, ?_, nofun, h.accounting, h.elapsed⟩
  · obtain ⟨s, hs, hcard⟩ := h.count
    refine ⟨s, fun k => ?_, hcard⟩
    by_cases hne : k = n
    · rw [hne, hself, hs n, hphase]
      rfl
    · rw [hother hne, hs k]
  · have hne : k ≠ n := by
      rintro rfl
      rw [hself] at hk
      cases hk
    have hne' : k' ≠ n := by
      rintro rfl
      rw [hself] at hk'
      cases hk'
    rw [hother hne] at hk
    rw [hother hne'] at hk'
    exact h.starting k k' hk hk'
  · have hne : k ≠ n := by
      rintro rfl
      rw [hself] at hk
      cases hk
    rw [hother hne] at hk
    exact (hne (hholds (by rw [hk]; rfl))).elim
  · refine ⟨fun ⟨_, hs⟩ => (nomatch hs), fun ⟨k, hk⟩ => ?_⟩
    have hne : k ≠ n := by
      rintro rfl
      rw [hself] at hk
      cases hk
    rw [hother hne] at hk
    exact (hne (hholds hk)).elim

end Clocked

/-! ## The watchdog -/

/-- What a check has read so far. -/
def Reading (m : AgentClock) : Prop :=
  match m.watchdog with
  | .measured checked heldBefore => m.started ≤ checked ∧ heldBefore ≤ m.heldTotal ∧
      checked + m.heldTotal ≤ m.now + heldBefore
  | .readExtra checked extra heldBefore => m.started ≤ checked ∧ heldBefore ≤ m.heldTotal ∧
      checked + m.heldTotal ≤ m.now + heldBefore ∧ heldBefore ≤ m.pausedTotal + extra
  | .compared checked unpaused => checked ≤ m.now ∧ unpaused < m.timeout
  | .sawUnpaused checked unpaused => checked ≤ m.now ∧ unpaused < m.timeout
  | .returned => m.started + m.timeout + m.heldTotal ≤ m.now
  | _ => True

/-- The clock is paused, or a guard that goes has yet to notify. -/
def PausedOrNotifying (m : AgentClock) : Prop :=
  0 < m.pausedCount ∨ ∃ n, m.guards n = .stopping ∨ m.guards n = .notifyingStop

structure Watched (m : AgentClock) : Prop where
  reading : m.Reading
  awake : m.watchdog = .sawPaused ∨ m.watchdog = .waitingPaused false → m.PausedOrNotifying
  overcounts : m.Overcounts → ∃ n, m.guards n = .notifyingStop

variable {m' : AgentClock}

namespace Watched

theorem new (started timeoutSecs : ℕ) : (new started timeoutSecs).Watched := by
  unfold AgentClock.new
  split
  · exact ⟨trivial, nofun, nofun⟩
  · exact ⟨trivial, nofun, nofun⟩

variable (h : m.Watched)
include h

/-- A guard moves on without a notification, and the watchdog stays where it is. -/
theorem guard (hwatchdog : m'.watchdog = m.watchdog) (hstarted : m'.started = m.started)
    (htimeout : m'.timeout = m.timeout) (hnow : m'.now = m.now) (hheld : m'.heldTotal = m.heldTotal)
    (htotal : m.pausedTotal ≤ m'.pausedTotal) (hawake : m.PausedOrNotifying → m'.PausedOrNotifying)
    (hstops : ∀ n, m.guards n = .notifyingStop → m'.guards n = .notifyingStop)
    (hover : m'.pausedTotal = m.pausedTotal ∨ ∃ n, m'.guards n = .notifyingStop) : m'.Watched := by
  refine ⟨?_, fun hw => hawake (h.awake (by rwa [hwatchdog] at hw)), fun hcount => ?_⟩
  · have hreading := h.reading
    unfold Reading at hreading ⊢
    rw [hwatchdog, hstarted, htimeout, hnow, hheld]
    cases hphase : m.watchdog <;> simp only [hphase] at hreading ⊢
    · exact hreading
    · omega
    · exact hreading
    · exact hreading
    · exact hreading
  · rcases hover with hsame | hstop
    · have hcounted : m.Overcounts := by
        unfold Overcounts at hcount ⊢
        rw [hwatchdog, hstarted, htimeout, hheld, hsame] at hcount
        exact hcount
      obtain ⟨n, hn⟩ := h.overcounts hcounted
      exact ⟨n, hstops n hn⟩
    · exact hstop

theorem tick {d e : ℕ} (hle : e ≤ d) :
    Watched { m with now := m.now + d, heldTotal := m.heldTotal + e } := by
  refine ⟨?_, h.awake, fun hcount => h.overcounts ?_⟩
  · have hreading := h.reading
    unfold Reading at hreading ⊢
    cases hphase : m.watchdog <;> simp only [hphase] at hreading ⊢ <;> omega
  · unfold Overcounts at hcount ⊢
    cases hphase : m.watchdog with
    | sleeping deadline delay notified =>
      cases notified <;> simp only [hphase] at hcount ⊢
      omega
    | _ => simp only [hphase] at hcount ⊢ <;> omega

theorem notify (hawake : m.watchdog = .sawPaused → (m.setGuard n phase).PausedOrNotifying)
    (hover : m.Overcounts → (∃ k, (m.setGuard n phase).guards k = .notifyingStop) ∨
      ∃ deadline delay, m.watchdog = .sleeping deadline delay false) :
    (m.notifyWaiters.setGuard n phase).Watched := by
  have hreading := h.reading
  refine ⟨?_, ?_, ?_⟩
  · unfold Reading at hreading ⊢
    cases hphase : m.watchdog <;>
      simp only [hphase, notifyWaiters, setGuard] at hreading ⊢ <;> exact hreading
  · intro hw
    refine hawake ?_
    cases hphase : m.watchdog <;> simp only [notifyWaiters, setGuard, hphase] at hw <;>
      first | rfl | (rcases hw with hw | hw <;> cases hw)
  · intro hcount
    have hcounted : m.Overcounts ∧ ∀ deadline delay, m.watchdog ≠ .sleeping deadline delay false := by
      unfold Overcounts at hcount ⊢
      cases hphase : m.watchdog <;> simp only [notifyWaiters, setGuard, hphase] at hcount ⊢ <;>
        first | exact hcount.elim | exact ⟨hcount, nofun⟩
    rcases hover hcounted.1 with hstop | ⟨deadline, delay, hsleeping⟩
    · exact hstop
    · exact (hcounted.2 deadline delay hsleeping).elim

theorem watch (hclock : m.Clocked) (hwatch : m.watch = some m') : m'.Watched := by
  have hreading := h.reading
  have hover := h.overcounts
  have hheld := hclock.accounting
  have helapsed := hclock.elapsed
  unfold Reading at hreading
  unfold Overcounts at hover
  unfold AgentClock.watch at hwatch
  cases hphase : m.watchdog with
  | off | returned => simp [hphase] at hwatch
  | looping =>
    simp only [hphase, Option.some.injEq] at hwatch
    subst hwatch
    have hle : m.started ≤ m.now := by omega
    exact ⟨⟨hle, Nat.le_refl _, Nat.le_refl _⟩, nofun, nofun⟩
  | measured checked heldBefore =>
    simp only [hphase, Option.some.injEq] at hwatch hreading
    subst hwatch
    unfold pausedDuration at hheld
    refine ⟨⟨hreading.1, hreading.2.1, hreading.2.2, ?_⟩, nofun, fun hcount => ?_⟩
    · change heldBefore ≤ m.pausedTotal + m.currentPause
      omega
    · change m.heldTotal < m.pausedTotal + m.currentPause at hcount
      omega
  | readExtra checked extra heldBefore =>
    simp only [hphase, Option.some.injEq] at hwatch hreading hover
    subst hwatch
    split
    · refine ⟨?_, nofun, nofun⟩
      change m.started + m.timeout + m.heldTotal ≤ m.now
      omega
    · refine ⟨⟨?_, ?_⟩, nofun, fun hcount => hover ?_⟩
      · change checked ≤ m.now
        omega
      · change checked - m.started - (m.pausedTotal + extra) < m.timeout
        omega
      · change m.started + m.heldTotal + (checked - m.started - (m.pausedTotal + extra)) < checked
          at hcount
        omega
  | compared checked unpaused =>
    simp only [hphase, Option.some.injEq] at hwatch hreading hover
    subst hwatch
    split
    · rename_i hpaused
      have hpos : 0 < m.pausedCount := by simpa [isPaused] using hpaused
      exact ⟨trivial, fun _ => Or.inl hpos, nofun⟩
    · exact ⟨hreading, nofun, hover⟩
  | sawPaused =>
    simp only [hphase, Option.some.injEq] at hwatch
    subst hwatch
    exact ⟨trivial, fun _ => h.awake (Or.inl hphase), nofun⟩
  | sawUnpaused checked unpaused =>
    simp only [hphase, Option.some.injEq] at hwatch hreading hover
    subst hwatch
    refine ⟨trivial, nofun, fun hcount => hover ?_⟩
    change m.started + m.timeout + m.heldTotal + (m.now - checked) <
      m.now + (m.timeout - unpaused) at hcount
    omega
  | polling deadline delay =>
    simp only [hphase, Option.some.injEq] at hwatch hover
    subst hwatch
    exact ⟨trivial, nofun, hover⟩
  | waitingPaused notified | sleeping deadline delay notified =>
    simp only [hphase] at hwatch
    split at hwatch
    · obtain rfl := Option.some.inj hwatch
      exact ⟨trivial, nofun, nofun⟩
    · cases hwatch

end Watched

theorem eq_setWatchdog_of_watch (hwatch : m.watch = some m') :
    ∃ phase, m' = m.setWatchdog phase := by
  unfold AgentClock.watch at hwatch
  split at hwatch
  all_goals first
    | exact ⟨_, (Option.some.inj hwatch).symm⟩
    | cases hwatch
    | skip
  all_goals
    split at hwatch
    · exact ⟨_, (Option.some.inj hwatch).symm⟩
    · cases hwatch

/-! ## Runs -/

structure Sound (m : AgentClock) : Prop where
  clocked : m.Clocked
  watched : m.Watched

theorem notifyingStop_setGuard (hphase : m.guards n ≠ .notifyingStop) (k : ℕ)
    (hk : m.guards k = .notifyingStop) : (m.setGuard n phase).guards k = .notifyingStop := by
  rw [guards_setGuard, if_neg]
  · exact hk
  · rintro rfl
    exact hphase hk

theorem pausedOrNotifying_setGuard (hstop : m.guards n ≠ .stopping)
    (hnotify : m.guards n ≠ .notifyingStop) (h : m.PausedOrNotifying) :
    (m.setGuard n phase).PausedOrNotifying := by
  refine h.imp_right ?_
  rintro ⟨k, hk⟩
  refine ⟨k, ?_⟩
  rw [guards_setGuard, if_neg]
  · exact hk
  · rintro rfl
    rcases hk with hk | hk
    · exact hstop hk
    · exact hnotify hk

namespace Sound

variable (h : m.Sound)
include h

theorem enter (hphase : m.guards n = .idle) (horderly : ∀ k, m.guards k ≠ .starting) :
    (m.enter n).Sound := by
  have hnotify : m.guards n ≠ .notifyingStop := by
    rw [hphase]
    exact nofun
  refine ⟨h.clocked.enter hphase horderly, h.watched.guard rfl rfl rfl rfl rfl (Nat.le_refl _)
    (fun _ => Or.inl (Nat.succ_pos _)) (fun k hk => ?_) (Or.inl rfl)⟩
  exact notifyingStop_setGuard hnotify k hk

theorem start (hphase : m.guards n = .starting) (horderly : ∀ k, m.guards k ≠ .stopping) :
    (m.start n).Sound := by
  have hnotify : m.guards n ≠ .notifyingStop := by
    rw [hphase]
    exact nofun
  refine ⟨h.clocked.start hphase horderly, h.watched.guard rfl rfl rfl rfl rfl (Nat.le_refl _)
    (fun hpaused => ?_) (fun k hk => ?_) (Or.inl rfl)⟩
  · exact pausedOrNotifying_setGuard (by rw [hphase]; exact nofun) hnotify hpaused
  · exact notifyingStop_setGuard hnotify k hk

theorem leave (hphase : m.guards n = .held) : (m.leave n).Sound := by
  have hnotify : m.guards n ≠ .notifyingStop := by
    rw [hphase]
    exact nofun
  refine ⟨h.clocked.leave hphase, h.watched.guard rfl rfl rfl rfl rfl (Nat.le_refl _) (fun _ => ?_)
    (fun k hk => ?_) (Or.inl rfl)⟩
  · by_cases hone : m.pausedCount = 1
    · refine Or.inr ⟨n, Or.inl ?_⟩
      exact (guards_setGuard ..).trans ((if_pos rfl).trans (if_pos hone))
    · have hpos := h.clocked.counts_pos (n := n) (by rw [hphase]; rfl)
      have hleft : 0 < m.pausedCount - 1 := by omega
      exact Or.inl hleft
  · exact notifyingStop_setGuard hnotify k hk

theorem stop (hphase : m.guards n = .stopping) : (m.stop n).Sound := by
  have hnotify : m.guards n ≠ .notifyingStop := by
    rw [hphase]
    exact nofun
  have hself : (m.stop n).guards n = .notifyingStop := (guards_setGuard ..).trans (if_pos rfl)
  refine ⟨h.clocked.stop hphase, h.watched.guard rfl rfl rfl rfl rfl (Nat.le_add_right _ _)
    (fun _ => Or.inr ⟨n, Or.inr hself⟩) (fun k hk => ?_) (Or.inr ⟨n, hself⟩)⟩
  exact notifyingStop_setGuard hnotify k hk

theorem notifyStart (hphase : m.guards n = .notifyingStart) :
    (m.notifyWaiters.setGuard n .held).Sound := by
  have hnotify : m.guards n ≠ .notifyingStop := by
    rw [hphase]
    exact nofun
  constructor
  · have hclock : (m.setGuard n .held).Clocked :=
      h.clocked.relabel (by rw [hphase]; rfl) (by rw [hphase]; rfl) nofun nofun
    exact hclock.setWatchdog _
  · refine h.watched.notify (fun hw => ?_) (fun hcount => Or.inl ?_)
    · exact pausedOrNotifying_setGuard (by rw [hphase]; exact nofun) hnotify
        (h.watched.awake (Or.inl hw))
    · obtain ⟨k, hk⟩ := h.watched.overcounts hcount
      exact ⟨k, notifyingStop_setGuard hnotify k hk⟩

theorem notifyStop (hphase : m.guards n = .notifyingStop) (horderly : m.Orderly (.notify n)) :
    (m.notifyWaiters.setGuard n .idle).Sound := by
  obtain ⟨hpaused, hcounted⟩ := horderly hphase
  constructor
  · have hclock : (m.setGuard n .idle).Clocked :=
      h.clocked.relabel (by rw [hphase]; rfl) (by rw [hphase]; rfl) nofun nofun
    exact hclock.setWatchdog _
  · exact h.watched.notify (fun hw => (hpaused hw).elim) (fun hcount => Or.inr (hcounted hcount))

/-- **An orderly step keeps the clock and the watchdog sound.** -/
theorem step {act : ClockAct} (hstep : ClockStep m act m') (horderly : m.Orderly act) :
    m'.Sound := by
  cases hstep with
  | tickHeld d hheld => exact ⟨h.clocked.tickHeld d hheld, h.watched.tick (Nat.le_refl d)⟩
  | tickFree d hfree => exact ⟨h.clocked.tickFree d hfree, h.watched.tick (Nat.zero_le d)⟩
  | enter hphase => exact h.enter hphase horderly
  | start hphase => exact h.start hphase horderly
  | leave hphase => exact h.leave hphase
  | stop hphase => exact h.stop hphase
  | notifyStart hphase => exact h.notifyStart hphase
  | notifyStop hphase => exact h.notifyStop hphase horderly
  | watch hwatch =>
    refine ⟨?_, h.watched.watch h.clocked hwatch⟩
    obtain ⟨phase, rfl⟩ := eq_setWatchdog_of_watch hwatch
    exact h.clocked.setWatchdog phase
  | finish hphase => exact ⟨h.clocked.setWatchdog .off, ⟨trivial, nofun, nofun⟩⟩

end Sound

/-- **The timeout counts exactly the unpaused time, and the watchdog does not fall asleep.**  The
paused duration is the time in which guards were held; a watchdog that waits for a notification
alone has the clock paused or a guard about to notify; it never returns before the unpaused time
is the timeout; a timer is set for no later than the time at which that is so, plus the time that
the check has taken; and a check after that time returns. -/
structure TimesOut (m : AgentClock) : Prop where
  accounting : m.pausedDuration = m.heldTotal
  awake : m.watchdog = .waitingPaused false → m.isPaused = true ∨
    ∃ n, m.guards n = .stopping ∨ m.guards n = .notifyingStop
  notEarly : m.watchdog = .returned → m.timeout ≤ m.unpaused
  inTime : ∀ deadline delay, m.watchdog = .sleeping deadline delay false →
    deadline ≤ m.started + m.timeout + m.heldTotal + delay ∨ ∃ n, m.guards n = .notifyingStop
  returns : ∀ checked extra heldBefore, m.watchdog = .readExtra checked extra heldBefore →
    m.started + m.timeout + m.heldTotal ≤ checked →
      m.watch = some (m.setWatchdog .returned) ∨ ∃ n, m.guards n = .notifyingStop

theorem Sound.timesOut (h : m.Sound) : m.TimesOut where
  accounting := h.clocked.accounting
  awake hw := by
    rcases h.watched.awake (Or.inr hw) with hpos | hnotifying
    · exact Or.inl (by simpa [isPaused] using hpos)
    · exact Or.inr hnotifying
  notEarly hw := by
    have hreading := h.watched.reading
    simp only [Reading, hw] at hreading
    unfold unpaused
    omega
  inTime deadline delay hw := by
    have hover := h.watched.overcounts
    simp only [Overcounts, hw] at hover
    by_cases hlate : m.started + m.timeout + m.heldTotal + delay < deadline
    · exact Or.inr (hover hlate)
    · exact Or.inl (by omega)
  returns checked extra heldBefore hw hdue := by
    have hover := h.watched.overcounts
    have hreading := h.watched.reading
    simp only [Overcounts, hw] at hover
    simp only [Reading, hw] at hreading
    by_cases hcount : m.heldTotal < m.pausedTotal + extra
    · exact Or.inr (hover hcount)
    · refine Or.inl ?_
      have hge : checked - m.started - (m.pausedTotal + extra) ≥ m.timeout := by omega
      simp only [AgentClock.watch, hw, if_pos hge]

/-- **When the timeout counts the unpaused time.**  In every run of guards and of the watchdog
whose steps are orderly. -/
theorem timeout_counts_unpaused {started timeoutSecs : ℕ} {acts : List ClockAct}
    (hrun : Run OrderlyStep (new started timeoutSecs) acts m) : m.TimesOut :=
  (hrun.invariant (P := Sound) (fun _ _ _ h hstep => h.step hstep.1 hstep.2)
    ⟨.new started timeoutSecs, .new started timeoutSecs⟩).timesOut

/-! ## Single runs -/

/-- A run waits for ten units of time and is cancelled when it has taken its second beside
them. -/
theorem timeout_counts_unpaused_once : ∃ m acts, Run OrderlyStep (new 0 1) acts m ∧
    m.watchdog = .returned ∧ m.now = 10 ^ 9 + 10 ∧ m.TimesOut := by
  have hrun : ∃ m, Run OrderlyStep (new 0 1) [.enter 0, .start 0, .notify 0, .tick 10, .leave 0,
      .stop 0, .notify 0, .tick (10 ^ 9), .watch, .watch, .watch] m ∧ m.watchdog = .returned ∧
        m.now = 10 ^ 9 + 10 := by
    refine ⟨_, .cons ⟨.enter rfl, fun _ hn => nomatch hn⟩ <| .cons ⟨.start rfl, fun n hn => ?_⟩ <|
      .cons ⟨.notifyStart rfl, nofun⟩ <| .cons ⟨.tickHeld 10 ⟨0, rfl⟩, trivial⟩ <|
      .cons ⟨.leave rfl, trivial⟩ <| .cons ⟨.stop rfl, trivial⟩ <|
      .cons ⟨.notifyStop rfl, fun _ => ⟨nofun, nofun⟩⟩ <|
      .cons ⟨.tickFree (10 ^ 9) fun n => ?_, trivial⟩ <| .cons ⟨.watch rfl, trivial⟩ <|
      .cons ⟨.watch rfl, trivial⟩ <| .cons ⟨.watch rfl, trivial⟩ <| .nil _, by decide, by decide⟩
    · rw [enter, guards_setGuard] at hn
      split at hn <;> cases hn
    · by_cases hn : n = 0
      · rw [hn]
        rfl
      · simp [setGuard, stop, leave, start, enter, notifyWaiters, new, GuardPhase.holds]
  obtain ⟨m, hrun, hreturned, hnow⟩ := hrun
  exact ⟨m, _, hrun, hreturned, hnow, timeout_counts_unpaused hrun⟩

/-- The last guard of a pause goes while another one comes: it takes the start that the other has
just set, and a pause of ten units is not counted.  And a guard goes after the watchdog has seen
it and before it polls the notification: the watchdog waits although nobody will notify it, and
the time of the run is over. -/
theorem calls_interfere :
    (∃ m acts, Run ClockStep (new 0 1) acts m ∧ (∀ n, (m.guards n).quiet = true) ∧
      m.heldTotal = 10 ∧ m.pausedDuration = 0) ∧
    ∃ m acts, Run ClockStep (new 0 1) acts m ∧ (∀ n, (m.guards n).quiet = true) ∧
      m.isPaused = false ∧ m.watchdog = .waitingPaused false ∧ m.timeout ≤ m.unpaused := by
  constructor
  · refine ⟨_, [.enter 0, .start 0, .notify 0, .tick 10, .leave 0, .enter 1, .start 1, .stop 0,
      .notify 0, .notify 1], .cons (.enter rfl) <| .cons (.start rfl) <| .cons (.notifyStart rfl) <|
      .cons (.tickHeld 10 ⟨0, rfl⟩) <| .cons (.leave rfl) <| .cons (.enter rfl) <|
      .cons (.start rfl) <| .cons (.stop rfl) <| .cons (.notifyStop rfl) <|
      .cons (.notifyStart rfl) <| .nil _, fun n => ?_, rfl, rfl⟩
    match n with
    | 0 => rfl
    | 1 => rfl
    | n + 2 => rfl
  · refine ⟨_, [.enter 0, .start 0, .notify 0, .watch, .watch, .watch, .watch, .leave 0, .stop 0,
      .notify 0, .watch, .tick (10 ^ 9)], .cons (.enter rfl) <| .cons (.start rfl) <|
      .cons (.notifyStart rfl) <| .cons (.watch rfl) <| .cons (.watch rfl) <| .cons (.watch rfl) <|
      .cons (.watch rfl) <| .cons (.leave rfl) <| .cons (.stop rfl) <| .cons (.notifyStop rfl) <|
      .cons (.watch rfl) <| .cons (.tickFree (10 ^ 9) fun n => ?_) <| .nil _, fun n => ?_, rfl, rfl,
      by decide⟩
    · match n with
      | 0 => rfl
      | n + 1 => rfl
    · match n with
      | 0 => rfl
      | n + 1 => rfl

end AgentClock

end Chelix.Chat
