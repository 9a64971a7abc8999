import Chelix.Gateway.BrokerLaw

/-!
# Delivery of surface actions along a run
-/

namespace Chelix.Gateway

open Chelix.Library Function A2uiBroker BrokerSound

variable {μ : Type*}

/-! ## Waits along a run -/

/-- How a step changes where a wait stands. -/
inductive PhaseMove : WaitPhase μ → WaitPhase μ → Prop
  | stay (phase) : PhaseMove phase phase
  | start (phase) : PhaseMove .idle phase
  | take (key sent since) : PhaseMove (.waiting key) (.delivered key sent since)
  | takeAbandoned (key since) : PhaseMove (.abandoned key none) (.abandoned key (some since))
  | receive (key sent since) : PhaseMove (.delivered key sent since) (.returned key sent since)
  | drop (key) : PhaseMove (.waiting key) (.abandoned key none)
  | dropDelivered (key sent since) :
      PhaseMove (.delivered key sent since) (.abandoned key (some since))
  | cleanup (key since) : PhaseMove (.abandoned key none) (.dropped key since)
  | cleanupTaken (key since) : PhaseMove (.abandoned key (some since)) (.dropped key since)

variable {id : ℕ} {phase : WaitPhase μ}

theorem phaseMove_update {waits : ℕ → WaitPhase μ} (h : PhaseMove (waits id) phase) (i : ℕ) :
    PhaseMove (waits i) (Function.update waits id phase i) := by
  by_cases hi : i = id
  · subst hi
    rwa [update_self]
  · rw [update_of_ne hi]
    exact .stay _

namespace BrokerSound

variable {w p w' : A2uiBroker μ} {e : BrokerEvent μ}

theorem phase_of_move (h : BrokerSound p) (hmove : BrokerMove p e w') (i : ℕ) :
    PhaseMove (p.waits i) (w'.waits i) := by
  cases hmove with
  | take key message now id hentry =>
    refine phaseMove_update ?_ i
    rcases h.held_of_waiting hentry with hphase | hphase
    · rw [hphase]
      exact .take ..
    · rw [hphase]
      exact .takeAbandoned ..
  | refuse | buffer => exact .stay _
  | deliver | failWait | register =>
    refine phaseMove_update ?_ i
    simp only [h.waits_next]
    exact .start _
  | receive id now key sent since hphase =>
    refine phaseMove_update ?_ i
    rw [hphase]
    exact .receive ..
  | drop id now key hphase =>
    refine phaseMove_update ?_ i
    rw [hphase]
    exact .drop ..
  | dropDelivered id now key sent since hphase =>
    refine phaseMove_update ?_ i
    rw [hphase]
    exact .dropDelivered ..
  | cleanup id now key hphase =>
    refine phaseMove_update ?_ i
    simp only [hphase]
    exact .cleanup ..
  | cleanupTaken id now key since hphase =>
    refine phaseMove_update ?_ i
    rw [hphase]
    exact .cleanupTaken ..

theorem phase_of_step (h : BrokerSound w) (hstep : BrokerStep w e w') (i : ℕ) :
    PhaseMove (w.waits i) (w'.waits i) := by
  obtain ⟨hnow, hmove⟩ := h.move_of_step hstep
  have hphase := (h.opened hnow).phase_of_move hmove i
  rwa [waits_opened] at hphase

end BrokerSound

/-- A wait that has been handed an action, or was dropped after that. -/
def HandedOver (key : InteractionKey) (sent : SentAction μ) (since : ℕ) (phase : WaitPhase μ) :
    Prop :=
  phase = .delivered key sent since ∨ phase = .returned key sent since ∨
    phase = .abandoned key (some since) ∨ phase = .dropped key since

variable {key : InteractionKey} {sent : SentAction μ} {since : ℕ}

theorem HandedOver.move {phase' : WaitPhase μ} (h : HandedOver key sent since phase)
    (hmove : PhaseMove phase phase') : HandedOver key sent since phase' := by
  rcases h with rfl | rfl | rfl | rfl
  · cases hmove with
    | stay => exact .inl rfl
    | receive => exact .inr (.inl rfl)
    | dropDelivered => exact .inr (.inr (.inl rfl))
  · cases hmove
    exact .inr (.inl rfl)
  · cases hmove with
    | stay => exact .inr (.inr (.inl rfl))
    | cleanupTaken => exact .inr (.inr (.inr rfl))
  · cases hmove
    exact .inr (.inr (.inr rfl))

variable {w : A2uiBroker μ} {events : List (BrokerEvent μ)}

theorem handedOver_of_run {w' : A2uiBroker μ} (hw : BrokerSound w)
    (hrun : Run BrokerStep w events w') (h : HandedOver key sent since (w.waits id)) :
    HandedOver key sent since (w'.waits id) := by
  refine (hrun.invariant (P := fun w => BrokerSound w ∧ HandedOver key sent since (w.waits id))
    ?_ ⟨hw, h⟩).2
  rintro w e w' ⟨hw, h⟩ hstep
  exact ⟨hw.step hstep, h.move (hw.phase_of_step hstep id)⟩

theorem returned_of_run {w' : A2uiBroker μ} (hw : BrokerSound w) (hrun : Run BrokerStep w events w')
    (h : w.waits id = .returned key sent since) : w'.waits id = .returned key sent since := by
  refine (hrun.invariant (P := fun w => BrokerSound w ∧ w.waits id = .returned key sent since)
    ?_ ⟨hw, h⟩).2
  rintro w e w' ⟨hw, h⟩ hstep
  have hmove := hw.phase_of_step hstep id
  rw [h] at hmove
  refine ⟨hw.step hstep, ?_⟩
  generalize w'.waits id = phase at hmove
  cases hmove
  rfl

/-! ## Answers of submit -/

namespace A2uiBroker

/-- A call of `submit` that is answered `Ok`. -/
def Accepts (w : A2uiBroker μ) (key : InteractionKey) (message : μ) (now : ℕ) : Prop :=
  (w.submission key message now).answer = .ok ()

end A2uiBroker

variable {e : BrokerEvent μ}

namespace BrokerSound

variable {w w' : A2uiBroker μ} {key : InteractionKey} {message : μ} {now : ℕ}

/-- A call is answered `Ok` if its key is waited for, or has no entry and the buffer has room. -/
theorem accepts_iff (h : BrokerSound w) (hnow : w.clock ≤ now) :
    w.Accepts key message now ↔ (∃ id, w.waits id = .waiting key) ∨
      (w.pruned now).state.lookup key = none ∧
        (w.pruned now).state.bufferedCount < maxActionBuffer := by
  have hp := h.pruned hnow
  unfold A2uiBroker.Accepts submission BrokerState.submit BrokerState.accept
  have hwaiting : ∀ id, w.waits id = .waiting key →
      (w.pruned now).state.lookup key = some (.waiting ⟨id⟩) := by
    intro id hid
    rw [hp.waiter key id]
    change (w.waits id).holding = some key
    rw [hid]
    rfl
  have hstate : w.state.pruneBufferedActions now = (w.pruned now).state := rfl
  rw [hstate]
  cases hentry : (w.pruned now).state.lookup key with
  | none =>
    have hno : ¬ ∃ id, w.waits id = .waiting key := by
      rintro ⟨id, hid⟩
      have := hwaiting id hid
      rw [hentry] at this
      cases this
    rw [or_iff_right hno]
    by_cases hroom : maxActionBuffer ≤ (w.pruned now).state.bufferedCount
    · simp [hroom]
    · simp [hroom, not_le.mp hroom]
  | some entry =>
    rw [or_iff_left (by simp)]
    cases entry with
    | buffered action | completed t =>
      simp only [reduceCtorEq, false_iff]
      rintro ⟨id, hid⟩
      have := hwaiting id hid
      rw [hentry] at this
      cases this
    | waiting waiter =>
      obtain ⟨id⟩ := waiter
      simp only
      constructor
      · intro hanswer
        by_cases halive : (w.waits id).isWaiting
        · rcases hp.held_of_waiting hentry with hphase | hphase
          · exact ⟨id, hphase⟩
          · change w.waits id = _ at hphase
            rw [hphase] at halive
            cases halive
        · rw [if_neg halive] at hanswer
          cases hanswer
      · rintro ⟨i, hi⟩
        have hsame := hwaiting i hi
        rw [hentry] at hsame
        cases hsame
        rw [if_pos (by rw [hi]; rfl)]

/-- A key whose wait is over is refused for as long as it is remembered. -/
theorem not_accepts_of_over (h : BrokerSound w) (hnow : w.clock ≤ now)
    (hover : (w.waits id).IsOver key)
    (htime : ∀ since, (w.waits id).closed = some (key, since) → now < since + bufferTtl) :
    ¬ w.Accepts key message now := by
  have hp := h.pruned hnow
  have hentry : (∃ t, (w.pruned now).state.lookup key = some (.completed t)) ∨
      (w.pruned now).state.lookup key = some (.waiting ⟨id⟩) ∧
        w.waits id = .abandoned key none := by
    have hremembered : ∀ since, (w.waits id).closed = some (key, since) →
        ∃ t, (w.pruned now).state.lookup key = some (.completed t) := by
      intro since hclosed
      obtain ⟨-, hentry⟩ := hp.remembered id key since hclosed
      obtain ⟨t, -, hlookup⟩ := hentry (htime since hclosed)
      exact ⟨t, hlookup⟩
    cases hphase : w.waits id with
    | idle | waiting | delivered | failed =>
      rw [hphase] at hover
      exact hover.elim
    | returned key' sent since | dropped key' since =>
      rw [hphase] at hover
      cases hover
      exact .inl (hremembered since (by rw [hphase]; rfl))
    | abandoned key' since =>
      rw [hphase] at hover
      cases hover
      cases since with
      | some since => exact .inl (hremembered since (by rw [hphase]; rfl))
      | none =>
        refine .inr ⟨(hp.waiter _ id).mpr ?_, rfl⟩
        change (w.waits id).holding = some _
        rw [hphase]
        rfl
  rw [h.accepts_iff hnow]
  rintro (⟨i, hi⟩ | ⟨hnone, -⟩)
  · have hwaiter : (w.pruned now).state.lookup key = some (.waiting ⟨i⟩) := by
      rw [hp.waiter key i]
      change (w.waits i).holding = some key
      rw [hi]
      rfl
    rw [hwaiter] at hentry
    rcases hentry with ⟨t, heq⟩ | ⟨heq, hphase⟩
    · cases heq
    · cases heq
      rw [hi] at hphase
      cases hphase
  · rw [hnone] at hentry
    rcases hentry with ⟨t, heq⟩ | ⟨heq, -⟩
    · cases heq
    · cases heq

theorem lookup_of_waiting (h : BrokerSound w) (hnow : w.clock ≤ now)
    (hid : w.waits id = .waiting key) : (w.pruned now).state.lookup key = some (.waiting ⟨id⟩) := by
  rw [(h.pruned hnow).waiter key id]
  change (w.waits id).holding = some key
  rw [hid]
  rfl

theorem submit_of_waiting (h : BrokerSound w) (hstep : BrokerStep w (.submit key message now) w')
    (hid : w.waits id = .waiting key) :
    w'.waits id = .delivered key ⟨w.submissions, message⟩ now := by
  obtain ⟨hnow, hmove⟩ := h.move_of_step hstep
  have hentry := h.lookup_of_waiting hnow hid
  cases hmove with
  | take key message now id' hentry' =>
    cases hentry.symm.trans hentry'
    change Function.update w.waits id _ id = _
    rw [update_self]
    change (w.waits id).take _ _ = _
    rw [hid]
    rfl
  | refuse key message now hne => exact absurd hentry (hne id)
  | buffer key message now hnone => cases hentry.symm.trans hnone

/-- A call that is answered `Ok` hands its action to the waiter of its key, or buffers it. -/
theorem submit_of_accepts (h : BrokerSound w) (hstep : BrokerStep w (.submit key message now) w')
    (haccepts : w.Accepts key message now) :
    (∃ id, w.waits id = .waiting key ∧ w'.state.lookup key = some (.completed now)) ∨
      w'.state.lookup key = some (.buffered ⟨⟨w.submissions, message⟩, now⟩) := by
  obtain ⟨hnow, hmove⟩ := h.move_of_step hstep
  have hcases := (h.accepts_iff hnow).mp haccepts
  cases hmove with
  | take key message now id hentry =>
    rcases hcases with ⟨i, hi⟩ | ⟨hnone, -⟩
    · exact .inl ⟨i, hi, AList.lookup_insert _⟩
    · cases hentry.symm.trans hnone
  | refuse key message now hne hfull =>
    rcases hcases with ⟨i, hi⟩ | ⟨hnone, hroom⟩
    · exact absurd (h.lookup_of_waiting hnow hi) (hne i)
    · exact absurd (hfull hnone) (not_le.mpr hroom)
  | buffer key message now hnone hroom => exact .inr (AList.lookup_insert _)

/-- After a call that is answered `Ok` nothing waits for its key. -/
theorem not_waiting_of_accepts (h : BrokerSound w)
    (hstep : BrokerStep w (.submit key message now) w') (haccepts : w.Accepts key message now)
    (id : ℕ) : w'.waits id ≠ .waiting key := by
  intro hid
  have hwaiter : w'.state.lookup key = some (.waiting ⟨id⟩) := by
    rw [(h.step hstep).waiter, hid]
    rfl
  rcases h.submit_of_accepts hstep haccepts with ⟨-, -, hentry⟩ | hentry
  · cases hentry.symm.trans hwaiter
  · cases hentry.symm.trans hwaiter

theorem clock_of_step (h : BrokerSound w) (hstep : BrokerStep w e w') :
    w.clock ≤ w'.clock ∧ w'.clock = e.now := by
  obtain ⟨hnow, hmove⟩ := h.move_of_step hstep
  have hclock : w'.clock = (w.opened e).clock := by
    cases hmove <;> rfl
  rw [clock_opened] at hclock
  exact ⟨hclock ▸ hnow, hclock⟩

variable {action : BufferedAction (SentAction μ)}

theorem lookup_opened (hentry : w.state.lookup key = some (.buffered action))
    (htime : e.now < action.createdAt + bufferTtl) :
    (w.opened e).state.lookup key = some (.buffered action) := by
  have hfresh : (BrokerEntry.buffered action).fresh e.now = true := by
    have hpos : 0 < bufferTtl := by decide
    simp only [BrokerEntry.fresh, decide_eq_true_eq]
    omega
  cases e with
  | submit | wait =>
    simp only [A2uiBroker.opened, A2uiBroker.pruned]
    rw [lookup_prune, hentry]
    exact Option.filter_some_pos hfresh
  | receive | drop | cleanup => exact hentry

theorem buffered_of_step (h : BrokerSound w) (hstep : BrokerStep w e w')
    (hentry : w.state.lookup key = some (.buffered action)) (hwait : ∀ now, e ≠ .wait key now)
    (htime : w'.clock < action.createdAt + bufferTtl) :
    w'.state.lookup key = some (.buffered action) := by
  rw [(h.clock_of_step hstep).2] at htime
  have hopened := lookup_opened hentry htime
  obtain ⟨hnow, hmove⟩ := h.move_of_step hstep
  have hp := h.opened hnow
  have hother : ∀ {key'} (entry : BrokerEntry (SentAction μ)),
      (w.opened e).state.lookup key' ≠ some (.buffered action) →
      AList.lookup key (AList.insert key' entry (w.opened e).state) = some (.buffered action) := by
    intro key' entry hne
    rw [AList.lookup_insert_ne, hopened]
    rintro rfl
    exact hne hopened
  cases hmove with
  | take key' message now id hentry' => exact hother _ (by simp [hentry'])
  | buffer key' message now hnone | register key' now hnone => exact hother _ (by simp [hnone])
  | deliver key' now action' hentry' =>
    refine (AList.lookup_insert_ne ?_).trans hopened
    rintro rfl
    exact hwait now rfl
  | cleanup id now key' hphase =>
    have hwaiter : (w.opened (.cleanup id now)).state.lookup key' = some (.waiting ⟨id⟩) := by
      rw [hp.waiter, hphase]
      rfl
    exact hother _ (by simp [hwaiter])
  | refuse | failWait | receive | drop | dropDelivered | cleanupTaken => exact hopened

theorem buffered_of_run (h : BrokerSound w) (hrun : Run BrokerStep w events w')
    (hentry : w.state.lookup key = some (.buffered action)) (hwait : ∀ now, .wait key now ∉ events)
    (htime : w'.clock < action.createdAt + bufferTtl) :
    w'.state.lookup key = some (.buffered action) := by
  induction hrun with
  | nil => exact hentry
  | @cons u v t e events hstep hrest ih =>
    have hclock : v.clock ≤ t.clock :=
      (hrest.invariant (P := fun w => BrokerSound w ∧ v.clock ≤ w.clock)
        (fun _ _ _ hw hs => ⟨hw.1.step hs, hw.2.trans (hw.1.clock_of_step hs).1⟩)
        ⟨h.step hstep, le_rfl⟩).2
    refine ih (h.step hstep) (h.buffered_of_step hstep hentry ?_ (lt_of_le_of_lt hclock htime))
      (fun now hmem => hwait now (List.mem_cons_of_mem _ hmem)) htime
    rintro now rfl
    exact hwait now (List.mem_cons_self ..)

theorem wait_of_buffered (h : BrokerSound w) (hstep : BrokerStep w (.wait key now) w')
    (hentry : w.state.lookup key = some (.buffered action))
    (htime : now < action.createdAt + bufferTtl) :
    w'.waits w.nextWaiterId = .returned key action.message now := by
  have hopened := lookup_opened (e := .wait key now) hentry htime
  obtain ⟨hnow, hmove⟩ := h.move_of_step hstep
  cases hmove with
  | deliver key now action' hentry' =>
    cases hopened.symm.trans hentry'
    exact update_self ..
  | failWait key now error entry hentry' hbuffered =>
    cases hopened.symm.trans hentry'
    cases hbuffered
  | register key now hnone => cases hopened.symm.trans hnone

end BrokerSound

/-! ## Where actions come from -/

/-- An action is buffered under a key, or given to a wait for it. -/
def A2uiBroker.Holds (w : A2uiBroker μ) (key : InteractionKey) (sent : SentAction μ) : Prop :=
  (∃ t, w.state.lookup key = some (.buffered ⟨sent, t⟩)) ∨
    ∃ id, (w.waits id).sent = some (key, sent)

/-- An action was submitted for a key, as the call of its number, and the call answered `Ok`. -/
def AcceptedIn (clock : ℕ) (events : List (BrokerEvent μ)) (key : InteractionKey)
    (sent : SentAction μ) : Prop :=
  ∃ pre now post u, events = pre ++ .submit key sent.message now :: post ∧
    Run BrokerStep (.default clock) pre u ∧ u.submissions = sent.number ∧
    u.Accepts key sent.message now

variable {clock : ℕ}

namespace BrokerSound

variable {w p w' : A2uiBroker μ} {e : BrokerEvent μ} {key : InteractionKey} {sent : SentAction μ}

theorem holds_opened (h : (w.opened e).Holds key sent) : w.Holds key sent := by
  rcases h with ⟨t, hentry⟩ | hsent
  · refine .inl ⟨t, ?_⟩
    cases e with
    | submit key' message now | wait key' now =>
      simp only [A2uiBroker.opened, A2uiBroker.pruned] at hentry
      rw [lookup_prune] at hentry
      exact (Option.filter_eq_some_iff.mp hentry).1
    | receive | drop | cleanup => exact hentry
  · rw [waits_opened] at hsent
    exact .inr hsent

theorem holds_update {waits : ℕ → WaitPhase μ}
    (hphase : phase.sent = none ∨ phase.sent = (waits id).sent)
    (h : ∃ i, (Function.update waits id phase i).sent = some (key, sent)) :
    ∃ i, (waits i).sent = some (key, sent) := by
  obtain ⟨i, hi⟩ := h
  by_cases hid : i = id
  · subst hid
    rw [update_self] at hi
    rcases hphase with hnone | hsame
    · cases hnone.symm.trans hi
    · exact ⟨i, hsame ▸ hi⟩
  · rw [update_of_ne hid] at hi
    exact ⟨i, hi⟩

theorem buffered_of_insert {s : BrokerState (SentAction μ)} {key' : InteractionKey}
    {entry : BrokerEntry (SentAction μ)} (hentry : entry.isBuffered = false)
    (h : ∃ t, AList.lookup key (AList.insert key' entry s) = some (.buffered ⟨sent, t⟩)) :
    ∃ t, s.lookup key = some (.buffered ⟨sent, t⟩) := by
  obtain ⟨t, ht⟩ := h
  rw [Entries.lookup_insert] at ht
  split at ht
  · cases ht
    cases hentry
  · exact ⟨t, ht⟩

theorem holds_of_step (h : BrokerSound w) (hstep : BrokerStep w e w') (hholds : w'.Holds key sent) :
    w.Holds key sent ∨ ∃ now, e = .submit key sent.message now ∧ w.submissions = sent.number ∧
      w.Accepts key sent.message now := by
  obtain ⟨hnow, hmove⟩ := h.move_of_step hstep
  have hp := h.opened hnow
  cases hmove with
  | take key' message now id hentry =>
    rcases hholds with hbuffered | ⟨i, hi⟩
    · exact .inl (holds_opened (.inl (buffered_of_insert rfl hbuffered)))
    · by_cases hid : i = id
      · subst hid
        simp only [update_self] at hi
        have hphase := hp.held_of_waiting hentry
        rcases hphase with hphase | hphase
        · rw [hphase] at hi
          cases hi
          exact .inr ⟨now, rfl, rfl, (h.accepts_iff hnow).mpr (.inl ⟨i, hphase⟩)⟩
        · rw [hphase] at hi
          cases hi
      · simp only [update_of_ne hid] at hi
        exact .inl (holds_opened (e := .submit key' message now) (.inr ⟨i, hi⟩))
  | refuse key' message now => exact .inl (holds_opened (e := .submit key' message now) hholds)
  | buffer key' message now hnone hroom =>
    rcases hholds with ⟨t, ht⟩ | hsent
    · simp only [Entries.lookup_insert] at ht
      by_cases hkey : key = key'
      · subst hkey
        rw [if_pos rfl] at ht
        cases ht
        exact .inr ⟨now, rfl, rfl, (h.accepts_iff hnow).mpr (.inr ⟨hnone, hroom⟩)⟩
      · rw [if_neg hkey] at ht
        exact .inl (holds_opened (e := .submit key' message now) (.inl ⟨t, ht⟩))
    · exact .inl (holds_opened (e := .submit key' message now) (.inr hsent))
  | deliver key' now action hentry =>
    refine .inl (holds_opened (e := .wait key' now) ?_)
    rcases hholds with hbuffered | ⟨i, hi⟩
    · exact .inl (buffered_of_insert rfl hbuffered)
    · by_cases hid : i = (w.opened (.wait key' now)).nextWaiterId
      · subst hid
        simp only [setWait_waits_self] at hi
        cases hi
        exact .inl ⟨_, hentry⟩
      · rw [setWait_waits_of_ne _ hid] at hi
        exact .inr ⟨i, hi⟩
  | failWait key' now =>
    refine .inl (holds_opened (e := .wait key' now) ?_)
    exact hholds.imp id (holds_update (.inl rfl))
  | register key' now hnone =>
    refine .inl (holds_opened (e := .wait key' now) ?_)
    exact hholds.imp (buffered_of_insert rfl) (holds_update (.inl rfl))
  | receive id now key' sent' since hphase =>
    refine .inl (holds_opened (e := .receive id now) ?_)
    exact hholds.imp (fun hb => hb) (holds_update (.inr (by rw [hphase]; rfl)))
  | drop id now key' hphase | dropDelivered id now key' sent' since hphase =>
    refine .inl (holds_opened (e := .drop id now) ?_)
    exact hholds.imp (fun hb => hb) (holds_update (.inl rfl))
  | cleanup id now key' hphase =>
    refine .inl (holds_opened (e := .cleanup id now) ?_)
    exact hholds.imp (buffered_of_insert rfl) (holds_update (.inl rfl))
  | cleanupTaken id now key' since hphase =>
    refine .inl (holds_opened (e := .cleanup id now) ?_)
    exact hholds.imp (fun hb => hb) (holds_update (.inl rfl))

theorem acceptedIn_of_holds (hrun : Run BrokerStep (.default clock) events w)
    (hholds : w.Holds key sent) : AcceptedIn clock events key sent := by
  obtain ⟨pre, e, post, u, v, rfl, hpre, hstep, -, hu, hv⟩ :=
    hrun.exists_turn (P := fun w => w.Holds key sent) (by
      rintro (⟨t, ht⟩ | ⟨id, hid⟩)
      · cases ht
      · cases hid) hholds
  obtain ⟨now, rfl, hnumber, haccepts⟩ :=
    ((of_run hpre).holds_of_step hstep hv).resolve_left hu
  exact ⟨pre, now, post, u, rfl, hpre, hnumber, haccepts⟩

end BrokerSound

/-! ## Delivery along a run -/

/-- A call of `submit` for a key whose waits are over comes while that is remembered. -/
def A2uiBroker.Timely (w : A2uiBroker μ) (key : InteractionKey) (now : ℕ) : Prop :=
  ∀ id since, (w.waits id).IsOver key → (w.waits id).closed = some (key, since) →
    now < since + bufferTtl

structure DeliversOnce (clock : ℕ) (events : List (BrokerEvent μ)) (w : A2uiBroker μ) : Prop where
  own : ∀ id key sent since, w.waits id = .returned key sent since →
    AcceptedIn clock events key sent
  once : ∀ id id' key key' sent sent' since since', w.waits id = .returned key sent since →
    w.waits id' = .returned key' sent' since' → sent.number = sent'.number → id = id'
  /-- An action for a key that is waited for goes to its wait, which may be dropped after that. -/
  handed : ∀ pre key message now post u id, events = pre ++ .submit key message now :: post →
    Run BrokerStep (.default clock) pre u → u.waits id = .waiting key →
    u.Accepts key message now ∧ HandedOver key ⟨u.submissions, message⟩ now (w.waits id)
  returns : ∀ id key sent since now, w.waits id = .delivered key sent since → w.clock ≤ now →
    ∃ w', BrokerStep w (.receive id now) w' ∧ w'.waits id = .returned key sent since
  /-- An action that comes before its wait is returned at once, if the wait comes in time. -/
  buffered : ∀ pre key message now mid now' post u v,
    events = pre ++ .submit key message now :: (mid ++ .wait key now' :: post) →
    Run BrokerStep (.default clock) pre u → u.Accepts key message now →
    (∀ id, u.waits id ≠ .waiting key) → (∀ t, .wait key t ∉ mid) → now' < now + bufferTtl →
    Run BrokerStep (.default clock) (pre ++ .submit key message now :: mid) v →
    (v.wait key now').waits v.nextWaiterId = .returned key ⟨u.submissions, message⟩ now' ∧
      w.waits v.nextWaiterId = .returned key ⟨u.submissions, message⟩ now'
  released : ∀ pre key message now post u v, events = pre ++ .submit key message now :: post →
    Run BrokerStep (.default clock) pre u → BrokerStep u (.submit key message now) v →
    u.Accepts key message now → ∀ id, v.waits id ≠ .waiting key
  room : w.state.bufferedCount ≤ maxActionBuffer

theorem split_run {pre post : List (BrokerEvent μ)} {u : A2uiBroker μ}
    (hrun : Run BrokerStep (.default clock) (pre ++ e :: post) w)
    (hpre : Run BrokerStep (.default clock) pre u) :
    ∃ v, BrokerStep u e v ∧ Run BrokerStep v post w := by
  obtain ⟨u', hpre', hrest⟩ := Run.append_iff.mp hrun
  cases Run.unique brokerStep_unique hpre hpre'
  exact Run.cons_iff.mp hrest

theorem deliversOnce_of_run (hrun : Run BrokerStep (.default clock) events w) :
    DeliversOnce clock events w where
  own id key sent since hid :=
    acceptedIn_of_holds hrun (.inr ⟨id, by rw [hid]; rfl⟩)
  once id id' key key' sent sent' since since' hid hid' hnumber := by
    have hplace := (of_run hrun).heldOnce.once (.channel id) (.channel id') sent sent'
      (by simp [held, hid, WaitPhase.sent])
      (by simp [held, hid', WaitPhase.sent]) hnumber
    cases hplace
    rfl
  handed := by
    rintro pre key message now post u id rfl hpre hid
    obtain ⟨v, hstep, hpost⟩ := split_run hrun hpre
    have hu := of_run hpre
    refine ⟨(hu.accepts_iff (hu.move_of_step hstep).1).mpr (.inl ⟨id, hid⟩), ?_⟩
    exact handedOver_of_run (hu.step hstep) hpost (.inl (hu.submit_of_waiting hstep hid))
  returns id key sent since now hid hnow := by
    refine ⟨{ w with
      state := w.state.removeWaiter key id now
      clock := now }.setWait id (.returned key sent since), ?_,
      setWait_waits_self ..⟩
    unfold BrokerStep next receive
    simp only [BrokerEvent.now, if_pos hnow, hid]
  buffered := by
    rintro pre key message now mid now' post u v rfl hpre haccepts hno hmid htime hv
    obtain ⟨u', hstep, hrest⟩ := split_run hrun hpre
    obtain ⟨v', hmid', hrest⟩ := Run.append_iff.mp hrest
    cases Run.unique brokerStep_unique hv (Run.append hpre (.cons hstep hmid'))
    obtain ⟨v', hwait, hpost⟩ := Run.cons_iff.mp hrest
    have hu := of_run hpre
    have hsound := of_run hv
    have hnow' := (hsound.move_of_step hwait).1
    have hentry := (hu.submit_of_accepts hstep haccepts).resolve_left (by
      rintro ⟨id, hid, -⟩
      exact hno id hid)
    have hbuffered := (hu.step hstep).buffered_of_run hmid' hentry hmid
      (lt_of_le_of_lt hnow' htime)
    have hreturned := hsound.wait_of_buffered hwait hbuffered htime
    refine ⟨?_, returned_of_run (hsound.step hwait) hpost hreturned⟩
    unfold BrokerStep next at hwait
    rw [if_pos hnow'] at hwait
    cases hwait
    exact hreturned
  released := by
    rintro pre key message now post u v - hpre hstep haccepts
    exact (of_run hpre).not_waiting_of_accepts hstep haccepts
  room := (of_run hrun).room

/-- In every run each action is delivered once.  Where every action for a key whose waits are over
comes while that is remembered, no such action is answered `Ok`. -/
theorem broker_delivers_once {clock : ℕ} {events : List (BrokerEvent μ)} {w : A2uiBroker μ}
    (hrun : Run BrokerStep (.default clock) events w) :
    DeliversOnce clock events w ∧
      ((∀ pre key message now post u, events = pre ++ .submit key message now :: post →
        Run BrokerStep (.default clock) pre u → u.Timely key now) →
      ∀ pre key message now post u id, events = pre ++ .submit key message now :: post →
        Run BrokerStep (.default clock) pre u → (u.waits id).IsOver key →
        ¬ u.Accepts key message now) := by
  refine ⟨deliversOnce_of_run hrun, ?_⟩
  rintro htimely pre key message now post u id rfl hpre hover
  obtain ⟨v, hstep, -⟩ := split_run hrun hpre
  have hu := BrokerSound.of_run hpre
  refine hu.not_accepts_of_over (hu.move_of_step hstep).1 hover fun since hclosed => ?_
  exact htimely pre key message now post u rfl hpre id since hover hclosed

theorem broker_delivers_once_waiting :
    ∃ w : A2uiBroker String, w.waits 0 = .returned ⟨"t:1", "run-1", "call-1"⟩ ⟨0, "confirm"⟩ 1 ∧
      AcceptedIn 0 [.wait ⟨"t:1", "run-1", "call-1"⟩ 0,
        .submit ⟨"t:1", "run-1", "call-1"⟩ "confirm" 1, .receive 0 2]
        ⟨"t:1", "run-1", "call-1"⟩ ⟨0, "confirm"⟩ := by
  obtain ⟨w, hrun, hreturned⟩ : ∃ w : A2uiBroker String,
      Run BrokerStep (.default 0) [.wait ⟨"t:1", "run-1", "call-1"⟩ 0,
        .submit ⟨"t:1", "run-1", "call-1"⟩ "confirm" 1, .receive 0 2] w ∧
      w.waits 0 = .returned ⟨"t:1", "run-1", "call-1"⟩ ⟨0, "confirm"⟩ 1 :=
    ⟨_, .cons rfl (.cons rfl (.cons rfl (.nil _))), rfl⟩
  exact ⟨w, hreturned, (broker_delivers_once hrun).1.own 0 _ _ _ hreturned⟩

theorem accepts_after_drop :
    ∃ (events : List (BrokerEvent String)) (u : A2uiBroker String) (key : InteractionKey),
      Run BrokerStep (.default 0) events u ∧ (u.waits 0).IsOver key ∧ u.clock ≤ 60 * 10 ^ 9 ∧
      u.Accepts key "confirm" (60 * 10 ^ 9) :=
  ⟨[.wait ⟨"t:1", "run-1", "call-1"⟩ 0, .drop 0 1, .cleanup 0 2], _,
    ⟨"t:1", "run-1", "call-1"⟩, .cons rfl (.cons rfl (.cons rfl (.nil _))), rfl, by decide, rfl⟩

end Chelix.Gateway
