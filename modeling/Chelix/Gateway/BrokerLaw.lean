import Chelix.Gateway.A2uiBroker

/-!
# What the broker of surface actions keeps

An action is held in one place, the buffer under its key or the channel of one wait, and a key
that a wait has completed keeps its completed entry until the time to live is over.
-/

namespace Chelix.Gateway

open Chelix.Library Function A2uiBroker Entries BrokerState

variable {μ : Type*}

/-! ## Places of an action -/

inductive ActionPlace where
  | buffer (key : InteractionKey)
  | channel (id : ℕ)
  deriving DecidableEq

def BrokerEntry.action : BrokerEntry μ → Option μ
  | .buffered action => some action.message
  | _ => none

namespace A2uiBroker

def held (w : A2uiBroker μ) : ActionPlace → Option (SentAction μ)
  | .buffer key => (w.state.lookup key).bind BrokerEntry.action
  | .channel id => (w.waits id).sent.map Prod.snd

@[simp] theorem setWait_waits_self (w : A2uiBroker μ) (id : ℕ) (phase : WaitPhase μ) :
    (w.setWait id phase).waits id = phase :=
  update_self ..

theorem setWait_waits_of_ne (w : A2uiBroker μ) {id i : ℕ} (h : i ≠ id) (phase : WaitPhase μ) :
    (w.setWait id phase).waits i = w.waits i :=
  update_of_ne h ..

/-- The state in which a call goes on after its pruning. -/
def pruned (w : A2uiBroker μ) (now : ℕ) : A2uiBroker μ :=
  { w with state := w.state.pruneBufferedActions now, clock := now }

end A2uiBroker

/-- No two places hold one action. -/
structure HeldOnce (w : A2uiBroker μ) : Prop where
  numbered : ∀ place sent, w.held place = some sent → sent.number < w.submissions
  once : ∀ place place' sent sent', w.held place = some sent → w.held place' = some sent' →
    sent.number = sent'.number → place = place'

/-- Actions that are moved one by one, with at most one new action, are still held once. -/
theorem HeldOnce.moved {w w' : A2uiBroker μ} (h : HeldOnce w) (origin : ActionPlace → ActionPlace)
    (new : ActionPlace) (hsubmissions : w.submissions ≤ w'.submissions)
    (horigin : ∀ place place', w'.held place ≠ none → w'.held place' ≠ none →
      origin place = origin place' → place = place')
    (hheld : ∀ place sent, w'.held place = some sent → w.held (origin place) = some sent ∨
      place = new ∧ sent.number = w.submissions ∧ w.submissions < w'.submissions) :
    HeldOnce w' where
  numbered := by
    intro place sent hplace
    rcases hheld place sent hplace with hold | ⟨-, hnumber, hlt⟩
    · exact lt_of_lt_of_le (h.numbered _ _ hold) hsubmissions
    · omega
  once := by
    intro place place' sent sent' hplace hplace' hnumber
    rcases hheld place sent hplace with hold | ⟨rfl, hnew, -⟩
    · rcases hheld place' sent' hplace' with hold' | ⟨rfl, hnew', -⟩
      · exact horigin _ _ (by simp [hplace]) (by simp [hplace'])
          (h.once _ _ _ _ hold hold' hnumber)
      · have := h.numbered _ _ hold
        omega
    · rcases hheld place' sent' hplace' with hold' | ⟨rfl, -, -⟩
      · have := h.numbered _ _ hold'
        omega
      · rfl

/-! ## The invariant -/

structure BrokerSound (w : A2uiBroker μ) : Prop where
  unused : ∀ id, w.nextWaiterId ≤ id → w.waits id = .idle
  waiter : ∀ key id, w.state.lookup key = some (.waiting ⟨id⟩) ↔ (w.waits id).holding = some key
  heldOnce : HeldOnce w
  /-- A completed key is remembered until its time is over. -/
  remembered : ∀ id key since, (w.waits id).closed = some (key, since) → since ≤ w.clock ∧
    (w.clock < since + bufferTtl → ∃ t, since ≤ t ∧ w.state.lookup key = some (.completed t))
  room : w.state.bufferedCount ≤ maxActionBuffer

variable {key : InteractionKey}

namespace BrokerSound

variable {w : A2uiBroker μ}

theorem default (clock : ℕ) : BrokerSound (A2uiBroker.default clock : A2uiBroker μ) where
  unused _ _ := rfl
  waiter key id := by simp [A2uiBroker.default, WaitPhase.holding]
  heldOnce := by
    have hnone : ∀ place, (A2uiBroker.default clock : A2uiBroker μ).held place = none := by
      intro place
      cases place with
      | buffer key => simp [A2uiBroker.held, A2uiBroker.default]
      | channel id => rfl
    refine ⟨?_, ?_⟩
    · intro place sent h
      rw [hnone] at h
      cases h
    · intro place place' sent sent' h
      rw [hnone] at h
      cases h
  remembered id key since h := by cases h
  room := Nat.zero_le _

theorem lookup_prune (s : BrokerState μ) (now : ℕ) (key : InteractionKey) :
    (s.pruneBufferedActions now).lookup key = (s.lookup key).filter (BrokerEntry.fresh now) :=
  lookup_retain _ s key

theorem pruned (h : BrokerSound w) {now : ℕ} (hnow : w.clock ≤ now) :
    BrokerSound (w.pruned now) where
  unused := h.unused
  waiter key id := by
    refine Iff.trans ?_ (h.waiter key id)
    simp only [A2uiBroker.pruned]
    rw [lookup_prune]
    simp [Option.filter_eq_some_iff, BrokerEntry.fresh]
  heldOnce := by
    refine h.heldOnce.moved id (.channel 0) le_rfl (fun _ _ _ _ heq => heq) ?_
    intro place sent hplace
    refine .inl ?_
    cases place with
    | channel id => exact hplace
    | buffer key =>
      simp only [A2uiBroker.held, A2uiBroker.pruned] at hplace ⊢
      rw [lookup_prune, Option.bind_eq_some_iff] at hplace
      obtain ⟨entry, hentry, haction⟩ := hplace
      rw [id, Option.bind_eq_some_iff]
      exact ⟨entry, (Option.filter_eq_some_iff.mp hentry).1, haction⟩
  remembered id key since hclosed := by
    obtain ⟨hle, hentry⟩ := h.remembered id key since hclosed
    refine ⟨hle.trans hnow, fun hlt => ?_⟩
    obtain ⟨t, ht, hlookup⟩ := hentry (lt_of_le_of_lt hnow hlt)
    refine ⟨t, ht, ?_⟩
    simp only [A2uiBroker.pruned] at hlt ⊢
    rw [lookup_prune, hlookup, Option.filter_some, if_pos]
    simp only [BrokerEntry.fresh, decide_eq_true_eq]
    have hpos : 0 < bufferTtl := by decide
    omega
  room := (Entries.count_retain_le _ _ w.state).trans h.room

theorem advance (h : BrokerSound w) {now : ℕ} (hnow : w.clock ≤ now) :
    BrokerSound { w with clock := now } where
  __ := h
  heldOnce := ⟨h.heldOnce.numbered, h.heldOnce.once⟩
  remembered id key since hclosed := by
    obtain ⟨hle, hentry⟩ := h.remembered id key since hclosed
    exact ⟨hle.trans hnow, fun hlt => hentry (lt_of_le_of_lt hnow hlt)⟩

/-- A wait that goes on or ends without a change of the map. -/
theorem setWait (h : BrokerSound w) {n id : ℕ} {phase : WaitPhase μ} (hn : w.nextWaiterId ≤ n)
    (hid : id < n) (hholding : phase.holding = (w.waits id).holding)
    (hsent : phase.sent = none ∨ phase.sent = (w.waits id).sent)
    (hclosed : phase.closed = none ∨ phase.closed = (w.waits id).closed) :
    BrokerSound ({ w with nextWaiterId := n }.setWait id phase) where
  unused i hi := by
    have hi' : n ≤ i := hi
    rw [setWait_waits_of_ne _ (by omega)]
    exact h.unused i (by omega)
  waiter key i := by
    refine (h.waiter key i).trans ?_
    by_cases hi : i = id
    · subst hi
      rw [setWait_waits_self, hholding]
    · rw [setWait_waits_of_ne _ hi]
  heldOnce := by
    refine h.heldOnce.moved (fun place => place) (.channel 0) le_rfl
      (fun _ _ _ _ heq => heq) ?_
    intro place sent hplace
    refine .inl ?_
    cases place with
    | buffer key => exact hplace
    | channel i =>
      by_cases hi : i = id
      · subst hi
        rcases hsent with hnone | hsame
        · simp [held, hnone] at hplace
        · simpa [held, hsame] using hplace
      · simpa [held, setWait_waits_of_ne _ hi] using hplace
  remembered i key since hi' := by
    refine h.remembered i key since ?_
    by_cases hi : i = id
    · subst hi
      rcases hclosed with hnone | hsame
      · simp [hnone] at hi'
      · simpa [hsame] using hi'
    · simpa [setWait_waits_of_ne _ hi] using hi'
  room := h.room

theorem insert (h : BrokerSound w) {entry : BrokerEntry (SentAction μ)}
    {n k : ℕ} {waits : ℕ → WaitPhase μ} (id : ℕ) (hothers : ∀ i, i ≠ id → waits i = w.waits i)
    (hunused : ∀ i, n ≤ i → waits i = .idle)
    (hopen : ∀ t, w.state.lookup key ≠ some (.completed t))
    (hown : ∀ i, w.state.lookup key = some (.waiting ⟨i⟩) → i = id)
    (hholding : (w.waits id).holding = none ∨ (w.waits id).holding = some key)
    (hwaiting : entry = .waiting ⟨id⟩ ∧ (waits id).holding = some key ∨
      (∀ i, entry ≠ .waiting ⟨i⟩) ∧ (waits id).holding = none)
    (hclosed : ∀ key' since, (waits id).closed = some (key', since) → key' = key ∧
      since ≤ w.clock ∧ entry = .completed w.clock)
    (hheld : HeldOnce { w with
      state := w.state.insert key entry, nextWaiterId := n, waits := waits, submissions := k })
    (hroom : bufferedCount (w.state.insert key entry) ≤ maxActionBuffer) :
    BrokerSound { w with
      state := w.state.insert key entry, nextWaiterId := n, waits := waits, submissions := k } where
  unused := hunused
  waiter key' i := by
    simp only [lookup_insert]
    by_cases hkey : key' = key
    · subst hkey
      rw [if_pos rfl]
      by_cases hi : i = id
      · subst hi
        rcases hwaiting with ⟨rfl, hsome⟩ | ⟨hne, hnone⟩
        · simp [hsome]
        · simp [hne, hnone]
      · rw [hothers i hi, ← h.waiter]
        constructor
        · intro heq
          rcases hwaiting with ⟨rfl, -⟩ | ⟨hne, -⟩
          · simp only [Option.some.injEq, BrokerEntry.waiting.injEq, PendingWaiter.mk.injEq] at heq
            exact absurd heq.symm hi
          · exact absurd (Option.some.inj heq) (hne i)
        · intro heq
          exact absurd (hown i heq) hi
    · rw [if_neg hkey]
      by_cases hi : i = id
      · subst hi
        rw [h.waiter]
        constructor
        · intro heq
          rcases hholding with hnone | hsome
          · rw [hnone] at heq
            cases heq
          · rw [hsome] at heq
            exact absurd (Option.some.inj heq).symm hkey
        · intro heq
          rcases hwaiting with ⟨-, hsome⟩ | ⟨-, hnone⟩
          · rw [hsome] at heq
            exact absurd (Option.some.inj heq).symm hkey
          · rw [hnone] at heq
            cases heq
      · rw [hothers i hi, h.waiter]
  heldOnce := hheld
  remembered i key' since hi' := by
    simp only [lookup_insert]
    by_cases hi : i = id
    · subst hi
      obtain ⟨rfl, hle, rfl⟩ := hclosed _ _ hi'
      exact ⟨hle, fun _ => ⟨w.clock, hle, if_pos rfl⟩⟩
    · simp only [hothers i hi] at hi'
      obtain ⟨hle, hentry⟩ := h.remembered i key' since hi'
      refine ⟨hle, fun hlt => ?_⟩
      obtain ⟨t, ht, hlookup⟩ := hentry hlt
      refine ⟨t, ht, ?_⟩
      rw [if_neg, hlookup]
      rintro rfl
      exact hopen t hlookup
  room := hroom

end BrokerSound

/-! ## Steps -/

/-- What a step does to the state that its pruning leaves, or that it finds. -/
inductive BrokerMove (p : A2uiBroker μ) : BrokerEvent μ → A2uiBroker μ → Prop
  | take (key message now id) (hentry : p.state.lookup key = some (.waiting ⟨id⟩)) :
      BrokerMove p (.submit key message now)
        { p with
          state := p.state.insert key (.completed p.clock)
          waits := Function.update p.waits id
            ((p.waits id).take ⟨p.submissions, message⟩ p.clock)
          submissions := p.submissions + 1 }
  | refuse (key message now) (hentry : ∀ id, p.state.lookup key ≠ some (.waiting ⟨id⟩))
      (hfull : p.state.lookup key = none → maxActionBuffer ≤ p.state.bufferedCount) :
      BrokerMove p (.submit key message now) { p with submissions := p.submissions + 1 }
  | buffer (key message now) (hentry : p.state.lookup key = none)
      (hroom : p.state.bufferedCount < maxActionBuffer) :
      BrokerMove p (.submit key message now)
        { p with
          state := p.state.insert key (.buffered ⟨⟨p.submissions, message⟩, p.clock⟩)
          submissions := p.submissions + 1 }
  | deliver (key now action) (hentry : p.state.lookup key = some (.buffered action)) :
      BrokerMove p (.wait key now)
        ({ p with
          state := p.state.insert key (.completed p.clock)
          nextWaiterId := p.nextWaiterId + 1 }.setWait p.nextWaiterId
            (.returned key action.message p.clock))
  | failWait (key now error entry) (hentry : p.state.lookup key = some entry)
      (hbuffered : entry.isBuffered = false) :
      BrokerMove p (.wait key now)
        ({ p with nextWaiterId := p.nextWaiterId + 1 }.setWait p.nextWaiterId (.failed key error))
  | register (key now) (hentry : p.state.lookup key = none) :
      BrokerMove p (.wait key now)
        ({ p with
          state := p.state.insert key (.waiting ⟨p.nextWaiterId⟩)
          nextWaiterId := p.nextWaiterId + 1 }.setWait p.nextWaiterId (.waiting key))
  | receive (id now key sent since) (hphase : p.waits id = .delivered key sent since) :
      BrokerMove p (.receive id now) (p.setWait id (.returned key sent since))
  | drop (id now key) (hphase : p.waits id = .waiting key) :
      BrokerMove p (.drop id now) (p.setWait id (.abandoned key none))
  | dropDelivered (id now key sent since) (hphase : p.waits id = .delivered key sent since) :
      BrokerMove p (.drop id now) (p.setWait id (.abandoned key (some since)))
  | cleanup (id now key) (hphase : p.waits id = .abandoned key none) :
      BrokerMove p (.cleanup id now)
        ({ p with state := p.state.insert key (.completed p.clock) }.setWait id
          (.dropped key p.clock))
  | cleanupTaken (id now key since) (hphase : p.waits id = .abandoned key (some since)) :
      BrokerMove p (.cleanup id now) (p.setWait id (.dropped key since))

/-- Where a step begins: after the pruning, or with the map as it is. -/
def A2uiBroker.opened (w : A2uiBroker μ) (e : BrokerEvent μ) : A2uiBroker μ :=
  match e with
  | .submit _ _ now | .wait _ now => w.pruned now
  | .receive _ now | .drop _ now | .cleanup _ now => { w with clock := now }

namespace BrokerSound

variable {w p w' : A2uiBroker μ} {e : BrokerEvent μ}

theorem opened (h : BrokerSound w) (hnow : w.clock ≤ e.now) : BrokerSound (w.opened e) := by
  cases e with
  | submit | wait => exact h.pruned hnow
  | receive | drop | cleanup => exact h.advance hnow

theorem waits_opened (w : A2uiBroker μ) (e : BrokerEvent μ) : (w.opened e).waits = w.waits := by
  cases e <;> rfl

theorem clock_opened (w : A2uiBroker μ) (e : BrokerEvent μ) : (w.opened e).clock = e.now := by
  cases e <;> rfl

/-- A wait has its waiter in the map if and only if it holds the key. -/
theorem hasWaiter_iff (h : BrokerSound w) {id : ℕ} :
    w.state.hasWaiter key id = true ↔ (w.waits id).holding = some key := by
  rw [← h.waiter, hasWaiter]
  split
  · case h_1 waiter hlookup =>
    obtain ⟨i⟩ := waiter
    simp [hlookup]
  · case h_2 hne =>
    constructor
    · intro hfalse
      cases hfalse
    · intro hlookup
      exact absurd hlookup (hne _)

theorem removeWaiter_of_holding (h : BrokerSound w) {id now : ℕ}
    (hholding : (w.waits id).holding = some key) :
    w.state.removeWaiter key id now = w.state.insert key (.completed now) := by
  rw [removeWaiter, if_pos (h.hasWaiter_iff.mpr hholding)]

theorem removeWaiter_of_not_holding (h : BrokerSound w) {id now : ℕ}
    (hholding : (w.waits id).holding = none) : w.state.removeWaiter key id now = w.state := by
  rw [removeWaiter, if_neg]
  rw [h.hasWaiter_iff, hholding]
  simp

theorem move_of_step (h : BrokerSound w) (hstep : BrokerStep w e w') :
    w.clock ≤ e.now ∧ BrokerMove (w.opened e) e w' := by
  unfold BrokerStep A2uiBroker.next at hstep
  split at hstep
  case isFalse => cases hstep
  case isTrue hnow =>
  refine ⟨hnow, ?_⟩
  cases e with
  | submit key message now =>
    cases hstep
    simp only [A2uiBroker.submit, A2uiBroker.submission, BrokerState.submit, BrokerState.accept]
    cases hentry : (w.state.pruneBufferedActions now).lookup key with
    | none =>
      by_cases hroom : maxActionBuffer ≤ (w.state.pruneBufferedActions now).bufferedCount
      · simp only [if_pos hroom]
        exact .refuse _ _ _ (by simp [A2uiBroker.opened, A2uiBroker.pruned, hentry])
          fun _ => hroom
      · simp only [if_neg hroom]
        exact .buffer _ _ _ hentry (not_le.mp hroom)
    | some entry =>
      cases entry with
      | waiting waiter => exact .take key message now waiter.id hentry
      | buffered action | completed t =>
        refine .refuse _ _ _ ?_ ?_ <;> simp [A2uiBroker.opened, A2uiBroker.pruned, hentry]
  | wait key now =>
    cases hstep
    simp only [A2uiBroker.wait, BrokerState.wait, BrokerState.enter]
    cases hentry : (w.state.pruneBufferedActions now).lookup key with
    | none => exact .register _ _ hentry
    | some entry =>
      cases entry with
      | waiting waiter | completed t => exact .failWait _ _ _ _ hentry rfl
      | buffered action => exact .deliver _ _ _ hentry
  | receive id now =>
    simp only [A2uiBroker.receive] at hstep
    cases hphase : w.waits id with
    | delivered key sent since =>
      simp only [hphase] at hstep
      cases hstep
      rw [h.removeWaiter_of_not_holding (by rw [hphase]; rfl)]
      exact .receive _ _ _ _ _ hphase
    | waiting key =>
      simp only [hphase] at hstep
      rw [if_pos (h.hasWaiter_iff.mpr (by rw [hphase]; rfl))] at hstep
      cases hstep
    | idle | abandoned | returned | failed | dropped =>
      simp only [hphase] at hstep
      cases hstep
  | drop id now =>
    simp only [A2uiBroker.drop] at hstep
    cases hphase : w.waits id with
    | waiting key =>
      simp only [hphase] at hstep
      cases hstep
      exact .drop _ _ _ hphase
    | delivered key sent since =>
      simp only [hphase] at hstep
      cases hstep
      exact .dropDelivered _ _ _ _ _ hphase
    | idle | abandoned | returned | failed | dropped =>
      simp only [hphase] at hstep
      cases hstep
  | cleanup id now =>
    simp only [A2uiBroker.cleanup] at hstep
    cases hphase : w.waits id with
    | abandoned key since =>
      simp only [hphase] at hstep
      cases hstep
      cases since with
      | none =>
        rw [h.removeWaiter_of_holding (by rw [hphase]; rfl)]
        exact .cleanup _ _ _ hphase
      | some since =>
        rw [h.removeWaiter_of_not_holding (by rw [hphase]; rfl)]
        exact .cleanupTaken _ _ _ _ hphase
    | idle | waiting | delivered | returned | failed | dropped =>
      simp only [hphase] at hstep
      cases hstep

theorem waits_next (h : BrokerSound w) : w.waits w.nextWaiterId = .idle := h.unused _ le_rfl

theorem lt_nextWaiterId (h : BrokerSound w) {id : ℕ} (hid : w.waits id ≠ .idle) :
    id < w.nextWaiterId := by
  by_contra hle
  exact hid (h.unused id (not_lt.mp hle))

theorem held_of_waiting (h : BrokerSound w) {id : ℕ}
    (hentry : w.state.lookup key = some (.waiting ⟨id⟩)) :
    w.waits id = .waiting key ∨ w.waits id = .abandoned key none := by
  have hholding := (h.waiter key id).mp hentry
  cases hphase : w.waits id with
  | waiting key' =>
    rw [hphase] at hholding
    cases hholding
    exact .inl rfl
  | abandoned key' since =>
    rw [hphase] at hholding
    cases since with
    | none =>
      cases hholding
      exact .inr rfl
    | some since => cases hholding
  | idle | delivered | returned | failed | dropped =>
    rw [hphase] at hholding
    cases hholding

theorem held_insert_completed (w : A2uiBroker μ) {t n k : ℕ}
    {waits : ℕ → WaitPhase μ} {key' : InteractionKey} {sent : SentAction μ}
    (h : ({ w with
      state := w.state.insert key (.completed t)
      nextWaiterId := n
      waits := waits
      submissions := k } : A2uiBroker μ).held (.buffer key') = some sent) :
    key' ≠ key ∧ w.held (.buffer key') = some sent := by
  simp only [held, lookup_insert] at h
  by_cases hkey : key' = key
  · rw [if_pos hkey] at h
    cases h
  · rw [if_neg hkey] at h
    exact ⟨hkey, h⟩

theorem take (h : BrokerSound p) {id : ℕ} (message : μ)
    (hentry : p.state.lookup key = some (.waiting ⟨id⟩)) :
    BrokerSound { p with
      state := p.state.insert key (.completed p.clock)
      waits := Function.update p.waits id ((p.waits id).take ⟨p.submissions, message⟩ p.clock)
      submissions := p.submissions + 1 } := by
  have hphase := h.held_of_waiting hentry
  refine h.insert (n := p.nextWaiterId) id (fun i hi => update_of_ne hi ..)
    ?_ ?_ ?_ ?_ ?_ ?_ ?_ ?_
  · intro i hi
    have hid : id < p.nextWaiterId := h.lt_nextWaiterId (by rcases hphase with hp | hp <;> simp [hp])
    rw [update_of_ne (by omega)]
    exact h.unused i hi
  · simp [hentry]
  · intro i hi
    rw [hentry] at hi
    cases hi
    rfl
  · rw [(h.waiter key id).mp hentry]
    exact .inr rfl
  · refine .inr ⟨by simp, ?_⟩
    rw [update_self]
    rcases hphase with hp | hp <;> rw [hp] <;> rfl
  · intro key' since hclosed
    rw [update_self] at hclosed
    rcases hphase with hp | hp <;> rw [hp] at hclosed <;> cases hclosed <;>
      exact ⟨rfl, le_rfl, rfl⟩
  · refine h.heldOnce.moved (fun place => place) (.channel id) (Nat.le_succ _)
      (fun _ _ _ _ heq => heq) ?_
    intro place sent hplace
    cases place with
    | buffer key' => exact .inl (held_insert_completed p hplace).2
    | channel i =>
      by_cases hi : i = id
      · subst hi
        refine .inr ⟨rfl, ?_, Nat.lt_succ_self _⟩
        simp only [held, update_self] at hplace
        rcases hphase with hp | hp <;> rw [hp] at hplace <;> cases hplace
        rfl
      · simp only [held, update_of_ne hi] at hplace
        exact .inl hplace
  · exact (count_insert_of_not _ _ rfl).trans h.room

theorem buffer (h : BrokerSound p) {key : InteractionKey} (message : μ)
    (hentry : p.state.lookup key = none) (hroom : p.state.bufferedCount < maxActionBuffer) :
    BrokerSound { p with
      state := p.state.insert key (.buffered ⟨⟨p.submissions, message⟩, p.clock⟩)
      submissions := p.submissions + 1 } := by
  refine h.insert p.nextWaiterId (fun _ _ => rfl) h.unused ?_ ?_ ?_ ?_ ?_ ?_ ?_
  · simp [hentry]
  · simp [hentry]
  · rw [h.waits_next]
    exact .inl rfl
  · rw [h.waits_next]
    exact .inr ⟨by simp, rfl⟩
  · rw [h.waits_next]
    rintro key' since ⟨⟩
  · refine h.heldOnce.moved (fun place => place) (.buffer key) (Nat.le_succ _)
      (fun _ _ _ _ heq => heq) ?_
    intro place sent hplace
    cases place with
    | channel i => exact .inl hplace
    | buffer key' =>
      simp only [held, lookup_insert] at hplace
      by_cases hkey : key' = key
      · rw [if_pos hkey] at hplace
        cases hplace
        exact .inr ⟨by rw [hkey], rfl, Nat.lt_succ_self _⟩
      · rw [if_neg hkey] at hplace
        exact .inl hplace
  · exact (count_insert_le _ _ _ _).trans hroom

theorem deliver (h : BrokerSound p) {action : BufferedAction (SentAction μ)}
    (hentry : p.state.lookup key = some (.buffered action)) :
    BrokerSound ({ p with
      state := p.state.insert key (.completed p.clock)
      nextWaiterId := p.nextWaiterId + 1 }.setWait p.nextWaiterId
        (.returned key action.message p.clock)) := by
  refine h.insert p.nextWaiterId (fun i hi => update_of_ne hi ..)
    ?_ ?_ ?_ ?_ ?_ ?_ ?_ ?_
  · intro i hi
    have hle : p.nextWaiterId + 1 ≤ i := hi
    simp only
    rw [update_of_ne (by omega)]
    exact h.unused i (by omega)
  · simp [hentry]
  · simp [hentry]
  · rw [h.waits_next]
    exact .inl rfl
  · refine .inr ⟨by simp, ?_⟩
    simp only [update_self]
    rfl
  · intro key' since hclosed
    simp only [update_self] at hclosed
    cases hclosed
    exact ⟨rfl, le_rfl, rfl⟩
  · refine h.heldOnce.moved
      (fun place => if place = .channel p.nextWaiterId then .buffer key else place)
      (.channel p.nextWaiterId) le_rfl ?_ ?_
    · intro place place' hplace hplace' heq
      have hne : place ≠ .buffer key := by
        rintro rfl
        obtain ⟨sent, hsent⟩ := Option.ne_none_iff_exists'.mp hplace
        exact (held_insert_completed p hsent).1 rfl
      have hne' : place' ≠ .buffer key := by
        rintro rfl
        obtain ⟨sent, hsent⟩ := Option.ne_none_iff_exists'.mp hplace'
        exact (held_insert_completed p hsent).1 rfl
      by_cases h1 : place = .channel p.nextWaiterId <;>
        by_cases h2 : place' = .channel p.nextWaiterId
      · rw [h1, h2]
      · rw [if_pos h1, if_neg h2] at heq
        exact absurd heq.symm hne'
      · rw [if_neg h1, if_pos h2] at heq
        exact absurd heq hne
      · rwa [if_neg h1, if_neg h2] at heq
    · intro place sent hplace
      refine .inl ?_
      cases place with
      | buffer key' =>
        rw [if_neg (by simp)]
        exact (held_insert_completed p hplace).2
      | channel i =>
        by_cases hi : i = p.nextWaiterId
        · subst hi
          simp only [held, update_self] at hplace
          cases hplace
          simp [held, hentry, BrokerEntry.action]
        · rw [if_neg (by simpa using hi)]
          simpa only [held, update_of_ne hi] using hplace
  · exact (count_insert_of_not _ _ rfl).trans h.room

theorem insertWait (h : BrokerSound p) {n id : ℕ} {phase : WaitPhase μ}
    {entry : BrokerEntry (SentAction μ)} (hn : p.nextWaiterId ≤ n) (hid : id < n)
    (hopen : ∀ t, p.state.lookup key ≠ some (.completed t))
    (hown : ∀ i, p.state.lookup key = some (.waiting ⟨i⟩) → i = id)
    (hholding : (p.waits id).holding = none ∨ (p.waits id).holding = some key)
    (hwaiting : entry = .waiting ⟨id⟩ ∧ phase.holding = some key ∨
      (∀ i, entry ≠ .waiting ⟨i⟩) ∧ phase.holding = none)
    (hclosed : ∀ key' since, phase.closed = some (key', since) → key' = key ∧
      since ≤ p.clock ∧ entry = .completed p.clock)
    (hbuffered : entry.isBuffered = false) (hsent : phase.sent = none) :
    BrokerSound ({ p with
      state := p.state.insert key entry
      nextWaiterId := n }.setWait id phase) := by
  refine h.insert id (fun i hi => update_of_ne hi ..) ?_ hopen hown hholding
    (by simpa using hwaiting) (by simpa using hclosed) ?_
    ((count_insert_of_not _ _ hbuffered).trans h.room)
  · intro i hi
    have hle : n ≤ i := hi
    simp only
    rw [update_of_ne (by omega)]
    exact h.unused i (by omega)
  · refine h.heldOnce.moved (fun place => place) (.channel 0) le_rfl (fun _ _ _ _ heq => heq) ?_
    intro place sent hplace
    refine .inl ?_
    cases place with
    | buffer key' =>
      simp only [held, lookup_insert] at hplace
      by_cases hkey : key' = key
      · rw [if_pos hkey] at hplace
        cases entry with
        | buffered action => cases hbuffered
        | waiting | completed => cases hplace
      · rw [if_neg hkey] at hplace
        exact hplace
    | channel i =>
      by_cases hi : i = id
      · subst hi
        simp only [held, update_self, hsent] at hplace
        cases hplace
      · simpa only [held, update_of_ne hi] using hplace

theorem refuse (h : BrokerSound p) : BrokerSound { p with submissions := p.submissions + 1 } where
  __ := h
  heldOnce := h.heldOnce.moved (fun place => place) (.channel 0) (Nat.le_succ _)
    (fun _ _ _ _ heq => heq) fun _ _ hplace => .inl hplace

theorem move (h : BrokerSound p) (hmove : BrokerMove p e w') : BrokerSound w' := by
  cases hmove with
  | take key message now id hentry => exact h.take message hentry
  | refuse key message now hentry => exact h.refuse
  | buffer key message now hentry hroom => exact h.buffer message hentry hroom
  | deliver key now action hentry => exact h.deliver hentry
  | failWait =>
    exact h.setWait (Nat.le_succ _) (Nat.lt_succ_self _) (by rw [h.waits_next]; rfl) (.inl rfl)
      (.inl rfl)
  | register key now hentry =>
    refine h.insertWait (Nat.le_succ _) (Nat.lt_succ_self _) (by simp [hentry]) (by simp [hentry])
      (.inl ?_) (.inl ⟨rfl, rfl⟩) (by rintro key' since ⟨⟩) rfl rfl
    rw [h.waits_next]
    rfl
  | receive id now key sent since hphase =>
    refine h.setWait le_rfl (h.lt_nextWaiterId (by simp [hphase])) ?_ (.inr ?_) (.inr ?_)
    all_goals rw [hphase]; rfl
  | drop id now key hphase =>
    refine h.setWait le_rfl (h.lt_nextWaiterId (by simp [hphase])) ?_ (.inl rfl) (.inl rfl)
    rw [hphase]
    rfl
  | dropDelivered id now key sent since hphase | cleanupTaken id now key since hphase =>
    refine h.setWait le_rfl (h.lt_nextWaiterId (by simp [hphase])) ?_ (.inl rfl) (.inr ?_)
    all_goals rw [hphase]; rfl
  | cleanup id now key hphase =>
    have hholding : (p.waits id).holding = some key := by
      rw [hphase]
      rfl
    have hentry := (h.waiter key id).mpr hholding
    refine h.insertWait le_rfl (h.lt_nextWaiterId (by simp [hphase])) (by simp [hentry]) ?_
      (.inr hholding) (.inr ⟨by simp, rfl⟩) ?_ rfl rfl
    · intro i hi
      rw [hentry] at hi
      cases hi
      rfl
    · rintro key' since ⟨⟩
      exact ⟨rfl, le_rfl, rfl⟩

theorem step (h : BrokerSound w) (hstep : BrokerStep w e w') : BrokerSound w' := by
  obtain ⟨hnow, hmove⟩ := h.move_of_step hstep
  exact (h.opened hnow).move hmove

theorem of_run {clock : ℕ} {events : List (BrokerEvent μ)}
    (hrun : Run BrokerStep (.default clock) events w) : BrokerSound w :=
  hrun.invariant (fun _ _ _ h hstep => h.step hstep) (default clock)

end BrokerSound

end Chelix.Gateway
