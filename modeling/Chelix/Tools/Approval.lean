import Chelix.Library.OrderedMap
import Chelix.Library.Run

/-!
# Approvals of commands

A command that needs the consent of an operator is registered with the sender of a channel, and
its caller waits for the decision on the receiver, for a limited time.  A decision takes the
entry out of the map and is sent.  A wait that ends in another way leaves the entry where it is.
-/

namespace Chelix.Tools

open Chelix.Library Option

/-! ## The manager -/

inductive ApprovalDecision where
  | approved
  | denied
  | timeout
  deriving DecidableEq

structure PendingApproval where
  command : String
  sessionKey : Option String
  deriving DecidableEq

structure PendingApprovalView where
  id : String
  command : String
  sessionKey : Option String
  deriving DecidableEq

/-- The receiving end of the channel of a request. -/
inductive ApprovalReceiver where
  | held
  | waiting (deadline : ℕ)
  | returned (decision : ApprovalDecision)
  | dropped
  deriving DecidableEq

def ApprovalReceiver.Live : ApprovalReceiver → Prop
  | .held | .waiting _ => True
  | .returned _ | .dropped => False

instance (receiver : ApprovalReceiver) : Decidable receiver.Live := by
  cases receiver <;> unfold ApprovalReceiver.Live <;> infer_instance

/-- The channel of a request: what was sent, and where the receiver stands. -/
structure ApprovalChannel where
  sent : Option ApprovalDecision
  receiver : ApprovalReceiver
  deriving DecidableEq

/-- Sends on a channel; a receiver that is gone gets nothing. -/
def ApprovalChannel.send (channel : ApprovalChannel) (decision : ApprovalDecision) :
    ApprovalChannel :=
  if channel.receiver.Live then { channel with sent := some decision } else channel

structure ApprovalManager where
  timeout : ℕ
  pending : OrderedMap String PendingApproval
  channels : String → Option ApprovalChannel

namespace ApprovalManager

def new (timeout : ℕ) : ApprovalManager where
  timeout := timeout
  pending := ∅
  channels _ := none

variable (m : ApprovalManager)

def setChannel (id : String) (channel : ApprovalChannel) : ApprovalManager :=
  { m with channels := Function.update m.channels id (some channel) }

def createRequest (id command : String) (sessionKey : Option String) : ApprovalManager :=
  { m with pending := m.pending.insert id ⟨command, sessionKey⟩ }.setChannel id ⟨none, .held⟩

def resolve (id : String) (decision : ApprovalDecision) : ApprovalManager :=
  match m.pending[id]?, m.channels id with
  | some _, some channel =>
    { m with pending := m.pending.erase id }.setChannel id (channel.send decision)
  | _, _ => m

/-- The requests in the order of their identifiers. -/
def pendingRequests : List PendingApprovalView :=
  m.pending.toList.map fun entry => ⟨entry.1, entry.2.command, entry.2.sessionKey⟩

/-- The first part of `wait_for_decision`, which sets the deadline. -/
def startWait (id : String) (now : ℕ) : Option ApprovalManager :=
  match m.channels id with
  | some ⟨sent, .held⟩ => some (m.setChannel id ⟨sent, .waiting (now + m.timeout)⟩)
  | _ => none

/-- A wait that finds a decision, or the sender gone without one. -/
def receive (id : String) : Option ApprovalManager :=
  match m.channels id with
  | some ⟨some decision, .waiting _⟩ =>
    some (m.setChannel id ⟨some decision, .returned decision⟩)
  | some ⟨none, .waiting _⟩ =>
    if m.pending[id]? = none then some (m.setChannel id ⟨none, .returned .denied⟩) else none
  | _ => none

/-- A wait that finds nothing at its deadline.  The channel is looked at before the clock. -/
def expire (id : String) (now : ℕ) : Option ApprovalManager :=
  match m.channels id with
  | some ⟨none, .waiting deadline⟩ =>
    if m.pending[id]? ≠ none ∧ deadline ≤ now then
      some (m.setChannel id ⟨none, .returned .timeout⟩)
    else none
  | _ => none

/-- The caller of a wait is cancelled, or the receiver is dropped before the wait. -/
def dropReceiver (id : String) : Option ApprovalManager :=
  match m.channels id with
  | some ⟨sent, .held⟩ | some ⟨sent, .waiting _⟩ => some (m.setChannel id ⟨sent, .dropped⟩)
  | _ => none

end ApprovalManager

/-! ## Steps -/

inductive ApprovalEvent where
  | createRequest (id command : String) (sessionKey : Option String)
  | resolve (id : String) (decision : ApprovalDecision)
  | startWait (id : String) (now : ℕ)
  | receive (id : String)
  | expire (id : String) (now : ℕ)
  | dropReceiver (id : String)
  deriving DecidableEq

/-- The request that an event is about. -/
def ApprovalEvent.id : ApprovalEvent → String
  | .createRequest id _ _ | .resolve id _ | .startWait id _ | .receive id | .expire id _
  | .dropReceiver id => id

/-- What an event does.  A new request gets an identifier that none had before. -/
def ApprovalManager.next (m : ApprovalManager) : ApprovalEvent → Option ApprovalManager
  | .createRequest id command sessionKey =>
    if m.channels id = none then some (m.createRequest id command sessionKey) else none
  | .resolve id decision => some (m.resolve id decision)
  | .startWait id now => m.startWait id now
  | .receive id => m.receive id
  | .expire id now => m.expire id now
  | .dropReceiver id => m.dropReceiver id

def ApprovalStep (m : ApprovalManager) (e : ApprovalEvent) (n : ApprovalManager) : Prop :=
  m.next e = some n

theorem approvalStep_unique (m : ApprovalManager) (e : ApprovalEvent) (n n' : ApprovalManager)
    (h : ApprovalStep m e n) (h' : ApprovalStep m e n') : n = n' :=
  Option.some.inj (h.symm.trans h')

/-- What an event does to the entry and to the channel of its request. -/
inductive ApprovalMove : Option PendingApproval → Option ApprovalChannel → ApprovalEvent →
    Option PendingApproval → Option ApprovalChannel → Prop
  | create (entry id command sessionKey) :
      ApprovalMove entry none (.createRequest id command sessionKey)
        (some ⟨command, sessionKey⟩) (some ⟨none, .held⟩)
  | decide (entry channel id decision) :
      ApprovalMove (some entry) (some channel) (.resolve id decision)
        none (some (channel.send decision))
  | ignore (entry channel id decision) (h : entry = none ∨ channel = none) :
      ApprovalMove entry channel (.resolve id decision) entry channel
  | start (entry sent id now deadline) :
      ApprovalMove entry (some ⟨sent, .held⟩) (.startWait id now)
        entry (some ⟨sent, .waiting deadline⟩)
  | receive (entry decision deadline id) :
      ApprovalMove entry (some ⟨some decision, .waiting deadline⟩) (.receive id)
        entry (some ⟨some decision, .returned decision⟩)
  | closed (deadline id) :
      ApprovalMove none (some ⟨none, .waiting deadline⟩) (.receive id)
        none (some ⟨none, .returned .denied⟩)
  | expire (entry deadline id now) :
      ApprovalMove (some entry) (some ⟨none, .waiting deadline⟩) (.expire id now)
        (some entry) (some ⟨none, .returned .timeout⟩)
  | drop (entry sent receiver id) (h : receiver.Live) :
      ApprovalMove entry (some ⟨sent, receiver⟩) (.dropReceiver id)
        entry (some ⟨sent, .dropped⟩)

namespace ApprovalManager

variable {m n : ApprovalManager} {e : ApprovalEvent} {id : String}

@[simp] theorem setChannel_pending (id : String) (channel : ApprovalChannel) :
    (m.setChannel id channel).pending = m.pending := rfl

@[simp] theorem setChannel_channels_self (id : String) (channel : ApprovalChannel) :
    (m.setChannel id channel).channels id = some channel :=
  Function.update_self ..

theorem setChannel_channels_of_ne {other : String} (h : other ≠ id) (channel : ApprovalChannel) :
    (m.setChannel id channel).channels other = m.channels other :=
  Function.update_of_ne h ..

theorem move_of_step (h : ApprovalStep m e n) :
    ApprovalMove m.pending[e.id]? (m.channels e.id) e n.pending[e.id]? (n.channels e.id) := by
  unfold ApprovalStep at h
  cases e with
  | createRequest id command sessionKey =>
    simp only [next] at h
    split at h
    · case isTrue hnone =>
      cases h
      simp only [ApprovalEvent.id, createRequest, setChannel_channels_self, setChannel_pending,
        OrderedMap.get_insert_self]
      rw [hnone]
      exact .create ..
    · cases h
  | resolve id decision =>
    simp only [next, Option.some.injEq] at h
    subst h
    simp only [ApprovalEvent.id, resolve]
    cases hentry : m.pending[id]? with
    | none =>
      simp only
      rw [hentry]
      exact .ignore _ _ _ _ (.inl rfl)
    | some entry =>
      cases hchannel : m.channels id with
      | none =>
        simp only
        rw [hentry, hchannel]
        exact .ignore _ _ _ _ (.inr rfl)
      | some channel =>
        simp only [setChannel_channels_self, setChannel_pending]
        rw [Std.ExtTreeMap.getElem?_erase_self]
        exact .decide ..
  | startWait id now =>
    simp only [next, startWait] at h
    simp only [ApprovalEvent.id]
    split at h
    · case h_1 sent hchannel =>
      cases h
      rw [hchannel, setChannel_channels_self, setChannel_pending]
      exact .start ..
    · cases h
  | receive id =>
    simp only [next, receive] at h
    simp only [ApprovalEvent.id]
    split at h
    · case h_1 decision deadline hchannel =>
      cases h
      rw [hchannel, setChannel_channels_self, setChannel_pending]
      exact .receive ..
    · case h_2 deadline hchannel =>
      split at h
      · case isTrue hentry =>
        cases h
        rw [hchannel, setChannel_channels_self, setChannel_pending, hentry]
        exact .closed ..
      · cases h
    · cases h
  | expire id now =>
    simp only [next, expire] at h
    simp only [ApprovalEvent.id]
    split at h
    · case h_1 deadline hchannel =>
      split at h
      · case isTrue hdue =>
        cases h
        obtain ⟨entry, hentry⟩ := ne_none_iff_exists'.mp hdue.1
        rw [hchannel, setChannel_channels_self, setChannel_pending, hentry]
        exact .expire ..
      · cases h
    · cases h
  | dropReceiver id =>
    simp only [next, dropReceiver] at h
    simp only [ApprovalEvent.id]
    split at h
    · case h_1 sent hchannel =>
      cases h
      rw [hchannel, setChannel_channels_self, setChannel_pending]
      exact .drop _ _ _ _ trivial
    · case h_2 sent deadline hchannel =>
      cases h
      rw [hchannel, setChannel_channels_self, setChannel_pending]
      exact .drop _ _ _ _ trivial
    · cases h

theorem frame_of_step (h : ApprovalStep m e n) {other : String} (hother : other ≠ e.id) :
    n.pending[other]? = m.pending[other]? ∧ n.channels other = m.channels other := by
  unfold ApprovalStep at h
  cases e with
  | createRequest id command sessionKey =>
    simp only [next] at h
    split at h <;> cases h
    exact ⟨OrderedMap.get_insert_of_ne _ hother.symm _, setChannel_channels_of_ne hother _⟩
  | resolve id decision =>
    simp only [next, Option.some.injEq] at h
    subst h
    simp only [resolve]
    split
    · exact ⟨OrderedMap.get_erase_of_ne _ hother.symm, setChannel_channels_of_ne hother _⟩
    · exact ⟨rfl, rfl⟩
  | startWait id now =>
    simp only [next, startWait] at h
    split at h <;> cases h
    exact ⟨rfl, setChannel_channels_of_ne hother _⟩
  | receive id =>
    simp only [next, receive] at h
    split at h
    · cases h
      exact ⟨rfl, setChannel_channels_of_ne hother _⟩
    · split at h <;> cases h
      exact ⟨rfl, setChannel_channels_of_ne hother _⟩
    · cases h
  | expire id now =>
    simp only [next, expire] at h
    split at h
    · split at h <;> cases h
      exact ⟨rfl, setChannel_channels_of_ne hother _⟩
    · cases h
  | dropReceiver id =>
    simp only [next, dropReceiver] at h
    split at h <;> cases h
    · exact ⟨rfl, setChannel_channels_of_ne hother _⟩
    · exact ⟨rfl, setChannel_channels_of_ne hother _⟩

/-! ## What is kept for a request -/

/-- What was sent to a request. -/
def decision (m : ApprovalManager) (id : String) : Option ApprovalDecision :=
  (m.channels id).bind ApprovalChannel.sent

/-- What the wait of a request has returned. -/
def answer (m : ApprovalManager) (id : String) : Option ApprovalDecision :=
  match m.channels id with
  | some ⟨_, .returned decision⟩ => some decision
  | _ => none

/-- A request that exists and whose receiver has got no decision and is not gone. -/
def StillWaiting (m : ApprovalManager) (id : String) : Prop :=
  ∃ channel, m.channels id = some channel ∧ channel.sent = none ∧ channel.receiver.Live

/-- The list shows the requests that were created and are still waited for. -/
def ListsWaiting (history : List ApprovalEvent) (m : ApprovalManager) : Prop :=
  ∀ view, view ∈ m.pendingRequests ↔
    .createRequest view.id view.command view.sessionKey ∈ history ∧ m.StillWaiting view.id

/-- A step that is no timeout, and no drop of a receiver that has got no decision. -/
def Calm (m : ApprovalManager) : ApprovalEvent → Prop
  | .expire _ _ => False
  | .dropReceiver id => m.decision id ≠ none
  | _ => True

end ApprovalManager

/-- An entry and a channel of one request agree, after some events. -/
structure ApprovalAgrees (history : List ApprovalEvent) (id : String)
    (entry : Option PendingApproval) (channel : Option ApprovalChannel) : Prop where
  created : channel ≠ none ↔ ∃ command sessionKey, .createRequest id command sessionKey ∈ history
  own : ∀ view, entry = some view →
    .createRequest id view.command view.sessionKey ∈ history
  sole : ∀ command sessionKey, .createRequest id command sessionKey ∈ history →
    entry = none ∨ entry = some ⟨command, sessionKey⟩
  unsent : entry ≠ none → ∃ receiver, channel = some ⟨none, receiver⟩
  listed : ∀ receiver, channel = some ⟨none, receiver⟩ → receiver.Live → entry ≠ none
  answered : ∀ sent decision, channel = some ⟨sent, .returned decision⟩ →
    sent = some decision ∨ sent = none ∧ decision = .timeout

variable {id : String}

namespace ApprovalAgrees

variable {history : List ApprovalEvent} {e : ApprovalEvent}
  {entry entry' : Option PendingApproval} {channel channel' : Option ApprovalChannel}

theorem new (id : String) : ApprovalAgrees [] id none none where
  created := by simp
  own := by simp
  sole := by simp
  unsent := by simp
  listed := by simp
  answered := by simp

theorem later (h : ApprovalAgrees history id entry channel)
    (hnew : ∀ command sessionKey, e ≠ .createRequest id command sessionKey)
    (hentry : entry' = entry ∨ entry' = none) (hchannel : channel' = none ↔ channel = none)
    (hunsent : entry' ≠ none → ∃ receiver, channel' = some ⟨none, receiver⟩)
    (hlisted : ∀ receiver, channel' = some ⟨none, receiver⟩ → receiver.Live → entry' ≠ none)
    (hanswered : ∀ sent decision, channel' = some ⟨sent, .returned decision⟩ →
      sent = some decision ∨ sent = none ∧ decision = .timeout) :
    ApprovalAgrees (history ++ [e]) id entry' channel' := by
  have hmem : ∀ command sessionKey,
      .createRequest id command sessionKey ∈ history ++ [e] ↔
        .createRequest id command sessionKey ∈ history := by
    intro command sessionKey
    rw [List.mem_append, List.mem_singleton]
    exact or_iff_left fun heq => hnew _ _ heq.symm
  refine ⟨?_, ?_, ?_, hunsent, hlisted, hanswered⟩
  · simp only [hmem, ne_eq, hchannel]
    exact h.created
  · simp only [hmem]
    rcases hentry with rfl | rfl
    · exact h.own
    · simp
  · simp only [hmem]
    rcases hentry with rfl | rfl
    · exact h.sole
    · simp

theorem other (h : ApprovalAgrees history id entry channel) (hid : id ≠ e.id) :
    ApprovalAgrees (history ++ [e]) id entry channel := by
  refine h.later ?_ (.inl rfl) Iff.rfl h.unsent h.listed h.answered
  rintro command sessionKey rfl
  exact hid rfl

theorem move (h : ApprovalAgrees history e.id entry channel)
    (hmove : ApprovalMove entry channel e entry' channel') :
    ApprovalAgrees (history ++ [e]) e.id entry' channel' := by
  cases hmove with
  | create entry id command sessionKey =>
    have hfresh : ∀ command sessionKey, .createRequest id command sessionKey ∉ history :=
      fun command sessionKey hmem => (h.created.mpr ⟨command, sessionKey, hmem⟩) rfl
    have hmem : ∀ command' sessionKey',
        ApprovalEvent.createRequest id command' sessionKey' ∈
          history ++ [.createRequest id command sessionKey] ↔
        command' = command ∧ sessionKey' = sessionKey := by
      intro command' sessionKey'
      rw [List.mem_append, List.mem_singleton, or_iff_right (hfresh _ _)]
      simp
    refine ⟨?_, ?_, ?_, ?_, ?_, ?_⟩
    · exact ⟨fun _ => ⟨command, sessionKey, (hmem _ _).mpr ⟨rfl, rfl⟩⟩,
        fun _ => some_ne_none _⟩
    · rintro view ⟨⟩
      exact (hmem _ _).mpr ⟨rfl, rfl⟩
    · intro command' sessionKey' h'
      obtain ⟨rfl, rfl⟩ := (hmem _ _).mp h'
      exact .inr rfl
    · exact fun _ => ⟨.held, rfl⟩
    · exact fun _ _ _ => some_ne_none _
    · rintro sent decision ⟨⟩
  | decide entry channel id decision =>
    obtain ⟨receiver, hchannel⟩ := h.unsent (some_ne_none _)
    cases hchannel
    refine h.later (by simp) (.inr rfl) (by simp) (by simp) ?_ ?_
    · intro receiver' heq hlive
      unfold ApprovalChannel.send at heq
      split at heq <;> cases heq
      contradiction
    · intro sent decision' heq
      unfold ApprovalChannel.send at heq
      split at heq <;> cases heq
      · contradiction
      · exact h.answered _ _ rfl
  | ignore entry channel id decision hnone =>
    exact h.later (by simp) (.inl rfl) Iff.rfl h.unsent h.listed h.answered
  | start entry sent id now deadline =>
    refine h.later (by simp) (.inl rfl) (by simp) ?_ ?_ (by simp)
    · intro hentry
      obtain ⟨receiver, hchannel⟩ := h.unsent hentry
      cases hchannel
      exact ⟨_, rfl⟩
    · rintro receiver ⟨⟩ -
      exact h.listed .held rfl trivial
  | receive entry decision deadline id =>
    refine h.later (by simp) (.inl rfl) (by simp) ?_ (by simp) ?_
    · intro hentry
      obtain ⟨receiver, hchannel⟩ := h.unsent hentry
      cases hchannel
    · rintro sent decision' ⟨⟩
      exact .inl rfl
  | closed deadline id =>
    exact absurd rfl (h.listed _ rfl trivial)
  | expire entry deadline id now =>
    refine h.later (by simp) (.inl rfl) (by simp) (fun _ => ⟨_, rfl⟩) ?_ ?_
    · rintro receiver ⟨⟩ hlive
      exact hlive.elim
    · rintro sent decision ⟨⟩
      exact .inr ⟨rfl, rfl⟩
  | drop entry sent receiver id hlive =>
    refine h.later (by simp) (.inl rfl) (by simp) ?_ ?_ (by simp)
    · intro hentry
      obtain ⟨receiver', hchannel⟩ := h.unsent hentry
      cases hchannel
      exact ⟨_, rfl⟩
    · rintro receiver' ⟨⟩ hgone
      exact hgone.elim

end ApprovalAgrees

namespace ApprovalManager

variable {m n : ApprovalManager} {e : ApprovalEvent} {events : List ApprovalEvent} {timeout : ℕ}

theorem agrees_of_run (hrun : Run ApprovalStep (new timeout) events m) (id : String) :
    ApprovalAgrees events id m.pending[id]? (m.channels id) := by
  refine Run.history (P := fun history m =>
    ∀ id, ApprovalAgrees history id m.pending[id]? (m.channels id)) hrun ?_ ?_ id
  · intro id
    exact .new id
  · intro history m e n h hstep id
    by_cases hid : id = e.id
    · subst hid
      exact (h _).move (move_of_step hstep)
    · obtain ⟨hentry, hchannel⟩ := frame_of_step hstep hid
      rw [hentry, hchannel]
      exact (h id).other hid

theorem mem_pendingRequests_iff {view : PendingApprovalView} :
    view ∈ m.pendingRequests ↔ m.pending[view.id]? = some ⟨view.command, view.sessionKey⟩ := by
  rw [← OrderedMap.mem_toList, pendingRequests, List.mem_map]
  constructor
  · rintro ⟨⟨id, entry⟩, hmem, rfl⟩
    exact hmem
  · intro hmem
    exact ⟨_, hmem, rfl⟩

theorem listsWaiting_iff (hrun : Run ApprovalStep (new timeout) events m) :
    m.ListsWaiting events ↔ ∀ id, m.pending[id]? ≠ none → m.StillWaiting id := by
  constructor
  · intro h id hid
    obtain ⟨entry, hentry⟩ := ne_none_iff_exists'.mp hid
    exact ((h ⟨id, entry.command, entry.sessionKey⟩).mp (mem_pendingRequests_iff.mpr hentry)).2
  · intro h view
    have hagrees := agrees_of_run hrun view.id
    rw [mem_pendingRequests_iff]
    constructor
    · intro hentry
      exact ⟨hagrees.own _ hentry, h _ (by simp [hentry])⟩
    · rintro ⟨hcreated, ⟨sent, receiver⟩, hchannel, rfl, hlive⟩
      exact (hagrees.sole _ _ hcreated).resolve_left (hagrees.listed receiver hchannel hlive)

theorem stillWaiting_iff :
    m.StillWaiting id ↔ ∃ receiver, m.channels id = some ⟨none, receiver⟩ ∧ receiver.Live := by
  constructor
  · rintro ⟨⟨sent, receiver⟩, hchannel, rfl, hlive⟩
    exact ⟨receiver, hchannel, hlive⟩
  · rintro ⟨receiver, hchannel, hlive⟩
    exact ⟨_, hchannel, rfl, hlive⟩

theorem not_listsWaiting_of_not_calm (hrun : Run ApprovalStep (new timeout) events m)
    (hstep : ApprovalStep m e n) (hcalm : ¬ m.Calm e) : ¬ n.ListsWaiting (events ++ [e]) := by
  rw [listsWaiting_iff (Run.append hrun (.cons hstep (.nil n)))]
  intro h
  have hmove := move_of_step hstep
  have hagrees := agrees_of_run hrun e.id
  have hwaits := h e.id
  rw [stillWaiting_iff] at hwaits
  unfold Calm decision at hcalm
  generalize hentry : m.pending[e.id]? = entry, hchannel : m.channels e.id = channel,
    n.pending[e.id]? = entry', n.channels e.id = channel' at hmove hagrees hwaits
  cases hmove with
  | create | decide | ignore | start | receive | closed => exact hcalm trivial
  | expire entry deadline id now =>
    obtain ⟨receiver, heq, hlive⟩ := hwaits (some_ne_none _)
    cases heq
    exact hlive
  | drop _ sent receiver id hlive =>
    replace hchannel : m.channels id = some ⟨sent, receiver⟩ := hchannel
    simp only [hchannel, bind_some, not_not] at hcalm
    subst hcalm
    obtain ⟨receiver', heq, hlive'⟩ := hwaits (hagrees.listed _ rfl hlive)
    cases heq
    exact hlive'

theorem waiting_of_calm (hstep : ApprovalStep m e n) (hcalm : m.Calm e)
    (h : ∀ id, m.pending[id]? ≠ none → m.StillWaiting id) :
    ∀ id, n.pending[id]? ≠ none → n.StillWaiting id := by
  intro id
  by_cases hid : id = e.id
  · subst hid
    have hmove := move_of_step hstep
    have hwaits := h e.id
    unfold Calm decision at hcalm
    rw [stillWaiting_iff] at hwaits ⊢
    generalize m.pending[e.id]? = entry, hchannel : m.channels e.id = channel,
      n.pending[e.id]? = entry', n.channels e.id = channel' at hmove hwaits
    intro hlisted
    cases hmove with
    | create => exact ⟨.held, rfl, trivial⟩
    | decide | closed => exact absurd rfl hlisted
    | ignore => exact hwaits hlisted
    | start entry sent id now deadline =>
      obtain ⟨receiver, heq, -⟩ := hwaits hlisted
      cases heq
      exact ⟨.waiting deadline, rfl, trivial⟩
    | receive =>
      obtain ⟨receiver, heq, -⟩ := hwaits hlisted
      cases heq
    | expire => exact hcalm.elim
    | drop _ sent receiver id hlive =>
      obtain ⟨receiver, heq, -⟩ := hwaits hlisted
      cases heq
      replace hchannel : m.channels id = some ⟨none, receiver⟩ := hchannel
      simp [hchannel] at hcalm
  · obtain ⟨hentry, hchannel⟩ := frame_of_step hstep hid
    unfold StillWaiting
    rw [hentry, hchannel]
    exact h id

variable {decision : ApprovalDecision}

/-- A step changes what was sent to a request if and only if it decides a request that is still
waited for. -/
theorem decision_of_step (hrun : Run ApprovalStep (new timeout) events m)
    (hstep : ApprovalStep m e n) :
    n.decision id = some decision ↔
      m.decision id = some decision ∨ e = .resolve id decision ∧ m.StillWaiting id := by
  by_cases hid : id = e.id
  · subst hid
    have hmove := move_of_step hstep
    have hagrees := agrees_of_run hrun e.id
    rw [stillWaiting_iff]
    unfold ApprovalManager.decision
    generalize m.pending[e.id]? = entry, m.channels e.id = channel,
      n.pending[e.id]? = entry', n.channels e.id = channel' at hmove hagrees ⊢
    cases hmove with
    | create | start | receive | closed | expire | drop => simp
    | decide entry channel id decision' =>
      obtain ⟨receiver, heq⟩ := hagrees.unsent (some_ne_none _)
      cases heq
      by_cases hlive : receiver.Live
      · simp [ApprovalChannel.send, hlive, ApprovalEvent.id]
      · simp [ApprovalChannel.send, hlive]
    | ignore entry channel id decision' hnone =>
      refine (or_iff_left ?_).symm
      rintro ⟨-, receiver, rfl, hlive⟩
      exact hagrees.listed receiver rfl hlive (hnone.resolve_right (some_ne_none _))
  · have hne : e ≠ .resolve id decision := by
      rintro rfl
      exact hid rfl
    unfold ApprovalManager.decision
    rw [(frame_of_step hstep hid).2]
    exact (or_iff_left fun h => hne h.1).symm

theorem answer_of_step (hstep : ApprovalStep m e n) (h : m.answer id = some decision) :
    n.answer id = some decision := by
  unfold answer at h ⊢
  by_cases hid : id = e.id
  · subst hid
    have hmove := move_of_step hstep
    generalize m.pending[e.id]? = entry, m.channels e.id = channel,
      n.pending[e.id]? = entry', n.channels e.id = channel' at hmove h ⊢
    cases hmove with
    | create | start | receive | closed | expire => cases h
    | decide entry channel id decision' =>
      obtain ⟨sent, receiver⟩ := channel
      cases receiver with
      | held | waiting | dropped => cases h
      | returned =>
        simpa [ApprovalChannel.send, ApprovalReceiver.Live] using h
    | ignore => exact h
    | drop _ sent receiver id hlive =>
      cases receiver with
      | held | waiting | dropped => cases h
      | returned => exact hlive.elim
  · rw [(frame_of_step hstep hid).2]
    exact h

theorem decision_of_run (hrun : Run ApprovalStep (new timeout) events m)
    {later : List ApprovalEvent} (hlater : Run ApprovalStep m later n)
    (h : m.decision id = some decision) : n.decision id = some decision := by
  refine (Run.invariant (P := fun m => (∃ events, Run ApprovalStep (new timeout) events m) ∧
    m.decision id = some decision) ?_ hlater ⟨⟨events, hrun⟩, h⟩).2
  rintro m e n ⟨⟨events, hrun⟩, hsent⟩ hstep
  exact ⟨⟨_, Run.append hrun (.cons hstep (.nil n))⟩,
    (decision_of_step hrun hstep).mpr (.inl hsent)⟩

/-- The decision of a request is the one that was given while it was waited for. -/
theorem decision_iff (hrun : Run ApprovalStep (new timeout) events m) :
    m.decision id = some decision ↔
      ∃ pre post u, events = pre ++ .resolve id decision :: post ∧
        Run ApprovalStep (new timeout) pre u ∧ u.StillWaiting id := by
  constructor
  · intro h
    obtain ⟨pre, e, post, u, v, rfl, hpre, hstep, -, hu, hv⟩ :=
      Run.exists_turn (P := fun m => m.decision id = some decision) hrun (by simp [new,
        ApprovalManager.decision]) h
    obtain ⟨rfl, hwaits⟩ := ((decision_of_step hpre hstep).mp hv).resolve_left hu
    exact ⟨pre, post, u, rfl, hpre, hwaits⟩
  · rintro ⟨pre, post, u, rfl, hpre, hwaits⟩
    obtain ⟨u', hpre', hrest⟩ := Run.append_iff.mp hrun
    cases Run.unique approvalStep_unique hpre hpre'
    cases hrest with
    | @cons _ v _ _ _ hstep hpost =>
      exact decision_of_run (Run.append hpre (.cons hstep (.nil v))) hpost
        ((decision_of_step hpre hstep).mpr (.inr ⟨rfl, hwaits⟩))

theorem answer_cases (hrun : Run ApprovalStep (new timeout) events m)
    (h : m.answer id = some decision) :
    m.decision id = some decision ∨ m.decision id = none ∧ decision = .timeout := by
  have hagrees := agrees_of_run hrun id
  unfold answer at h
  unfold ApprovalManager.decision
  split at h
  · case h_1 sent decision' hchannel =>
    cases h
    rw [hchannel]
    exact hagrees.answered _ _ hchannel
  · cases h

/-- All along a run the list shows what is waited for, if and only if all its steps are calm. -/
theorem calm_iff_listsWaiting (hrun : Run ApprovalStep (new timeout) events m) :
    (∀ pre post u, events = pre ++ post → Run ApprovalStep (new timeout) pre u →
        u.ListsWaiting pre) ↔
      ∀ pre e post u, events = pre ++ e :: post → Run ApprovalStep (new timeout) pre u →
        u.Calm e := by
  constructor
  · rintro h pre e post u rfl hpre
    obtain ⟨u', hpre', hrest⟩ := Run.append_iff.mp hrun
    cases Run.unique approvalStep_unique hpre hpre'
    cases hrest with
    | @cons _ v _ _ _ hstep hpost =>
      by_contra hcalm
      refine not_listsWaiting_of_not_calm hpre hstep hcalm (h _ post v ?_ ?_)
      · simp
      · exact Run.append hpre (.cons hstep (.nil v))
  · rintro h pre post u rfl hpre
    rw [listsWaiting_iff hpre]
    by_contra hu
    obtain ⟨pre', e, post', u', v, rfl, hpre', hstep, -, hu', hv⟩ :=
      Run.exists_turn (P := fun m => ¬ ∀ id, m.pending[id]? ≠ none → m.StillWaiting id) hpre
        (by simp [new]) hu
    exact hv (waiting_of_calm hstep (h pre' e (post' ++ post) u' (by simp) hpre')
      (not_not.mp hu'))

end ApprovalManager

/-- All along every run the list shows what is created and still waited for if and only if no wait
times out and none is given up before its decision.  A request gets at most one decision, the
first that was given while it was waited for; what a wait has returned does not change, and a
decision for one request leaves the others as they are. -/
theorem ApprovalManager.requests_law {timeout : ℕ} {events : List ApprovalEvent}
    {m : ApprovalManager} (hrun : Run ApprovalStep (.new timeout) events m) :
    ((∀ pre post u, events = pre ++ post → Run ApprovalStep (.new timeout) pre u →
        u.ListsWaiting pre) ↔
      ∀ pre e post u, events = pre ++ e :: post → Run ApprovalStep (.new timeout) pre u →
        u.Calm e) ∧
    (∀ id decision, m.decision id = some decision ↔
      ∃ pre post u, events = pre ++ .resolve id decision :: post ∧
        Run ApprovalStep (.new timeout) pre u ∧ u.StillWaiting id) ∧
    (∀ id decision, m.answer id = some decision →
      (m.decision id = some decision ∨ m.decision id = none ∧ decision = .timeout) ∧
      ∀ later n, Run ApprovalStep m later n → n.answer id = some decision) ∧
    ∀ id decision other, other ≠ id →
      (m.resolve id decision).pending[other]? = m.pending[other]? ∧
      (m.resolve id decision).channels other = m.channels other := by
  refine ⟨calm_iff_listsWaiting hrun, fun _ _ => decision_iff hrun, ?_, ?_⟩
  · intro id decision h
    refine ⟨answer_cases hrun h, fun later n hlater => ?_⟩
    exact Run.invariant (P := fun m => m.answer id = some decision)
      (fun _ _ _ h hstep => answer_of_step hstep h) hlater h
  · intro id decision other hother
    exact frame_of_step (show ApprovalStep m (.resolve id decision) _ from rfl) hother

/-- A request that is decided while it is waited for. -/
theorem ApprovalManager.requests_law_decided :
    ∃ m, m.answer "a" = some .approved ∧
      ∀ later n, Run ApprovalStep m later n → n.answer "a" = some .approved := by
  have hrun : Run ApprovalStep (.new 120)
      [.createRequest "a" "echo hi" none, .startWait "a" 0, .resolve "a" .approved,
        .receive "a"] _ :=
    .cons rfl (.cons rfl (.cons rfl (.cons rfl (.nil _))))
  exact ⟨_, rfl, ((requests_law hrun).2.2.1 "a" .approved rfl).2⟩

/-- A request that has timed out is still in the list. -/
theorem ApprovalManager.lists_timed_out :
    ∃ events m, Run ApprovalStep (.new 120) events m ∧ m.answer "a" = some .timeout ∧
      (⟨"a", "echo hi", none⟩ : PendingApprovalView) ∈ m.pendingRequests ∧
      ¬ m.ListsWaiting events := by
  have hrun : Run ApprovalStep (.new 120)
      [.createRequest "a" "echo hi" none, .startWait "a" 0, .expire "a" 120] _ :=
    .cons rfl (.cons rfl (.cons rfl (.nil _)))
  refine ⟨_, _, hrun, rfl, mem_pendingRequests_iff.mpr rfl, fun h => ?_⟩
  obtain ⟨-, channel, hchannel, -, hlive⟩ :=
    (h ⟨"a", "echo hi", none⟩).mp (mem_pendingRequests_iff.mpr rfl)
  cases hchannel
  exact hlive

end Chelix.Tools
