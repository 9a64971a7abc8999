import Chelix.Library.OrderedMap
import Chelix.Library.Run
import Mathlib.Data.List.MinMax

/-!
# Chat statuses of a client

A chat event is a status of a session: of the run, the prompt queue, a compaction or the voice.
`broadcast` draws a sequence number, waits for the client registry, and publishes the status to the
outbox of each client, where it supersedes an older one that is still pending.  The writer of the
client takes the pending status with the least number, or waits to be notified.

* **`statuses_delivered`**: what the writer sends.
-/

namespace Chelix.Gateway

open Chelix.Library List OrderedMap

/-! ## Streams and keys -/

inductive ChatStatusStream where
  | run
  | queue
  | compaction
  | voice
  deriving DecidableEq

namespace ChatStatusStream

def toNat : ChatStatusStream → ℕ
  | .run => 0
  | .queue => 1
  | .compaction => 2
  | .voice => 3

theorem toNat_injective : Function.Injective toNat := by
  intro stream other h
  cases stream <;> cases other <;> first | rfl | exact nomatch h

/-- The stream of a status, from the `state` of the event. -/
def ofState : Option String → ChatStatusStream
  | some "prompt_queue" => .queue
  | some "voice_pending" => .voice
  | some "compact" => .compaction
  | some "auto_compact" => .compaction
  | _ => .run

end ChatStatusStream

structure StatusKey where
  sessionKey : String
  stream : ChatStatusStream
  deriving DecidableEq

namespace StatusKey

def orderKey (key : StatusKey) : String ×ₗ ℕ := toLex (key.sessionKey, key.stream.toNat)

theorem orderKey_injective : Function.Injective orderKey := by
  rintro ⟨sessionKey, stream⟩ ⟨sessionKey', stream'⟩ h
  obtain ⟨rfl, hstream⟩ := Prod.mk.inj (toLex.injective h)
  obtain rfl : stream = stream' := ChatStatusStream.toNat_injective hstream
  rfl

instance : LinearOrder StatusKey := LinearOrder.lift' orderKey orderKey_injective

instance instTransCmp : Std.TransCmp (compare : StatusKey → StatusKey → Ordering) :=
  inferInstance

end StatusKey

/-- The key of an event that is a chat status. -/
def chatStatus (event : String) (sessionKey state : Option String) : Option StatusKey :=
  if event = "chat" then sessionKey.map fun key => ⟨key, .ofState state⟩ else none

structure PendingStatus where
  sequence : ℕ
  frame : String
  deriving DecidableEq

/-! ## Publishers and the writer -/

/-- Where a call of `broadcast` stands, for one client. -/
inductive PublisherPhase where
  | idle
  /-- The number is drawn, and the client registry is awaited. -/
  | drawn (key : StatusKey) (status : PendingStatus)
  | notifying
  deriving DecidableEq

/-- Where the writer stands in `next`. -/
inductive WriterPhase where
  | away
  | looking
  /-- Nothing is pending, and the notification is polled. -/
  | subscribing
  | waiting
  | notified
  deriving DecidableEq

structure ChatOutbox where
  /-- The number that was drawn last. -/
  sequence : ℕ
  pending : OrderedMap StatusKey PendingStatus
  /-- A notification is stored for the next waiter. -/
  permit : Bool
  writer : WriterPhase
  publishers : ℕ → PublisherPhase
  published : List (StatusKey × PendingStatus)
  sent : List (StatusKey × PendingStatus)

namespace ChatOutbox

def new : ChatOutbox where
  sequence := 0
  pending := ∅
  permit := false
  writer := .away
  publishers _ := .idle
  published := []
  sent := []

variable (o : ChatOutbox)

def setPublisher (id : ℕ) (phase : PublisherPhase) : ChatOutbox :=
  { o with publishers := Function.update o.publishers id phase }

/-- A number is drawn for an event. -/
def draw (id : ℕ) (event : String) (sessionKey state : Option String) (frame : String) :
    ChatOutbox :=
  { o with sequence := o.sequence + 1 }.setPublisher id
    (match chatStatus event sessionKey state with
      | some key => .drawn key ⟨o.sequence + 1, frame⟩
      | none => .idle)

/-- The pending statuses after a publication. -/
def pend (key : StatusKey) (status : PendingStatus) : OrderedMap StatusKey PendingStatus :=
  if o.pending[key]?.all fun previous => previous.sequence < status.sequence then
    o.pending.insert key status
  else o.pending

def publish (id : ℕ) (key : StatusKey) (status : PendingStatus) : ChatOutbox :=
  { o with
    pending := o.pend key status
    published := o.published ++ [(key, status)] }.setPublisher id .notifying

/-- `notify_one`. -/
def notifyOne : ChatOutbox :=
  if o.writer = .waiting then { o with writer := .notified } else { o with permit := true }

/-- The next step of the writer, if it does not wait. -/
def write : Option ChatOutbox :=
  match o.writer with
  | .away => some { o with writer := .looking }
  | .looking =>
    match o.pending.toList.argmin fun entry => entry.2.sequence with
    | some (key, status) =>
      some { o with
        pending := o.pending.erase key
        sent := o.sent ++ [(key, status)]
        writer := .away }
    | none => some { o with writer := .subscribing }
  | .subscribing =>
    if o.permit then some { o with permit := false, writer := .looking }
    else some { o with writer := .waiting }
  | .waiting => none
  | .notified => some { o with writer := .looking }

end ChatOutbox

inductive OutboxAct where
  | publisher (id : ℕ)
  /-- The publisher publishes. -/
  | publish (id : ℕ)
  | writer
  /-- The writer has something else to send, and drops `next`. -/
  | cancel
  deriving DecidableEq

inductive OutboxStep (o : ChatOutbox) : OutboxAct → ChatOutbox → Prop
  | draw {id : ℕ} (event : String) (sessionKey state : Option String) (frame : String)
      (hidle : o.publishers id = .idle) :
      OutboxStep o (.publisher id) (o.draw id event sessionKey state frame)
  /-- The client does not get the event. -/
  | skip {id : ℕ} {key : StatusKey} {status : PendingStatus}
      (hphase : o.publishers id = .drawn key status) :
      OutboxStep o (.publisher id) (o.setPublisher id .idle)
  | publish {id : ℕ} {key : StatusKey} {status : PendingStatus}
      (hphase : o.publishers id = .drawn key status) :
      OutboxStep o (.publish id) (o.publish id key status)
  | notify {id : ℕ} (hphase : o.publishers id = .notifying) :
      OutboxStep o (.publisher id) (o.notifyOne.setPublisher id .idle)
  | write {o' : ChatOutbox} (hwrite : o.write = some o') : OutboxStep o .writer o'
  | drop (hwriter : o.writer = .waiting) : OutboxStep o .cancel { o with writer := .away }
  /-- A notification that was not seen is passed on. -/
  | dropNotified (hwriter : o.writer = .notified) :
      OutboxStep o .cancel { o with writer := .away, permit := true }

namespace ChatOutbox

/-- Where a status is published, no later one of its key has been sent. -/
def InOrder (o : ChatOutbox) : OutboxAct → Prop
  | .publish id => ∀ key status, o.publishers id = .drawn key status →
      ∀ later, (key, later) ∈ o.sent → later.sequence < status.sequence
  | _ => True

def OrderedStep (o : ChatOutbox) (act : OutboxAct) (o' : ChatOutbox) : Prop :=
  OutboxStep o act o' ∧ o.InOrder act

/-! ## What holds of every run -/

/-- The status is pending, sent, or superseded by a later one. -/
def Kept (o : ChatOutbox) (key : StatusKey) (status : PendingStatus) : Prop :=
  o.pending[key]? = some status ∨ (key, status) ∈ o.sent ∨
    ∃ later, (key, later) ∈ o.published ∧ status.sequence < later.sequence

/-- A notification is under way. -/
def Notifying (o : ChatOutbox) : Prop := ∃ id, o.publishers id = .notifying

structure Sound (o : ChatOutbox) : Prop where
  pending : ∀ key status, o.pending[key]? = some status → (key, status) ∈ o.published
  sent : ∀ entry ∈ o.sent, entry ∈ o.published
  published : ∀ entry ∈ o.published, entry.2.sequence ≤ o.sequence
  drawn : ∀ id key status, o.publishers id = .drawn key status →
    status.sequence ≤ o.sequence ∧ ∀ entry ∈ o.published, entry.2.sequence ≠ status.sequence
  distinct : ∀ id id' key key' status status', o.publishers id = .drawn key status →
    o.publishers id' = .drawn key' status' → status.sequence = status'.sequence → id = id'
  kept : ∀ entry ∈ o.published, o.Kept entry.1 entry.2
  subscribing : o.writer = .subscribing → o.pending.isEmpty = false →
    o.permit = true ∨ o.Notifying
  waiting : o.writer = .waiting → o.pending.isEmpty = false → o.Notifying

variable {o : ChatOutbox}

theorem publishers_setPublisher (o : ChatOutbox) (id : ℕ) (phase : PublisherPhase) (id' : ℕ) :
    (o.setPublisher id phase).publishers id' = if id' = id then phase else o.publishers id' :=
  Function.update_apply ..

variable {key : StatusKey}

theorem get_pend_of_ne (o : ChatOutbox) {other : StatusKey} (hne : key ≠ other)
    (status : PendingStatus) : (o.pend key status)[other]? = o.pending[other]? := by
  rw [pend]
  split
  · exact get_insert_of_ne _ hne _
  · rfl

/-- After a publication, the status is pending in the place of one with a smaller number, or one
with no smaller number still is. -/
theorem get_pend_self (o : ChatOutbox) (key : StatusKey) (status : PendingStatus) :
    (∀ previous, o.pending[key]? = some previous → previous.sequence < status.sequence) ∧
        (o.pend key status)[key]? = some status ∨
      ∃ previous, o.pending[key]? = some previous ∧ status.sequence ≤ previous.sequence ∧
        (o.pend key status)[key]? = some previous := by
  rw [pend]
  cases hprevious : o.pending[key]? with
  | none => exact .inl ⟨nofun, get_insert_self ..⟩
  | some previous =>
    by_cases hlt : previous.sequence < status.sequence
    · refine .inl ⟨fun found hfound => Option.some.inj hfound ▸ hlt, ?_⟩
      rw [Option.all_some, if_pos (decide_eq_true hlt)]
      exact get_insert_self ..
    · refine .inr ⟨previous, rfl, Nat.le_of_not_lt hlt, ?_⟩
      rw [Option.all_some, if_neg (by simpa using hlt)]
      exact hprevious

variable {status : PendingStatus}

theorem of_get_pend {other : StatusKey} {found : PendingStatus}
    (h : (o.pend key status)[other]? = some found) :
    o.pending[other]? = some found ∨ (other, found) = (key, status) := by
  by_cases hne : key = other
  · subst hne
    rcases o.get_pend_self key status with ⟨-, hself⟩ | ⟨previous, hprevious, -, hself⟩
    · rw [hself] at h
      exact .inr (by rw [Option.some.inj h])
    · rw [hself] at h
      exact .inl (hprevious.trans h)
  · rw [o.get_pend_of_ne hne] at h
    exact .inl h

theorem isEmpty_eq_false_of_get {m : OrderedMap StatusKey PendingStatus} {key : StatusKey}
    {status : PendingStatus} (h : m[key]? = some status) : m.isEmpty = false := by
  refine Bool.eq_false_iff.mpr fun hempty => ?_
  rw [Std.ExtTreeMap.isEmpty_iff.mp hempty] at h
  exact nomatch (Std.ExtTreeMap.getElem?_empty ..).symm.trans h

namespace Sound

variable (h : o.Sound)
include h

variable {id : ℕ}

theorem setPublisher {phase : PublisherPhase} (hold : o.publishers id ≠ .notifying)
    (hnew : ∀ key status, phase ≠ .drawn key status) : (o.setPublisher id phase).Sound := by
  have hdrawn : ∀ {id' key status}, (o.setPublisher id phase).publishers id' = .drawn key status →
      o.publishers id' = .drawn key status := by
    intro id' key status hphase
    rw [publishers_setPublisher] at hphase
    split at hphase
    · exact absurd hphase (hnew key status)
    · exact hphase
  have hnotifying : o.Notifying → (o.setPublisher id phase).Notifying := by
    rintro ⟨id', hphase⟩
    refine ⟨id', ?_⟩
    rw [publishers_setPublisher, if_neg, hphase]
    rintro rfl
    exact hold hphase
  exact { h with
    drawn := fun id' key status hphase => h.drawn id' key status (hdrawn hphase)
    distinct := fun _ _ _ _ _ _ hphase hphase' =>
      h.distinct _ _ _ _ _ _ (hdrawn hphase) (hdrawn hphase')
    subscribing := fun hwriter hpending => (h.subscribing hwriter hpending).imp_right hnotifying
    waiting := fun hwriter hpending => hnotifying (h.waiting hwriter hpending) }

theorem draw (event : String) (sessionKey state : Option String) (frame : String)
    (hidle : o.publishers id = .idle) : (o.draw id event sessionKey state frame).Sound := by
  rw [ChatOutbox.draw]
  generalize hphase : (match chatStatus event sessionKey state with
    | some key => PublisherPhase.drawn key ⟨o.sequence + 1, frame⟩
    | none => .idle) = phase
  have hdrawn : ∀ {id' key status},
      ({ o with sequence := o.sequence + 1 }.setPublisher id phase).publishers id' =
        .drawn key status →
      id' = id ∧ status.sequence = o.sequence + 1 ∨
        id' ≠ id ∧ o.publishers id' = .drawn key status := by
    intro id' key status hdrawn
    rw [publishers_setPublisher] at hdrawn
    split at hdrawn
    · rename_i heq
      refine .inl ⟨heq, ?_⟩
      rw [← hphase] at hdrawn
      split at hdrawn
      · rw [← (PublisherPhase.drawn.inj hdrawn).2]
      · exact nomatch hdrawn
    · rename_i hne
      exact .inr ⟨hne, hdrawn⟩
  have hnotifying : o.Notifying →
      ({ o with sequence := o.sequence + 1 }.setPublisher id phase).Notifying := by
    rintro ⟨id', hphase'⟩
    refine ⟨id', ?_⟩
    rw [publishers_setPublisher, if_neg]
    · exact hphase'
    · rintro rfl
      exact nomatch hidle.symm.trans hphase'
  exact { h with
    published := fun entry hentry => (h.published entry hentry).trans (Nat.le_succ _)
    drawn := by
      intro id' key status hphase'
      rcases hdrawn hphase' with ⟨-, hsequence⟩ | ⟨-, hold⟩
      · refine ⟨hsequence.le, fun entry hentry heq => ?_⟩
        have hle := h.published entry hentry
        omega
      · obtain ⟨hle, hfresh⟩ := h.drawn id' key status hold
        exact ⟨hle.trans (Nat.le_succ _), hfresh⟩
    distinct := by
      intro id₁ id₂ key key' status status' hphase₁ hphase₂ heq
      rcases hdrawn hphase₁ with ⟨rfl, hnew⟩ | ⟨hne, hold⟩
      · rcases hdrawn hphase₂ with ⟨rfl, -⟩ | ⟨-, hold'⟩
        · rfl
        · have hle := (h.drawn _ _ _ hold').1
          omega
      · rcases hdrawn hphase₂ with ⟨rfl, hnew'⟩ | ⟨-, hold'⟩
        · have hle := (h.drawn _ _ _ hold).1
          omega
        · exact h.distinct _ _ _ _ _ _ hold hold' heq
    subscribing := fun hwriter hpending => (h.subscribing hwriter hpending).imp_right hnotifying
    waiting := fun hwriter hpending => hnotifying (h.waiting hwriter hpending) }

theorem publish (hphase : o.publishers id = .drawn key status) :
    (o.publish id key status).Sound := by
  obtain ⟨hbound, hfresh⟩ := h.drawn id key status hphase
  have hpublished : ∀ entry, entry ∈ (o.publish id key status).published ↔
      entry ∈ o.published ∨ entry = (key, status) := by
    intro entry
    rw [← mem_singleton]
    exact mem_append
  have hdrawn : ∀ {id' key' status'},
      (o.publish id key status).publishers id' = .drawn key' status' →
      id' ≠ id ∧ o.publishers id' = .drawn key' status' := by
    intro id' key' status' hdrawn
    rw [ChatOutbox.publish, publishers_setPublisher] at hdrawn
    split at hdrawn
    · exact nomatch hdrawn
    · rename_i hne
      exact ⟨hne, hdrawn⟩
  have hnotifying : (o.publish id key status).Notifying := by
    refine ⟨id, ?_⟩
    rw [ChatOutbox.publish, publishers_setPublisher, if_pos rfl]
  exact {
    pending := by
      intro other found hfound
      rw [hpublished]
      exact (of_get_pend hfound).imp_left (h.pending other found)
    sent := fun entry hentry => (hpublished entry).mpr (.inl (h.sent entry hentry))
    published := by
      intro entry hentry
      rcases (hpublished entry).mp hentry with hold | rfl
      · exact h.published entry hold
      · exact hbound
    drawn := by
      intro id' key' status' hdrawn'
      obtain ⟨hne, hold⟩ := hdrawn hdrawn'
      obtain ⟨hbound', hfresh'⟩ := h.drawn id' key' status' hold
      refine ⟨hbound', fun entry hentry heq => ?_⟩
      rcases (hpublished entry).mp hentry with hpublished' | rfl
      · exact hfresh' entry hpublished' heq
      · exact hne (h.distinct _ _ _ _ _ _ hold hphase heq.symm)
    distinct := fun _ _ _ _ _ _ hphase₁ hphase₂ =>
      h.distinct _ _ _ _ _ _ (hdrawn hphase₁).2 (hdrawn hphase₂).2
    kept := by
      intro entry hentry
      rcases (hpublished entry).mp hentry with hold | rfl
      · rcases h.kept entry hold with hpending | hsent | ⟨later, hlater, hlt⟩
        · by_cases hkey : key = entry.1
          · subst hkey
            rcases o.get_pend_self entry.1 status with ⟨hlt, -⟩ | ⟨previous, hprevious, -, hself⟩
            · exact .inr (.inr ⟨status, (hpublished _).mpr (.inr rfl), hlt _ hpending⟩)
            · exact .inl (hself.trans (hprevious.symm.trans hpending))
          · exact .inl ((o.get_pend_of_ne hkey status).trans hpending)
        · exact .inr (.inl hsent)
        · exact .inr (.inr ⟨later, (hpublished _).mpr (.inl hlater), hlt⟩)
      · rcases o.get_pend_self key status with ⟨-, hself⟩ | ⟨previous, hprevious, hle, -⟩
        · exact .inl hself
        · have hne := hfresh _ (h.pending key previous hprevious)
          refine .inr (.inr ⟨previous, (hpublished _).mpr (.inl (h.pending _ _ hprevious)), ?_⟩)
          exact lt_of_le_of_ne hle hne.symm
    subscribing := fun _ _ => .inr hnotifying
    waiting := fun _ _ => hnotifying }

theorem leave {writer : WriterPhase} {permit : Bool}
    (hsubscribing : writer = .subscribing → permit = true) (hwaiting : writer ≠ .waiting) :
    (({ o with writer, permit } : ChatOutbox).setPublisher id .idle).Sound := by
  have hdrawn : ∀ {id' key status},
      (({ o with writer, permit } : ChatOutbox).setPublisher id .idle).publishers id' =
        .drawn key status → o.publishers id' = .drawn key status := by
    intro id' key status hphase
    rw [publishers_setPublisher] at hphase
    split at hphase
    · exact nomatch hphase
    · exact hphase
  exact { h with
    drawn := fun id' key status hphase => h.drawn id' key status (hdrawn hphase)
    distinct := fun _ _ _ _ _ _ hphase hphase' =>
      h.distinct _ _ _ _ _ _ (hdrawn hphase) (hdrawn hphase')
    subscribing := fun hwriter _ => .inl (hsubscribing hwriter)
    waiting := fun hwriter => absurd hwriter hwaiting }

theorem notify : (o.notifyOne.setPublisher id .idle).Sound := by
  rw [notifyOne]
  by_cases hwaiting : o.writer = .waiting
  · rw [if_pos hwaiting]
    exact h.leave nofun nofun
  · rw [if_neg hwaiting]
    exact h.leave (fun _ => rfl) hwaiting

theorem wake {writer : WriterPhase} {permit : Bool}
    (hsubscribing : writer = .subscribing → o.pending.isEmpty = true)
    (hwaiting : writer = .waiting → o.pending.isEmpty = false → o.Notifying) :
    ({ o with writer, permit } : ChatOutbox).Sound where
  __ := h
  subscribing hwriter hpending := nomatch (hsubscribing hwriter).symm.trans hpending
  waiting := hwaiting

theorem take (hpending : o.pending[key]? = some status) :
    ({ o with
      pending := o.pending.erase key
      sent := o.sent ++ [(key, status)]
      writer := .away } : ChatOutbox).Sound where
  __ := h
  pending other found hfound := by
    by_cases hne : key = other
    · subst hne
      exact nomatch Std.ExtTreeMap.getElem?_erase_self.symm.trans hfound
    · exact h.pending other found ((get_erase_of_ne _ hne).symm.trans hfound)
  sent entry hentry := by
    rcases mem_append.mp hentry with hold | hnew
    · exact h.sent entry hold
    · rw [mem_singleton.mp hnew]
      exact h.pending key status hpending
  kept entry hentry := by
    rcases h.kept entry hentry with hold | hsent | hlater
    · by_cases hne : key = entry.1
      · subst hne
        obtain rfl := Option.some.inj (hpending.symm.trans hold)
        exact .inr (.inl (mem_append_right _ (mem_singleton_self _)))
      · exact .inl ((get_erase_of_ne _ hne).trans hold)
    · exact .inr (.inl (mem_append_left _ hsent))
    · exact .inr (.inr hlater)
  subscribing hwriter := nomatch hwriter
  waiting hwriter := nomatch hwriter

end Sound

theorem isEmpty_of_toList_eq_nil {m : OrderedMap StatusKey PendingStatus} (h : m.toList = []) :
    m.isEmpty = true := by
  rw [Std.ExtTreeMap.isEmpty_iff]
  refine ext fun key => ?_
  rw [Std.ExtTreeMap.getElem?_empty]
  refine Option.eq_none_iff_forall_ne_some.mpr fun status hsome => ?_
  rw [← mem_toList, h] at hsome
  exact nomatch hsome

/-- What a step of the writer does: it sends a pending status, or moves on. -/
inductive Written (o : ChatOutbox) : ChatOutbox → Prop
  | sent {key : StatusKey} {status : PendingStatus} (hwriter : o.writer = .looking)
      (hpending : o.pending[key]? = some status) :
      Written o { o with
        pending := o.pending.erase key
        sent := o.sent ++ [(key, status)]
        writer := .away }
  | called (hwriter : o.writer = .away) : Written o { o with writer := .looking }
  | subscribed (hwriter : o.writer = .looking) (hpending : o.pending.isEmpty = true) :
      Written o { o with writer := .subscribing }
  | permitted (hwriter : o.writer = .subscribing) (hpermit : o.permit = true) :
      Written o { o with permit := false, writer := .looking }
  | waited (hwriter : o.writer = .subscribing) (hpermit : o.permit = false) :
      Written o { o with writer := .waiting }
  | woken (hwriter : o.writer = .notified) : Written o { o with writer := .looking }

variable {o' : ChatOutbox}

theorem written_of_write (h : o.write = some o') : Written o o' := by
  rw [write] at h
  split at h
  · rename_i hwriter
    obtain rfl := Option.some.inj h
    exact .called hwriter
  · rename_i hwriter
    split at h
    · rename_i key status hleast
      obtain rfl := Option.some.inj h
      exact .sent hwriter (mem_toList.mp (argmin_mem hleast))
    · rename_i hnone
      obtain rfl := Option.some.inj h
      exact .subscribed hwriter (isEmpty_of_toList_eq_nil (argmin_eq_none.mp hnone))
  · rename_i hwriter
    split at h
    · rename_i hpermit
      obtain rfl := Option.some.inj h
      exact .permitted hwriter hpermit
    · rename_i hpermit
      obtain rfl := Option.some.inj h
      exact .waited hwriter (Bool.eq_false_iff.mpr hpermit)
  · exact nomatch h
  · rename_i hwriter
    obtain rfl := Option.some.inj h
    exact .woken hwriter

theorem Sound.step {act : OutboxAct} (h : o.Sound) (hstep : OutboxStep o act o') : o'.Sound := by
  cases hstep with
  | draw event sessionKey state frame hidle => exact h.draw event sessionKey state frame hidle
  | skip hphase => exact h.setPublisher (by rw [hphase]; nofun) nofun
  | publish hphase => exact h.publish hphase
  | notify hphase => exact h.notify
  | write hwrite =>
    cases written_of_write hwrite with
    | sent hwriter hpending => exact h.take hpending
    | called hwriter | permitted hwriter hpermit | woken hwriter => exact h.wake nofun nofun
    | subscribed hwriter hpending => exact h.wake (fun _ => hpending) nofun
    | waited hwriter hpermit =>
      refine h.wake nofun fun _ hpending => ?_
      refine (h.subscribing hwriter hpending).resolve_left ?_
      rw [hpermit]
      nofun
  | drop hwriter | dropNotified hwriter => exact h.wake nofun nofun

theorem sound_new : new.Sound where
  pending _ _ hpending := nomatch (Std.ExtTreeMap.getElem?_empty ..).symm.trans hpending
  sent _ hsent := nomatch hsent
  published _ hpublished := nomatch hpublished
  drawn _ _ _ hdrawn := nomatch hdrawn
  distinct _ _ _ _ _ _ hdrawn := nomatch hdrawn
  kept _ hpublished := nomatch hpublished
  subscribing hwriter := nomatch hwriter
  waiting hwriter := nomatch hwriter

/-! ## The order of the statuses -/

/-- What has been sent of a key is in order, and older than what is pending. -/
structure Ordered (o : ChatOutbox) : Prop where
  sent : o.sent.Pairwise fun a b => a.1 = b.1 → a.2.sequence < b.2.sequence
  pending : ∀ key status, o.pending[key]? = some status →
    ∀ earlier, (key, earlier) ∈ o.sent → earlier.sequence < status.sequence

theorem Ordered.step {act : OutboxAct} (h : o.Ordered) (hstep : OutboxStep o act o')
    (horder : o.InOrder act) : o'.Ordered := by
  cases hstep with
  | draw | skip | drop | dropNotified => exact ⟨h.sent, h.pending⟩
  | notify =>
    rw [notifyOne]
    split <;> exact ⟨h.sent, h.pending⟩
  | @publish id key status hphase =>
    refine ⟨h.sent, fun other found hfound earlier hsent => ?_⟩
    rcases of_get_pend hfound with hold | hnew
    · exact h.pending other found hold earlier hsent
    · obtain ⟨rfl, rfl⟩ := Prod.mk.inj hnew
      exact horder _ _ hphase earlier hsent
  | write hwrite =>
    cases written_of_write hwrite with
    | @sent key status hwriter hpending =>
      refine ⟨pairwise_append.mpr ⟨h.sent, pairwise_singleton .., ?_⟩, ?_⟩
      · rintro ⟨other, earlier⟩ hearlier entry hentry (rfl : other = entry.1)
        rw [mem_singleton.mp hentry] at hearlier ⊢
        exact h.pending key status hpending earlier hearlier
      · intro other found hfound earlier hsent
        have hne : key ≠ other := by
          rintro rfl
          exact nomatch Std.ExtTreeMap.getElem?_erase_self.symm.trans hfound
        have hold := (get_erase_of_ne _ hne).symm.trans hfound
        rcases mem_append.mp hsent with hearlier | hnew
        · exact h.pending other found hold earlier hearlier
        · exact absurd (Prod.mk.inj (mem_singleton.mp hnew)).1.symm hne
    | called | subscribed | permitted | waited | woken => exact ⟨h.sent, h.pending⟩

/-! ## The writer comes to rest -/

def WriterPhase.rank : WriterPhase → ℕ
  | .away => 3
  | .looking => 2
  | .subscribing => 1
  | .waiting => 0
  | .notified => 3

/-- How many steps the writer takes at most before it waits. -/
def rank (o : ChatOutbox) : ℕ := 2 * o.pending.size + 2 * o.permit.toNat + WriterPhase.rank o.writer

theorem rank_lt (h : o.write = some o') : o'.rank < o.rank := by
  cases written_of_write h with
  | @sent key status hwriter hpending =>
    have hcontains : o.pending.contains key = true := by
      rw [contains_eq_isSome, hpending]
      rfl
    have hsize : (o.pending.erase key).size = o.pending.size - 1 := by
      rw [Std.ExtTreeMap.size_erase, if_pos hcontains]
    have hpos : 0 < o.pending.size := by
      refine Nat.pos_of_ne_zero fun hzero => ?_
      rw [Std.ExtTreeMap.eq_empty_iff_size_eq_zero.mpr hzero] at hpending
      exact nomatch (Std.ExtTreeMap.getElem?_empty ..).symm.trans hpending
    simp only [rank, hwriter, hsize, WriterPhase.rank]
    omega
  | called hwriter | subscribed hwriter | waited hwriter | woken hwriter =>
    simp only [rank, hwriter, WriterPhase.rank]
    omega
  | permitted hwriter hpermit =>
    simp only [rank, hwriter, hpermit, WriterPhase.rank, Bool.toNat_true, Bool.toNat_false]
    omega

theorem length_le_rank {acts : List OutboxAct} (hrun : Run OutboxStep o acts o')
    (hwriter : ∀ act ∈ acts, act = .writer) : acts.length ≤ o.rank := by
  induction hrun with
  | nil => exact Nat.zero_le _
  | @cons o o₁ o' act acts hstep _ ih =>
    have hrest := ih fun act hact => hwriter act (mem_cons_of_mem _ hact)
    obtain rfl := hwriter act mem_cons_self
    cases hstep with
    | write hwrite =>
      have hlt := rank_lt hwrite
      rw [length_cons]
      omega

/-! ## Delivery -/

/-- What the client can rely on. -/
structure Delivered (o : ChatOutbox) : Prop where
  ordered : o.sent.Pairwise fun a b => a.1 = b.1 → a.2.sequence < b.2.sequence
  kept : ∀ entry ∈ o.published, o.Kept entry.1 entry.2
  /-- The writer waits only where nothing is pending, or it is about to be notified. -/
  awake : o.write = none → o.pending.isEmpty = false → o.Notifying
  /-- If only the writer goes on, it comes to rest. -/
  settles : ∃ bound, ∀ {acts : List OutboxAct} {o' : ChatOutbox}, Run OutboxStep o acts o' →
    (∀ act ∈ acts, act = .writer) → acts.length ≤ bound
  /-- Once the publishers have stopped and the writer rests, the latest status is sent. -/
  delivered : (∀ id, o.publishers id = .idle) → o.write = none → ∀ entry ∈ o.published,
    entry ∈ o.sent ∨ ∃ later, (entry.1, later) ∈ o.published ∧ entry.2.sequence < later.sequence

theorem waiting_of_write_eq_none (h : o.write = none) : o.writer = .waiting := by
  rw [write] at h
  split at h
  · exact nomatch h
  · split at h <;> exact nomatch h
  · split at h <;> exact nomatch h
  · assumption
  · exact nomatch h

theorem Sound.delivered (h : o.Sound) (hordered : o.Ordered) : o.Delivered where
  ordered := hordered.sent
  kept := h.kept
  awake hwrite := h.waiting (waiting_of_write_eq_none hwrite)
  settles := ⟨_, length_le_rank⟩
  delivered hidle hwrite entry hentry := by
    rcases h.kept entry hentry with hpending | hdone
    · obtain ⟨id, hnotifying⟩ := h.waiting (waiting_of_write_eq_none hwrite)
        (isEmpty_eq_false_of_get hpending)
      exact nomatch (hidle id).symm.trans hnotifying
    · exact hdone

/-- **Statuses are delivered**: as long as none is published after a later one of its key was sent,
the client gets the statuses of each key in order, each one that is not superseded, and the latest
one at the end. -/
theorem statuses_delivered {acts : List OutboxAct} {o : ChatOutbox}
    (hrun : Run OrderedStep new acts o) : o.Delivered := by
  have hboth : o.Sound ∧ o.Ordered := by
    have hnew : new.Ordered := ⟨.nil, fun _ _ _ _ hsent => nomatch hsent⟩
    exact hrun.invariant (P := fun o => o.Sound ∧ o.Ordered)
      (fun _ _ _ hs hstep => ⟨hs.1.step hstep.1, hs.2.step hstep.1 hstep.2⟩) ⟨sound_new, hnew⟩
  exact hboth.1.delivered hboth.2

theorem statuses_delivered_superseded : ∃ o,
    Run OrderedStep new [.publisher 0, .publish 0, .publisher 0, .publisher 0, .publish 0,
      .publisher 0, .writer, .writer] o ∧
    o.sent = [(⟨"session", .run⟩, ⟨2, "final"⟩)] ∧ o.Delivered := by
  have hrun : ∃ o, Run OrderedStep new [.publisher 0, .publish 0, .publisher 0, .publisher 0,
      .publish 0, .publisher 0, .writer, .writer] o ∧
      o.sent = [(⟨"session", .run⟩, ⟨2, "final"⟩)] :=
    ⟨_, .cons ⟨.draw "chat" (some "session") (some "thinking") "thinking" rfl, trivial⟩ <|
      .cons ⟨.publish rfl, fun _ _ _ _ hsent => nomatch hsent⟩ <| .cons ⟨.notify rfl, trivial⟩ <|
      .cons ⟨.draw "chat" (some "session") (some "final") "final" rfl, trivial⟩ <|
      .cons ⟨.publish rfl, fun _ _ _ _ hsent => nomatch hsent⟩ <| .cons ⟨.notify rfl, trivial⟩ <|
      .cons ⟨.write rfl, trivial⟩ <| .cons ⟨.write rfl, trivial⟩ <| .nil _, rfl⟩
  obtain ⟨o, hrun, hsent⟩ := hrun
  exact ⟨o, hrun, hsent, statuses_delivered hrun⟩

theorem overtaken : ¬∀ (acts : List OutboxAct) (o : ChatOutbox), Run OutboxStep new acts o →
    o.Delivered := by
  intro h
  have hrun : ∃ o, Run OutboxStep new [.publisher 0, .publisher 1, .publish 1, .publisher 1,
      .writer, .writer, .publish 0, .publisher 0, .writer, .writer] o ∧
      o.sent = [(⟨"session", .run⟩, ⟨2, "final"⟩), (⟨"session", .run⟩, ⟨1, "thinking"⟩)] :=
    ⟨_, .cons (.draw "chat" (some "session") (some "thinking") "thinking" rfl) <|
      .cons (.draw "chat" (some "session") (some "final") "final" rfl) <|
      .cons (.publish rfl) <| .cons (.notify rfl) <| .cons (.write rfl) <| .cons (.write rfl) <|
      .cons (.publish rfl) <| .cons (.notify rfl) <| .cons (.write rfl) <| .cons (.write rfl) <|
      .nil _, rfl⟩
  obtain ⟨o, hrun, hsent⟩ := hrun
  have hordered := (h _ o hrun).ordered
  rw [hsent] at hordered
  exact absurd (List.rel_of_pairwise_cons hordered (List.mem_singleton_self _) rfl) (by decide)

end ChatOutbox

end Chelix.Gateway
