import Chelix.Telephony.CallManager

/-!
# Every telephone call is tracked once

The index, the active calls and the timers agree on a call as long as nothing is under way for it.
Two things can break this: an event that is looked up, or a hang-up that starts, while the call is
still being stored, and a webhook that registers a call which was begun already or has ended.

* **`calls_tracked`**: what holds in every state of a run of such steps.
-/

namespace Chelix.Telephony

open Chelix.Library Function CallManager

/-- The thread takes the call out of the maps. -/
def CallThread.Ends : CallThread → CallId → Prop
  | .unindexing other _, callId => other = callId
  | .removing other, callId => other = callId
  | .cancelling other, callId => other = callId
  | _, _ => False

/-- The timer takes its call out of the maps. -/
def Timer.Ending : Timer → Prop
  | .unindexing _ _ => True
  | .hangingUp => True
  | .removing => True
  | _ => False

/-- There is no handle for the timer. -/
def Timer.Unset : Timer → Prop
  | .absent => True
  | .aborted => True
  | .unindexing _ stop => stop = true
  | _ => False

namespace CallManager

/-! ## Steps that keep the maps together

A call is registered once, and not after its end.  Its end is looked up, and a hang-up begins, once
it is stored. -/

variable (m : CallManager)

/-- The call is not being stored. -/
def Stored (callId : CallId) : Prop := m.storing callId = none

def Keeps : CallAct → Prop
  | .register tid => ∀ providerCallId, m.threads tid = .registering providerCallId →
      m.Unassigned providerCallId
  | .look tid => ∀ event, m.threads tid = .looking event → event.ends = true →
      ∀ callId, m.begun callId = some event.providerCallId → m.Stored callId
  | .hangup _ callId => m.Stored callId
  | _ => True

/-! ## What holds of one call -/

variable (callId : CallId)

/-- At most the handle of the timer is still to be stored. -/
def Late : Prop := ∀ record stage, m.storing callId = some (record, stage) → stage = .handle

/-- A thread can take the call out of the maps: no timer is left behind. -/
def Ready : Prop := m.Stored callId ∨ m.Late callId ∧ m.timers callId ≠ .sleeping

def Indexed : Prop := ∃ providerCallId, m.providerIndex providerCallId = some callId

/-- The call is active, in the sense of `active_calls`. -/
def Active : Prop := ∃ record, m.activeCalls callId = some record ∧ record.state.isTerminal = false

def Live : Prop := m.Indexed callId ∧ m.Active callId ∧ m.timers callId = .sleeping

/-- A thread takes the call out of the maps. -/
def Ended : Prop := ∃ tid, (m.threads tid).Ends callId

def Gone : Prop :=
  ¬m.Indexed callId ∧ m.activeCalls callId = none ∧ m.timers callId ≠ .sleeping

def Doomed : Prop := m.Ended callId ∨ (m.timers callId).Ending ∨ m.Gone callId

/-- What the maps hold while the call is stored. -/
def StageOk : StoreStage → Prop
  | .active => m.activeCalls callId = none ∧ ¬m.Indexed callId ∧ m.timers callId = .absent
  | .index => m.Active callId ∧ ¬m.Indexed callId ∧ m.timers callId = .absent
  | .timer => m.Active callId ∧ m.Indexed callId ∧ m.timers callId = .absent
  | .handle => (m.timers callId = .sleeping → m.Active callId) ∧
      m.timeoutHandles callId = false ∧ ¬(m.timers callId).Unset

def TimerOk : Timer → Prop
  | .unindexing providerCallId aborted =>
    m.begun callId = some providerCallId ∧ (aborted = true → m.activeCalls callId = none)
  | .hangingUp => ¬m.Indexed callId
  | .removing => ¬m.Indexed callId ∨ m.Ended callId
  | _ => True

structure CallOk : Prop where
  record : ∀ record, m.activeCalls callId = some record →
    record.providerCallId = m.begun callId ∧ m.begun callId ≠ none
  index : ∀ providerCallId, m.providerIndex providerCallId = some callId →
    m.begun callId = some providerCallId
  fresh : m.begun callId = none → m.Stored callId ∧ m.timers callId = .absent
  storing : ∀ record stage, m.storing callId = some (record, stage) →
    record.providerCallId = m.begun callId ∧ record.state.isTerminal = false ∧
      m.StageOk callId stage
  life : m.begun callId ≠ none → m.Late callId → m.Live callId ∨ m.Doomed callId
  handle : m.timers callId = .sleeping → m.timeoutHandles callId = true ∨ ¬m.Stored callId
  handleOf : m.timeoutHandles callId = true → ¬(m.timers callId).Unset
  timer : m.TimerOk callId (m.timers callId)

def ThreadOk : CallThread → Prop
  | .handling event callId =>
    m.begun callId ≠ none ∧ (event.ends = true → m.Stored callId)
  | .hangingUp callId providerCallId =>
    m.begun callId = some providerCallId ∧ m.Stored callId
  | .unindexing callId providerCallId =>
    m.begun callId = providerCallId ∧ providerCallId ≠ none ∧ m.Ready callId
  | .removing callId => m.begun callId ≠ none ∧ m.Ready callId ∧ ¬m.Indexed callId
  | .cancelling callId => m.begun callId ≠ none ∧ m.Ready callId ∧ ¬m.Indexed callId ∧
      m.activeCalls callId = none
  | _ => True

/-- An end that was reported is being looked up, or takes the call out of the maps. -/
def EndOk (providerCallId : String) : Prop :=
  (∃ tid event, m.threads tid = .looking event ∧ event.ends = true ∧
      event.providerCallId = providerCallId) ∨
    ∀ callId, m.begun callId = some providerCallId → m.Stored callId ∧
      ((∃ tid event, m.threads tid = .handling event callId ∧ event.ends = true) ∨
        m.Doomed callId)

structure Consistent : Prop where
  distinct : ∀ callId other providerCallId, m.begun callId = some providerCallId →
    m.begun other = some providerCallId → callId = other
  call : ∀ callId, m.CallOk callId
  thread : ∀ tid, m.ThreadOk (m.threads tid)
  ended : ∀ providerCallId ∈ m.ended, m.EndOk providerCallId

variable {m callId}

/-! ## A change of the maps for one call -/

/-- The maps hold the same of the call. -/
structure SameAt (m m' : CallManager) (callId : CallId) : Prop where
  active : m'.activeCalls callId = m.activeCalls callId
  index : ∀ providerCallId, m'.providerIndex providerCallId = some callId ↔
    m.providerIndex providerCallId = some callId
  handle : m'.timeoutHandles callId = m.timeoutHandles callId
  timer : m'.timers callId = m.timers callId
  storing : m'.storing callId = m.storing callId
  begun : m'.begun callId = m.begun callId

/-- What a change of the maps does not undo. -/
structure LaterAt (m m' : CallManager) (callId : CallId) : Prop where
  begun : m'.begun callId = m.begun callId
  stored : m.Stored callId → m'.Stored callId
  ready : m.Ready callId → m'.Ready callId
  index : m.Ready callId → ¬m.Indexed callId → ¬m'.Indexed callId
  active : m.Ready callId → m.activeCalls callId = none → m'.activeCalls callId = none
  doomed : m.Late callId → m.Doomed callId → m'.Doomed callId

namespace SameAt

variable {m' : CallManager} (h : SameAt m m' callId)
include h

theorem stored : m'.Stored callId ↔ m.Stored callId := by rw [Stored, Stored, h.storing]

theorem late : m'.Late callId ↔ m.Late callId := by rw [Late, Late, h.storing]

theorem ready : m'.Ready callId ↔ m.Ready callId := by
  rw [Ready, Ready, h.stored, h.late, h.timer]

theorem indexed : m'.Indexed callId ↔ m.Indexed callId := exists_congr h.index

theorem activeIff : m'.Active callId ↔ m.Active callId := by rw [Active, Active, h.active]

theorem gone : m'.Gone callId ↔ m.Gone callId := by
  rw [Gone, Gone, h.indexed, h.active, h.timer]

theorem live : m'.Live callId ↔ m.Live callId := by
  rw [Live, Live, h.indexed, h.activeIff, h.timer]

theorem doomed (hthreads : m'.threads = m.threads) : m'.Doomed callId ↔ m.Doomed callId := by
  rw [Doomed, Doomed, h.gone, h.timer, Ended, Ended, hthreads]

theorem laterAt (hthreads : m'.threads = m.threads) : LaterAt m m' callId where
  begun := h.begun
  stored := h.stored.mpr
  ready := h.ready.mpr
  index _ := mt h.indexed.mp
  active _ := h.active.trans
  doomed _ := (h.doomed hthreads).mpr

theorem stageOk {stage : StoreStage} (hstage : m.StageOk callId stage) :
    m'.StageOk callId stage := by
  cases stage with
  | active => exact ⟨h.active.trans hstage.1, mt h.indexed.mp hstage.2.1, h.timer.trans hstage.2.2⟩
  | index =>
    exact ⟨h.activeIff.mpr hstage.1, mt h.indexed.mp hstage.2.1, h.timer.trans hstage.2.2⟩
  | timer =>
    exact ⟨h.activeIff.mpr hstage.1, h.indexed.mpr hstage.2.1, h.timer.trans hstage.2.2⟩
  | handle =>
    obtain ⟨hactive, hhandle, hset⟩ := hstage
    refine ⟨fun hsleeping => h.activeIff.mpr (hactive (h.timer.symm.trans hsleeping)),
      h.handle.trans hhandle, ?_⟩
    rw [h.timer]
    exact hset

theorem timerOk (hthreads : m'.threads = m.threads) {timer : Timer}
    (htimer : m.TimerOk callId timer) : m'.TimerOk callId timer := by
  cases timer with
  | unindexing providerCallId aborted =>
    exact ⟨h.begun.trans htimer.1, fun haborted => h.active.trans (htimer.2 haborted)⟩
  | hangingUp => exact mt h.indexed.mp htimer
  | removing =>
    refine htimer.imp (mt h.indexed.mp) fun hended => ?_
    rw [Ended, hthreads]
    exact hended
  | absent | sleeping | finished | aborted => trivial

theorem callOk (hthreads : m'.threads = m.threads) (hcall : m.CallOk callId) :
    m'.CallOk callId where
  record record hrecord := by
    rw [h.begun]
    exact hcall.record record (h.active.symm.trans hrecord)
  index providerCallId hindex := h.begun.trans (hcall.index _ ((h.index _).mp hindex))
  fresh hfresh := by
    rw [h.stored, h.timer]
    exact hcall.fresh (h.begun.symm.trans hfresh)
  storing record stage hstoring := by
    obtain ⟨hid, hstate, hstage⟩ := hcall.storing record stage (h.storing.symm.trans hstoring)
    exact ⟨hid.trans h.begun.symm, hstate, h.stageOk hstage⟩
  life hbegun hlate := by
    rw [h.live, h.doomed hthreads]
    exact hcall.life (h.begun ▸ hbegun) (h.late.mp hlate)
  handle := by
    rw [h.timer, h.handle, h.stored]
    exact hcall.handle
  handleOf := by
    rw [h.timer, h.handle]
    exact hcall.handleOf
  timer := by
    rw [h.timer]
    exact h.timerOk hthreads hcall.timer

end SameAt

variable {thread : CallThread}

theorem LaterAt.threadOk {m' : CallManager} (hlater : ∀ callId, m.begun callId ≠ none →
    LaterAt m m' callId) (h : m.ThreadOk thread) : m'.ThreadOk thread := by
  cases thread with
  | handling event callId =>
    have hl := hlater callId h.1
    exact ⟨hl.begun ▸ h.1, fun hends => hl.stored (h.2 hends)⟩
  | hangingUp callId providerCallId =>
    have hl := hlater callId (by rw [h.1]; nofun)
    exact ⟨hl.begun.trans h.1, hl.stored h.2⟩
  | unindexing callId providerCallId =>
    obtain ⟨hbegun, hsome, hready⟩ := h
    have hl := hlater callId (hbegun ▸ hsome)
    exact ⟨hl.begun.trans hbegun, hsome, hl.ready hready⟩
  | removing callId =>
    obtain ⟨hbegun, hready, hindex⟩ := h
    have hl := hlater callId hbegun
    exact ⟨hl.begun ▸ hbegun, hl.ready hready, hl.index hready hindex⟩
  | cancelling callId =>
    obtain ⟨hbegun, hready, hindex, hactive⟩ := h
    have hl := hlater callId hbegun
    exact ⟨hl.begun ▸ hbegun, hl.ready hready, hl.index hready hindex,
      hl.active hready hactive⟩
  | idle | requesting | resolving | getting | registering | looking => trivial

variable {tid : ℕ}

theorem threads_move_self :
    (m.move tid thread).threads tid = thread :=
  update_self ..

theorem ended_move (hends : thread.Ends callId) :
    (m.move tid thread).Ended callId :=
  ⟨tid, threads_move_self ▸ hends⟩

theorem Stored.late (h : m.Stored callId) : m.Late callId := by
  intro record stage hstoring
  rw [h] at hstoring
  exact nomatch hstoring

namespace Consistent

variable (h : m.Consistent)
include h

theorem update {m' : CallManager} (callId : CallId) (hthreads : m'.threads = m.threads)
    (hended : m'.ended = m.ended) (hsame : ∀ other, other ≠ callId → SameAt m m' other)
    (hbegun : ∀ providerCallId, m'.begun callId = some providerCallId →
      m.begun callId = some providerCallId ∨ m.Unassigned providerCallId)
    (hlater : m.begun callId ≠ none → LaterAt m m' callId) (hcall : m'.CallOk callId) :
    m'.Consistent := by
  have hlaterAll : ∀ other, m.begun other ≠ none → LaterAt m m' other := by
    intro other hother
    by_cases heq : other = callId
    · subst heq
      exact hlater hother
    · exact (hsame other heq).laterAt hthreads
  have hback : ∀ other providerCallId, m'.begun other = some providerCallId →
      m.begun other = some providerCallId ∨
        other = callId ∧ m.Unassigned providerCallId := by
    intro other providerCallId hother
    by_cases heq : other = callId
    · subst heq
      exact (hbegun _ hother).imp_right fun hnew => ⟨rfl, hnew⟩
    · exact .inl ((hsame other heq).begun.symm.trans hother)
  exact {
    distinct := by
      intro c c' providerCallId hc hc'
      rcases hback c _ hc with hold | ⟨rfl, hnew⟩
      · rcases hback c' _ hc' with hold' | ⟨rfl, hnew'⟩
        · exact h.distinct _ _ _ hold hold'
        · exact absurd hold (hnew'.1 c)
      · rcases hback c' _ hc' with hold' | ⟨rfl, -⟩
        · exact absurd hold' (hnew.1 c')
        · rfl
    call := by
      intro other
      by_cases heq : other = callId
      · subst heq
        exact hcall
      · exact (hsame other heq).callOk hthreads (h.call other)
    thread := by
      intro tid
      rw [hthreads]
      exact LaterAt.threadOk hlaterAll (h.thread tid)
    ended := by
      intro providerCallId hmem
      rw [hended] at hmem
      rw [EndOk, hthreads]
      refine (h.ended _ hmem).imp_right fun hall other hother => ?_
      rcases hback other _ hother with hold | ⟨rfl, hnew⟩
      · obtain ⟨hstored, hdone⟩ := hall other hold
        have hl := hlaterAll other (by rw [hold]; nofun)
        exact ⟨hl.stored hstored, hdone.imp_right (hl.doomed hstored.late)⟩
      · exact absurd hmem hnew.2 }

theorem move (hthread : m.ThreadOk thread)
    (hends : ∀ callId, (m.threads tid).Ends callId → thread.Ends callId ∨ m.Gone callId)
    (hlook : ∀ event, m.threads tid = .looking event → event.ends = true →
      ∀ callId, m.begun callId = some event.providerCallId → m.Stored callId ∧
        (thread = .handling event callId ∨ m.Doomed callId))
    (hhandle : ∀ event callId, m.threads tid = .handling event callId → event.ends = true →
      thread.Ends callId ∨ m.Doomed callId) : (m.move tid thread).Consistent := by
  have hself : (m.move tid thread).threads tid = thread := update_self ..
  have hother : ∀ tid', tid' ≠ tid → (m.move tid thread).threads tid' = m.threads tid' :=
    fun tid' hne => update_of_ne hne ..
  -- An agent stays one, or leaves nothing behind.
  have hended : ∀ callId, m.Ended callId → (m.move tid thread).Ended callId ∨ m.Gone callId := by
    rintro callId ⟨tid', htid'⟩
    by_cases heq : tid' = tid
    · subst heq
      exact (hends callId htid').imp_left fun hnew => ⟨tid', by rw [hself]; exact hnew⟩
    · exact .inl ⟨tid', by rw [hother tid' heq]; exact htid'⟩
  have hdoomed : ∀ callId, m.Doomed callId → (m.move tid thread).Doomed callId := by
    rintro callId (hagent | htimer | hgone)
    · exact (hended callId hagent).elim .inl fun hgone => .inr (.inr hgone)
    · exact .inr (.inl htimer)
    · exact .inr (.inr hgone)
  have hthreadDoomed : ∀ callId, thread.Ends callId → (m.move tid thread).Doomed callId :=
    fun callId hnew => .inl ⟨tid, by rw [hself]; exact hnew⟩
  exact {
    distinct := h.distinct
    call := by
      intro callId
      have hcall := h.call callId
      exact { hcall with
        life := fun hbegun hlate => (hcall.life hbegun hlate).imp_right (hdoomed callId)
        timer := by
          have htimer := hcall.timer
          show (m.move tid thread).TimerOk callId (m.timers callId)
          cases hphase : m.timers callId with
          | removing =>
            rw [hphase] at htimer
            rcases htimer with hindex | hagent
            · exact .inl hindex
            · exact (hended callId hagent).elim .inr fun hgone => .inl hgone.1
          | _ =>
            rw [hphase] at htimer
            exact htimer }
    thread := by
      intro tid'
      by_cases heq : tid' = tid
      · subst heq
        rw [hself]
        exact hthread
      · rw [hother tid' heq]
        exact h.thread tid'
    ended := by
      rintro providerCallId hmem
      -- The thread that moves may be the one the end relies on.
      have hgo : ∀ callId, (∃ tid event, m.threads tid = .handling event callId ∧
          event.ends = true) ∨ m.Doomed callId →
          (∃ tid' event, (m.move tid thread).threads tid' = .handling event callId ∧
            event.ends = true) ∨ (m.move tid thread).Doomed callId := by
        rintro callId (⟨tid', event, hphase, hevent⟩ | hdone)
        · by_cases heq : tid' = tid
          · subst heq
            exact .inr ((hhandle event callId hphase hevent).elim (hthreadDoomed callId)
              (hdoomed callId))
          · exact .inl ⟨tid', event, (hother tid' heq).trans hphase, hevent⟩
        · exact .inr (hdoomed callId hdone)
      rcases h.ended providerCallId hmem with ⟨tid', event, hphase, hevent, hid⟩ | hall
      · by_cases heq : tid' = tid
        · subst heq
          refine .inr fun callId hcallId => ?_
          obtain ⟨hstored, hdone⟩ := hlook event hphase hevent callId (hid ▸ hcallId)
          refine ⟨hstored, hdone.imp (fun hnew => ?_) (hdoomed callId)⟩
          exact ⟨tid', event, hself.trans hnew, hevent⟩
        · exact .inl ⟨tid', event, (hother tid' heq).trans hphase, hevent, hid⟩
      · exact .inr fun callId hcallId => ⟨(hall callId hcallId).1,
          hgo callId (hall callId hcallId).2⟩ }

/-! ## Storing a call -/

theorem not_indexed_of_fresh (hfresh : m.begun callId = none) : ¬m.Indexed callId := by
  rintro ⟨providerCallId, hindex⟩
  have hbegun := (h.call callId).index providerCallId hindex
  rw [hfresh] at hbegun
  exact nomatch hbegun

theorem inactive_of_fresh (hfresh : m.begun callId = none) : m.activeCalls callId = none := by
  cases hactive : m.activeCalls callId with
  | none => rfl
  | some record => exact absurd hfresh ((h.call callId).record record hactive).2

variable {record : CallRecord} {providerCallId : String}

theorem beginCall
    (hid : record.providerCallId = some providerCallId) (hstate : record.state.isTerminal = false)
    (hfresh : m.begun callId = none) (hnew : m.Unassigned providerCallId) :
    (m.beginCall callId record).Consistent := by
  have hindex := h.not_indexed_of_fresh hfresh
  have hactive := h.inactive_of_fresh hfresh
  have htimer : m.timers callId = .absent := ((h.call callId).fresh hfresh).2
  have hbegun : (m.beginCall callId record).begun callId = record.providerCallId :=
    update_self ..
  have hstoring : (m.beginCall callId record).storing callId = some (record, .active) :=
    update_self ..
  refine h.update callId rfl rfl (fun other hother => ?_) (fun id hsome => ?_)
    (fun hsome => absurd hfresh hsome) ?_
  · exact ⟨rfl, fun _ => Iff.rfl, rfl, rfl, update_of_ne hother ..,
      update_of_ne hother ..⟩
  · rw [hbegun, hid] at hsome
    obtain rfl := Option.some.inj hsome
    exact .inr hnew
  · exact {
      record := fun record' hrecord => nomatch hactive.symm.trans hrecord
      index := fun id hsome => absurd ⟨id, hsome⟩ hindex
      fresh := fun hnone => by
        rw [hbegun, hid] at hnone
        exact nomatch hnone
      storing := fun record' stage hsome => by
        rw [hstoring] at hsome
        obtain ⟨rfl, rfl⟩ := Prod.mk.inj (Option.some.inj hsome)
        exact ⟨hbegun.symm, hstate, hactive, hindex, htimer⟩
      life := fun _ hlate => nomatch hlate _ _ hstoring
      handle := fun hsleeping => nomatch htimer.symm.trans hsleeping
      handleOf := (h.call callId).handleOf
      timer := by
        show (m.beginCall callId record).TimerOk callId (m.timers callId)
        rw [htimer]
        trivial }

omit h in
/-- Nothing has been promised about a call that is at an early stage. -/
theorem laterAt_of_early {m' : CallManager} {record : CallRecord} {stage : StoreStage}
    (hphase : m.storing callId = some (record, stage)) (hstage : stage ≠ .handle)
    (hbegun : m'.begun callId = m.begun callId) : LaterAt m m' callId := by
  have hearly : ¬m.Late callId := fun hlate => hstage (hlate _ _ hphase)
  have hnotReady : ¬m.Ready callId := by
    rintro (hstored | hready)
    · exact hearly hstored.late
    · exact hearly hready.1
  exact {
    begun := hbegun
    stored := fun hstored => absurd hstored.late hearly
    ready := fun hready => absurd hready hnotReady
    index := fun hready => absurd hready hnotReady
    active := fun hready => absurd hready hnotReady
    doomed := fun hlate => absurd hlate hearly }

theorem storeActive (hphase : m.storing callId = some (record, .active)) :
    ((m.setActive callId record).store callId (some (record, .index))).Consistent := by
  have hcall := h.call callId
  obtain ⟨hid, hstate, -, hindex, htimer⟩ := hcall.storing _ _ hphase
  have hbegun : m.begun callId ≠ none := by
    intro hnone
    exact nomatch hphase.symm.trans (hcall.fresh hnone).1
  have hactive : ((m.setActive callId record).store callId
      (some (record, .index))).activeCalls callId = some record := update_self ..
  have hstoring : ((m.setActive callId record).store callId
      (some (record, .index))).storing callId = some (record, .index) := update_self ..
  refine h.update callId rfl rfl (fun other hother => ?_) (fun _ hsome => .inl hsome)
    (fun _ => laterAt_of_early hphase nofun rfl) ?_
  · exact ⟨update_of_ne hother .., fun _ => Iff.rfl, rfl, rfl,
      update_of_ne hother .., rfl⟩
  · exact { hcall with
      record := fun record' hrecord => by
        obtain rfl := Option.some.inj (hactive.symm.trans hrecord)
        exact ⟨hid, hbegun⟩
      fresh := fun hnone => absurd hnone hbegun
      storing := fun record' stage hsome => by
        obtain ⟨rfl, rfl⟩ := Prod.mk.inj (Option.some.inj (hstoring.symm.trans hsome))
        exact ⟨hid, hstate, ⟨record, hactive, hstate⟩, hindex, htimer⟩
      life := fun _ hlate => nomatch hlate _ _ hstoring
      handle := fun hsleeping => nomatch htimer.symm.trans hsleeping
      timer := by
        show CallManager.TimerOk _ callId (m.timers callId)
        rw [htimer]
        trivial }

theorem storeIndex (hphase : m.storing callId = some (record, .index))
    (hsome : record.providerCallId = some providerCallId) :
    ((m.setIndex providerCallId callId).store callId (some (record, .timer))).Consistent := by
  have hcall := h.call callId
  obtain ⟨hid, hstate, hactive, -, htimer⟩ := hcall.storing _ _ hphase
  have hbegun : m.begun callId = some providerCallId := hid.symm.trans hsome
  have hindexed : ((m.setIndex providerCallId callId).store callId
      (some (record, .timer))).providerIndex providerCallId = some callId := update_self ..
  have hindex : ∀ id, id ≠ providerCallId → ((m.setIndex providerCallId callId).store callId
      (some (record, .timer))).providerIndex id = m.providerIndex id :=
    fun id hne => update_of_ne hne ..
  have hstoring : ((m.setIndex providerCallId callId).store callId
      (some (record, .timer))).storing callId = some (record, .timer) := update_self ..
  refine h.update callId rfl rfl (fun other hother => ?_) (fun _ hsome => .inl hsome)
    (fun _ => laterAt_of_early hphase nofun rfl) ?_
  · refine ⟨rfl, fun id => ?_, rfl, rfl, update_of_ne hother .., rfl⟩
    by_cases heq : id = providerCallId
    · subst heq
      rw [hindexed]
      refine iff_of_false (fun hsame => hother (Option.some.inj hsame).symm) fun hold => ?_
      exact hother (h.distinct _ _ _ ((h.call other).index _ hold) hbegun)
    · rw [hindex id heq]
  · exact { hcall with
      index := fun id hsome' => by
        by_cases heq : id = providerCallId
        · exact heq ▸ hbegun
        · rw [hindex id heq] at hsome'
          exact hcall.index id hsome'
      fresh := fun hnone => nomatch hbegun.symm.trans hnone
      storing := fun record' stage hsome' => by
        obtain ⟨rfl, rfl⟩ := Prod.mk.inj (Option.some.inj (hstoring.symm.trans hsome'))
        exact ⟨hid, hstate, hactive, ⟨providerCallId, hindexed⟩, htimer⟩
      life := fun _ hlate => nomatch hlate _ _ hstoring
      handle := fun hsleeping => nomatch htimer.symm.trans hsleeping
      timer := by
        show CallManager.TimerOk _ callId (m.timers callId)
        rw [htimer]
        trivial }

theorem storeTimer (hphase : m.storing callId = some (record, .timer)) :
    ((m.setTimer callId .sleeping).store callId (some (record, .handle))).Consistent := by
  have hcall := h.call callId
  obtain ⟨hid, hstate, hactive, hindex, htimer⟩ := hcall.storing _ _ hphase
  have hbegun : m.begun callId ≠ none := by
    intro hnone
    exact nomatch hphase.symm.trans (hcall.fresh hnone).1
  have hhandle : m.timeoutHandles callId = false := by
    refine Bool.eq_false_iff.mpr fun hset => hcall.handleOf hset ?_
    rw [htimer]
    trivial
  have htimer' : ((m.setTimer callId .sleeping).store callId
      (some (record, .handle))).timers callId = .sleeping := update_self ..
  have hstoring : ((m.setTimer callId .sleeping).store callId
      (some (record, .handle))).storing callId = some (record, .handle) := update_self ..
  refine h.update callId rfl rfl (fun other hother => ?_) (fun _ hsome => .inl hsome)
    (fun _ => laterAt_of_early hphase nofun rfl) ?_
  · exact ⟨rfl, fun _ => Iff.rfl, rfl, update_of_ne hother ..,
      update_of_ne hother .., rfl⟩
  · exact { hcall with
      fresh := fun hnone => absurd hnone hbegun
      storing := fun record' stage hsome => by
        obtain ⟨rfl, rfl⟩ := Prod.mk.inj (Option.some.inj (hstoring.symm.trans hsome))
        refine ⟨hid, hstate, fun _ => hactive, hhandle, ?_⟩
        rw [htimer']
        exact id
      life := fun _ _ => .inl ⟨hindex, hactive, htimer'⟩
      handle := fun _ => .inr fun hstored => nomatch hstoring.symm.trans hstored
      handleOf := fun hset => nomatch hhandle.symm.trans hset
      timer := by
        rw [htimer']
        trivial }

theorem storeHandle (hphase : m.storing callId = some (record, .handle)) :
    ((m.setHandle callId true).store callId none).Consistent := by
  have hcall := h.call callId
  obtain ⟨hid, hstate, -, -, hset⟩ := hcall.storing _ _ hphase
  have hbegun : m.begun callId ≠ none := by
    intro hnone
    exact nomatch hphase.symm.trans (hcall.fresh hnone).1
  have hlate : m.Late callId := by
    intro record' stage hsome
    exact (Prod.mk.inj (Option.some.inj (hphase.symm.trans hsome))).2.symm
  have hhandle : ((m.setHandle callId true).store callId none).timeoutHandles callId = true :=
    update_self ..
  have hstored : ((m.setHandle callId true).store callId none).Stored callId :=
    update_self ..
  refine h.update callId rfl rfl (fun other hother => ?_) (fun _ hsome => .inl hsome)
    (fun _ => ?_) ?_
  · exact ⟨rfl, fun _ => Iff.rfl, update_of_ne hother .., rfl,
      update_of_ne hother .., rfl⟩
  · exact {
      begun := rfl
      stored := fun _ => hstored
      ready := fun _ => .inl hstored
      index := fun _ hindex => hindex
      active := fun _ hactive => hactive
      doomed := fun _ hdoomed => hdoomed }
  · exact { hcall with
      fresh := fun hnone => absurd hnone hbegun
      storing := fun record' stage hsome => nomatch hstored.symm.trans hsome
      life := fun _ _ => hcall.life hbegun hlate
      handle := fun _ => .inl hhandle
      handleOf := fun _ => hset }

/-! ## Taking a call out of the maps -/

/-- The record changes: it keeps its provider id, and ends only where the call is doomed. -/
theorem setActive {old record : CallRecord} (hactive : m.activeCalls callId = some old)
    (hid : record.providerCallId = old.providerCallId)
    (hstate : record.state.isTerminal = false ∨
      m.Ready callId ∧ m.Doomed callId) :
    (m.setActive callId record).Consistent := by
  have hcall := h.call callId
  obtain ⟨hold, hbegun⟩ := hcall.record old hactive
  have hactive' : (m.setActive callId record).activeCalls callId = some record :=
    update_self ..
  have hdoomed : m.Doomed callId → (m.setActive callId record).Doomed callId := by
    rintro (hagent | htimer | hgone)
    · exact .inl hagent
    · exact .inr (.inl htimer)
    · exact nomatch hactive.symm.trans hgone.2.1
  have hstays : record.state.isTerminal = false → (m.setActive callId record).Active callId :=
    fun hrunning => ⟨record, hactive', hrunning⟩
  refine h.update callId rfl rfl (fun other hother => ?_) (fun _ hsome => .inl hsome)
    (fun _ => ?_) ?_
  · exact ⟨update_of_ne hother .., fun _ => Iff.rfl, rfl, rfl, rfl, rfl⟩
  · exact {
      begun := rfl
      stored := fun hstored => hstored
      ready := fun hready => hready
      index := fun _ hindex => hindex
      active := fun _ hnone => nomatch hactive.symm.trans hnone
      doomed := fun _ => hdoomed }
  · exact { hcall with
      record := fun record' hrecord => by
        obtain rfl := Option.some.inj (hactive'.symm.trans hrecord)
        exact ⟨hid.trans hold, hbegun⟩
      fresh := fun hnone => absurd hnone hbegun
      storing := fun record' stage hsome => by
        obtain ⟨hid', hstate', hstage⟩ := hcall.storing record' stage hsome
        refine ⟨hid', hstate', ?_⟩
        have hearly : stage ≠ .handle → record.state.isTerminal = false := by
          intro hne
          refine hstate.resolve_right fun hready => hne ?_
          rcases hready.1 with hstored | hlate
          · exact nomatch hstored.symm.trans hsome
          · exact hlate.1 _ _ hsome
        cases stage with
        | active => exact nomatch hactive.symm.trans hstage.1
        | index | timer => exact ⟨hstays (hearly nofun), hstage.2⟩
        | handle =>
          refine ⟨fun hsleeping => ?_, hstage.2⟩
          refine hstays (hstate.resolve_right fun hready => ?_)
          rcases hready.1 with hstored | hlate
          · exact nomatch hstored.symm.trans hsome
          · exact hlate.2 hsleeping
      life := fun _ hlate => by
        rcases hstate with hrunning | hdone
        · refine (hcall.life hbegun hlate).imp (fun hlive => ?_) hdoomed
          exact ⟨hlive.1, hstays hrunning, hlive.2.2⟩
        · exact .inr (hdoomed hdone.2)
      timer := by
        have htimer := hcall.timer
        show (m.setActive callId record).TimerOk callId (m.timers callId)
        cases hphase : m.timers callId with
        | unindexing providerCallId aborted =>
          rw [hphase] at htimer
          exact ⟨htimer.1, fun haborted => nomatch hactive.symm.trans (htimer.2 haborted)⟩
        | _ =>
          rw [hphase] at htimer
          exact htimer }

theorem removeIndex (hbegun : m.begun callId = some providerCallId)
    (hready : m.Ready callId) (hending : m.Ended callId ∨ (m.timers callId).Ending) :
    (m.removeIndex providerCallId).Consistent := by
  have hcall := h.call callId
  have hnone : (m.removeIndex providerCallId).providerIndex providerCallId = none :=
    update_self ..
  have hindex : ∀ id, id ≠ providerCallId →
      (m.removeIndex providerCallId).providerIndex id = m.providerIndex id :=
    fun id hne => update_of_ne hne ..
  have hkept : ∀ id other, (m.removeIndex providerCallId).providerIndex id = some other →
      m.providerIndex id = some other := by
    intro id other hsome
    by_cases heq : id = providerCallId
    · rw [heq, hnone] at hsome
      exact nomatch hsome
    · rwa [hindex id heq] at hsome
  have hout : ¬m.Indexed callId → ¬(m.removeIndex providerCallId).Indexed callId :=
    fun hindexed ⟨id, hsome⟩ => hindexed ⟨id, hkept _ _ hsome⟩
  have hdoomed : (m.removeIndex providerCallId).Doomed callId :=
    hending.imp id .inl
  refine h.update callId rfl rfl (fun other hother => ?_) (fun _ hsome => .inl hsome)
    (fun _ => ?_) ?_
  · refine ⟨rfl, fun id => ⟨hkept id other, fun hsome => ?_⟩, rfl, rfl, rfl, rfl⟩
    rw [hindex id, hsome]
    rintro rfl
    exact hother (h.distinct _ _ _ ((h.call other).index _ hsome) hbegun)
  · exact {
      begun := rfl
      stored := fun hstored => hstored
      ready := fun hready => hready
      index := fun _ => hout
      active := fun _ hactive => hactive
      doomed := fun _ _ => hdoomed }
  · exact { hcall with
      index := fun id hsome => hcall.index id (hkept _ _ hsome)
      storing := fun record stage hsome => by
        obtain ⟨hid, hstate, hstage⟩ := hcall.storing record stage hsome
        have hlate : stage = .handle := by
          rcases hready with hstored | hlate
          · exact nomatch hstored.symm.trans hsome
          · exact hlate.1 _ _ hsome
        subst hlate
        exact ⟨hid, hstate, hstage⟩
      life := fun _ _ => .inr hdoomed
      timer := by
        have htimer := hcall.timer
        show (m.removeIndex providerCallId).TimerOk callId (m.timers callId)
        cases hphase : m.timers callId with
        | hangingUp =>
          rw [hphase] at htimer
          exact hout htimer
        | removing =>
          rw [hphase] at htimer
          exact htimer.imp_left hout
        | _ =>
          rw [hphase] at htimer
          exact htimer }

omit h in
/-- The index has no other entry of the call. -/
theorem not_indexed_removeIndex {providerCallId : String} (hcall : m.CallOk callId)
    (hbegun : m.begun callId = some providerCallId) :
    ¬(m.removeIndex providerCallId).Indexed callId := by
  rintro ⟨id, hsome⟩
  by_cases heq : id = providerCallId
  · have hnone : (m.removeIndex providerCallId).providerIndex id = none := by
      rw [heq]
      exact update_self ..
    exact nomatch hnone.symm.trans hsome
  · have hold : m.providerIndex id = some callId :=
      (update_of_ne heq ..).symm.trans hsome
    exact heq (Option.some.inj ((hcall.index id hold).symm.trans hbegun))

theorem removeActive (hready : m.Ready callId)
    (hending : m.Ended callId ∨ (m.timers callId).Ending) :
    (m.removeActive callId).Consistent := by
  have hcall := h.call callId
  have hnone : (m.removeActive callId).activeCalls callId = none := update_self ..
  have hdoomed : (m.removeActive callId).Doomed callId := hending.imp id .inl
  refine h.update callId rfl rfl (fun other hother => ?_) (fun _ hsome => .inl hsome)
    (fun _ => ?_) ?_
  · exact ⟨update_of_ne hother .., fun _ => Iff.rfl, rfl, rfl, rfl, rfl⟩
  · exact {
      begun := rfl
      stored := fun hstored => hstored
      ready := fun hready => hready
      index := fun _ hindex => hindex
      active := fun _ _ => hnone
      doomed := fun _ _ => hdoomed }
  · exact { hcall with
      record := fun record hsome => nomatch hnone.symm.trans hsome
      storing := fun record stage hsome => by
        obtain ⟨hid, hstate, hstage⟩ := hcall.storing record stage hsome
        rcases hready with hstored | hlate
        · exact nomatch hstored.symm.trans hsome
        · obtain rfl := hlate.1 _ _ hsome
          exact ⟨hid, hstate, fun hsleeping => absurd hsleeping hlate.2, hstage.2⟩
      life := fun _ _ => .inr hdoomed
      timer := by
        have htimer := hcall.timer
        show (m.removeActive callId).TimerOk callId (m.timers callId)
        cases hphase : m.timers callId with
        | unindexing providerCallId stop =>
          rw [hphase] at htimer
          exact ⟨htimer.1, fun _ => hnone⟩
        | _ =>
          rw [hphase] at htimer
          exact htimer }

theorem setTimer {timer : Timer} (hset : m.timers callId ≠ .absent)
    (hnotSleeping : timer ≠ .sleeping)
    (hdone : timer.Ending ∨ m.Ended callId ∨
      ¬m.Indexed callId ∧ m.activeCalls callId = none)
    (hunset : timer.Unset → m.timeoutHandles callId = false ∧ m.Stored callId)
    (htimer : m.TimerOk callId timer) : (m.setTimer callId timer).Consistent := by
  have hcall := h.call callId
  have hself : (m.setTimer callId timer).timers callId = timer := update_self ..
  have hbegun : m.begun callId ≠ none := fun hnone => hset (hcall.fresh hnone).2
  have hdoomed : (m.setTimer callId timer).Doomed callId := by
    rcases hdone with hending | hagent | hgone
    · refine .inr (.inl ?_)
      rw [hself]
      exact hending
    · exact .inl hagent
    · refine .inr (.inr ⟨hgone.1, hgone.2, ?_⟩)
      rw [hself]
      exact hnotSleeping
  refine h.update callId rfl rfl (fun other hother => ?_) (fun _ hsome => .inl hsome)
    (fun _ => ?_) ?_
  · exact ⟨rfl, fun _ => Iff.rfl, rfl, update_of_ne hother .., rfl, rfl⟩
  · exact {
      begun := rfl
      stored := fun hstored => hstored
      ready := fun hready => hready.imp_right fun hlate => ⟨hlate.1, by rwa [hself]⟩
      index := fun _ hindex => hindex
      active := fun _ hactive => hactive
      doomed := fun _ _ => hdoomed }
  · exact { hcall with
      fresh := fun hnone => absurd hnone hbegun
      storing := fun record stage hsome => by
        obtain ⟨hid, hstate, hstage⟩ := hcall.storing record stage hsome
        refine ⟨hid, hstate, ?_⟩
        cases stage with
        | active | index | timer => exact absurd hstage.2.2 hset
        | handle =>
          refine ⟨fun hsleeping => absurd (hself.symm.trans hsleeping) hnotSleeping,
            hstage.2.1, ?_⟩
          rw [hself]
          exact fun hnone => nomatch (hunset hnone).2.symm.trans hsome
      life := fun _ _ => .inr hdoomed
      handle := fun hsleeping => absurd (hself.symm.trans hsleeping) hnotSleeping
      handleOf := fun hhandle => by
        rw [hself]
        exact fun hnone => nomatch hhandle.symm.trans (hunset hnone).1
      timer := by
        rw [hself]
        cases timer with
        | _ => exact htimer }

theorem cancelTimeout (hbegun : m.begun callId ≠ none) (hready : m.Ready callId)
    (hindex : ¬m.Indexed callId) (hactive : m.activeCalls callId = none) :
    (m.cancelTimeout callId).Consistent ∧ (m.cancelTimeout callId).Gone callId := by
  have hcall := h.call callId
  by_cases hhandle : m.timeoutHandles callId = true
  · rw [CallManager.cancelTimeout, if_pos hhandle]
    generalize hm' : (m.setHandle callId false).setTimer callId (m.timers callId).abort = m'
    have htimer' : m'.timers callId = (m.timers callId).abort := by
      rw [← hm']
      exact update_self ..
    have hhandle' : m'.timeoutHandles callId = false := by
      rw [← hm']
      exact update_self ..
    have hset := hcall.handleOf hhandle
    have hnotSleeping : m'.timers callId ≠ .sleeping := by
      rw [htimer']
      cases m.timers callId <;> nofun
    have hstored : m.Stored callId := by
      rcases hready with hstored | hlate
      · exact hstored
      · cases hphase : m.storing callId with
        | none => exact hphase
        | some stored =>
          obtain ⟨record, stage⟩ := stored
          obtain ⟨-, -, hstage⟩ := hcall.storing record stage hphase
          obtain rfl := hlate.1 _ _ hphase
          exact nomatch hhandle.symm.trans hstage.2.1
    have hgone : m'.Gone callId := by
      refine ⟨?_, ?_, hnotSleeping⟩
      · rw [← hm']
        exact hindex
      · rw [← hm']
        exact hactive
    refine ⟨h.update callId (by rw [← hm']; rfl) (by rw [← hm']; rfl)
      (fun other hother => ?_) (fun _ hsome => ?_) (fun _ => ?_) ?_, hgone⟩
    · rw [← hm']
      exact ⟨rfl, fun _ => Iff.rfl, update_of_ne hother ..,
        update_of_ne hother .., rfl, rfl⟩
    · rw [← hm'] at hsome
      exact .inl hsome
    · exact {
        begun := by rw [← hm']; rfl
        stored := fun hstored => by rw [← hm']; exact hstored
        ready := fun _ => .inl (by rw [← hm']; exact hstored)
        index := fun _ _ => hgone.1
        active := fun _ _ => hgone.2.1
        doomed := fun _ _ => .inr (.inr hgone) }
    · exact {
        record := fun record hsome => nomatch hgone.2.1.symm.trans hsome
        index := fun id hsome => absurd ⟨id, hsome⟩ hgone.1
        fresh := fun hnone => by
          rw [← hm'] at hnone
          exact absurd hnone hbegun
        storing := fun record stage hsome => by
          rw [← hm'] at hsome
          exact nomatch hstored.symm.trans hsome
        life := fun _ _ => .inr (.inr (.inr hgone))
        handle := fun hsleeping => absurd hsleeping hnotSleeping
        handleOf := fun hsome => nomatch hhandle'.symm.trans hsome
        timer := by
          have htimer := hcall.timer
          rw [htimer']
          cases hphase : m.timers callId with
          | unindexing providerCallId stop =>
            rw [hphase] at htimer
            refine ⟨?_, fun _ => hgone.2.1⟩
            rw [← hm']
            exact htimer.1
          | removing => exact .inl hgone.1
          | absent | sleeping | hangingUp | finished | aborted => trivial }
  · rw [CallManager.cancelTimeout, if_neg hhandle]
    refine ⟨h, hindex, hactive, fun hsleeping => ?_⟩
    rcases hready with hstored | hlate
    · exact (hcall.handle hsleeping).elim hhandle fun hnot => hnot hstored
    · exact hlate.2 hsleeping

theorem report {event : CallEvent} (hphase : m.threads tid = .looking event) :
    (m.report event).Consistent := by
  refine ⟨h.distinct, fun callId => ?_, h.thread, fun providerCallId hmem => ?_⟩
  · have hcall := h.call callId
    exact ⟨hcall.record, hcall.index, hcall.fresh, hcall.storing, hcall.life, hcall.handle,
      hcall.handleOf, hcall.timer⟩
  · rw [CallManager.report] at hmem
    dsimp only at hmem
    split at hmem
    · rename_i hends
      rcases List.mem_cons.mp hmem with rfl | hold
      · exact .inl ⟨tid, event, hphase, hends, rfl⟩
      · exact h.ended _ hold
    · exact h.ended _ hmem

/-! ## The steps -/

theorem moveFree (hends : ∀ callId, ¬(m.threads tid).Ends callId)
    (hlook : ∀ event, m.threads tid ≠ .looking event)
    (hhandle : ∀ event callId, m.threads tid ≠ .handling event callId)
    (hthread : m.ThreadOk thread) : (m.move tid thread).Consistent :=
  h.move hthread (fun callId hold => absurd hold (hends callId))
    (fun event hphase => absurd hphase (hlook event))
    (fun event callId hphase => absurd hphase (hhandle event callId))

theorem late_of_timer (htimer : m.timers callId ≠ .absent) : m.Late callId := by
  intro record stage hphase
  obtain ⟨-, -, hstage⟩ := (h.call callId).storing record stage hphase
  cases stage with
  | active | index | timer => exact absurd hstage.2.2 htimer
  | handle => rfl

/-- A call whose timer has woken up can be taken out of the maps. -/
theorem ready_of_ending (hending : (m.timers callId).Ending) : m.Ready callId := by
  have hne : ∀ timer : Timer, ¬timer.Ending → m.timers callId ≠ timer := by
    rintro timer hnot rfl
    exact hnot hending
  exact .inr ⟨h.late_of_timer (hne _ id), hne _ id⟩

/-- A call that is over can be taken out of the maps. -/
theorem ready_of_terminal (hactive : m.activeCalls callId = some record)
    (hstate : record.state.isTerminal = true) : m.Ready callId := by
  have hnot : ¬m.Active callId := by
    rintro ⟨record', hsome, hrunning⟩
    obtain rfl := Option.some.inj (hactive.symm.trans hsome)
    exact nomatch hstate.symm.trans hrunning
  cases hphase : m.storing callId with
  | none => exact .inl hphase
  | some stored =>
    obtain ⟨record', stage⟩ := stored
    obtain ⟨-, -, hstage⟩ := (h.call callId).storing record' stage hphase
    cases stage with
    | active => exact nomatch hactive.symm.trans hstage.1
    | index | timer => exact absurd hstage.1 hnot
    | handle =>
      refine .inr ⟨fun record' stage' hsome => ?_, fun hsleeping => hnot (hstage.1 hsleeping)⟩
      exact (Prod.mk.inj (Option.some.inj (hphase.symm.trans hsome))).2.symm

theorem handled {event : CallEvent} (hphase : m.threads tid = .handling event callId) :
    (m.handled tid event callId).Consistent := by
  have hthread := h.thread tid
  rw [hphase] at hthread
  obtain ⟨hbegun, hstored⟩ := hthread
  have hnotEnds : ∀ other, ¬(m.threads tid).Ends other := by
    rw [hphase]
    exact fun _ hends => hends
  have hnotLooking : ∀ event, m.threads tid ≠ .looking event := by
    rw [hphase]
    nofun
  rw [CallManager.handled]
  cases hactive : m.activeCalls callId with
  | none =>
    refine h.move trivial (fun other hends => absurd hends (hnotEnds other))
      (fun event' hlooking => absurd hlooking (hnotLooking event'))
      fun event' other heq hends => ?_
    obtain ⟨rfl, rfl⟩ := CallThread.handling.inj (hphase.symm.trans heq)
    refine .inr (((h.call callId).life hbegun (hstored hends).late).resolve_left ?_)
    rintro ⟨-, ⟨record, hsome, -⟩, -⟩
    exact nomatch hactive.symm.trans hsome
  | some record =>
    dsimp only
    obtain ⟨hid, -⟩ := (h.call callId).record record hactive
    by_cases hterminal : (record.handle event).state.isTerminal = true
    · rw [if_pos hterminal]
      have hready : m.Ready callId := by
        by_cases hends : event.ends = true
        · exact .inl (hstored hends)
        · refine h.ready_of_terminal hactive (Bool.not_eq_false _ ▸ fun hrunning => ?_)
          exact nomatch hterminal.symm.trans
            (record.isTerminal_handle (Bool.eq_false_iff.mpr hends) hrunning)
      have hmove : (m.move tid (.unindexing callId record.providerCallId)).Consistent := by
        refine h.move ⟨hid.symm, hid ▸ hbegun, hready⟩
          (fun other hends => absurd hends (hnotEnds other))
          (fun event' hlooking => absurd hlooking (hnotLooking event'))
          fun event' other heq _ => ?_
        obtain ⟨-, rfl⟩ := CallThread.handling.inj (hphase.symm.trans heq)
        exact .inl rfl
      have hended : (m.move tid (.unindexing callId record.providerCallId)).Ended callId :=
        ended_move rfl
      exact hmove.setActive hactive (record.providerCallId_handle event)
        (.inr ⟨hready, .inl hended⟩)
    · rw [if_neg hterminal]
      have hset := h.setActive hactive (record.providerCallId_handle event)
        (.inl (Bool.eq_false_iff.mpr hterminal))
      refine hset.move trivial (fun other hends => absurd hends (hnotEnds other))
        (fun event' hlooking => absurd hlooking (hnotLooking event'))
        fun event' other heq hends => ?_
      obtain ⟨rfl, -⟩ := CallThread.handling.inj (hphase.symm.trans heq)
      exact absurd (record.isTerminal_handle_of_ends hends) hterminal

theorem looked {event : CallEvent} (hphase : m.threads tid = .looking event)
    (hstored : event.ends = true → ∀ callId, m.begun callId = some event.providerCallId →
      m.Stored callId) : (m.move tid (m.looked event)).Consistent := by
  have hnotEnds : ∀ other, ¬(m.threads tid).Ends other := by
    rw [hphase]
    exact fun _ hends => hends
  have hnotHandling : ∀ event callId, m.threads tid ≠ .handling event callId := by
    rw [hphase]
    nofun
  rw [CallManager.looked]
  cases hindex : m.providerIndex event.providerCallId with
  | none =>
    refine h.move trivial (fun other hends => absurd hends (hnotEnds other))
      (fun event' heq hends callId hbegun => ?_)
      (fun event' callId heq => absurd heq (hnotHandling event' callId))
    obtain rfl := CallThread.looking.inj (hphase.symm.trans heq)
    have hcall := h.call callId
    have hdone := hstored hends callId hbegun
    refine ⟨hdone, .inr ((hcall.life (by rw [hbegun]; nofun) hdone.late).resolve_left ?_)⟩
    rintro ⟨⟨id, hsome⟩, -⟩
    obtain rfl := Option.some.inj ((hcall.index id hsome).symm.trans hbegun)
    exact nomatch hindex.symm.trans hsome
  | some callId =>
    have hbegun := (h.call callId).index _ hindex
    refine h.move ⟨by rw [hbegun]; nofun, fun hends => hstored hends callId hbegun⟩
      (fun other hends => absurd hends (hnotEnds other))
      (fun event' heq hends callId' hbegun' => ?_)
      (fun event' callId heq => absurd heq (hnotHandling event' callId))
    obtain rfl := CallThread.looking.inj (hphase.symm.trans heq)
    obtain rfl := h.distinct _ _ _ hbegun hbegun'
    exact ⟨hstored hends callId hbegun, .inl rfl⟩

theorem hungUp (hphase : m.threads tid = .hangingUp callId providerCallId) :
    ((m.hungUp callId).move tid (.unindexing callId (some providerCallId))).Consistent := by
  have hthread := h.thread tid
  rw [hphase] at hthread
  obtain ⟨hbegun, hstored⟩ := hthread
  have hmove : (m.move tid (.unindexing callId (some providerCallId))).Consistent := by
    refine h.moveFree ?_ ?_ ?_ ⟨hbegun, nofun, .inl hstored⟩
    · rw [hphase]
      exact fun _ hends => hends
    · rw [hphase]
      nofun
    · rw [hphase]
      nofun
  rw [CallManager.hungUp]
  cases hactive : m.activeCalls callId with
  | none => exact hmove
  | some record =>
    exact hmove.setActive hactive (record.providerCallId_finish .hangupBot)
      (.inr ⟨.inl hstored, .inl (ended_move rfl)⟩)

theorem unindexed {id : Option String} (hphase : m.threads tid = .unindexing callId id) :
    ((id.elim m m.removeIndex).move tid (.removing callId)).Consistent := by
  have hthread := h.thread tid
  rw [hphase] at hthread
  obtain ⟨hbegun, hsome, hready⟩ := hthread
  obtain ⟨providerCallId, rfl⟩ := Option.ne_none_iff_exists'.mp hsome
  have hagent : m.Ended callId := ⟨tid, by rw [hphase]; rfl⟩
  have hremoved := h.removeIndex hbegun hready (.inl hagent)
  refine hremoved.move ⟨hbegun ▸ hsome, hready, not_indexed_removeIndex (h.call callId) hbegun⟩
    (fun other hends => .inl ?_)
    (fun event hlooking => nomatch hphase.symm.trans hlooking)
    (fun event other hhandling => nomatch hphase.symm.trans hhandling)
  have hends' : (m.threads tid).Ends other := hends
  rwa [hphase] at hends'

theorem timerUnindexed {stop : Bool} (hphase : m.timers callId = .unindexing providerCallId stop) :
    (m.removeIndex providerCallId).Consistent ∧
      (m.removeIndex providerCallId).timers callId ≠ .absent ∧
      ¬(m.removeIndex providerCallId).Indexed callId := by
  have hok := (h.call callId).timer
  have hending : (m.timers callId).Ending := by
    rw [hphase]
    trivial
  rw [hphase] at hok
  refine ⟨h.removeIndex hok.1 (h.ready_of_ending hending) (.inr hending), ?_,
    not_indexed_removeIndex (h.call callId) hok.1⟩
  show m.timers callId ≠ .absent
  rw [hphase]
  nofun

theorem fired (hphase : m.timers callId = .sleeping) : (m.fired callId).Consistent := by
  have hcall := h.call callId
  have hset : m.timers callId ≠ .absent := by
    rw [hphase]
    nofun
  have hlate := h.late_of_timer hset
  have hbegun : m.begun callId ≠ none := fun hnone => hset (hcall.fresh hnone).2
  -- Where the timer finds no running call, a thread takes the call out of the maps.
  have hremoving : ¬m.Active callId → (m.setTimer callId .removing).Consistent := by
    intro hnot
    refine h.setTimer hset nofun (.inl trivial) (fun hunset => hunset.elim) (.inr ?_)
    rcases hcall.life hbegun hlate with hlive | hagent | hending | hgone
    · exact absurd hlive.2.1 hnot
    · exact hagent
    · rw [hphase] at hending
      exact hending.elim
    · exact absurd hphase hgone.2.2
  rw [CallManager.fired]
  cases hactive : m.activeCalls callId with
  | none =>
    refine hremoving ?_
    rintro ⟨record, hsome, -⟩
    exact nomatch hactive.symm.trans hsome
  | some record =>
    dsimp only
    split
    · rename_i hterminal
      refine hremoving ?_
      rintro ⟨record', hsome, hrunning⟩
      obtain rfl := Option.some.inj (hactive.symm.trans hsome)
      exact nomatch hterminal.symm.trans hrunning
    · obtain ⟨hid, -⟩ := hcall.record record hactive
      obtain ⟨providerCallId, hsome⟩ := Option.ne_none_iff_exists'.mp (hid ▸ hbegun)
      rw [hsome]
      have htimer : (m.setTimer callId (.unindexing providerCallId false)).timers callId =
          .unindexing providerCallId false := update_self ..
      have htimed : (m.setTimer callId (.unindexing providerCallId false)).Consistent :=
        h.setTimer hset nofun (.inl trivial) (fun hunset => nomatch hunset)
          ⟨hid.symm.trans hsome, nofun⟩
      refine htimed.setActive hactive (record.providerCallId_finish .timeout) (.inr ⟨?_, ?_⟩)
      · refine .inr ⟨hlate, ?_⟩
        rw [htimer]
        nofun
      · refine .inr (.inl ?_)
        rw [htimer]
        trivial

theorem step {m' : CallManager} {act : CallAct} (hstep : CallStep m act m')
    (hkeeps : m.Keeps act) : m'.Consistent := by
  have hthread : ∀ {tid thread}, m.threads tid = thread → m.ThreadOk thread := by
    rintro tid _ rfl
    exact h.thread tid
  -- Most threads take no call out of the maps and look up no end.
  have hfree : ∀ {m₁ : CallManager} {tid thread thread'}, m₁.Consistent →
      m₁.threads tid = thread → (∀ callId, ¬thread.Ends callId) →
      (∀ event, thread ≠ .looking event) → (∀ event callId, thread ≠ .handling event callId) →
      m₁.ThreadOk thread' → (m₁.move tid thread').Consistent := by
    rintro m₁ tid _ thread' hm₁ rfl hends hlook hhandle hok
    exact hm₁.moveFree hends hlook hhandle hok
  cases hstep with
  | initiate _ _ hidle | answer _ hidle => exact hfree h hidle (fun _ => id) nofun nofun trivial
  | refused hphase | rejected hphase | hangupFailed hphase =>
    exact hfree h hphase (fun _ => id) nofun nofun trivial
  | assigned callId providerCallId hphase hnew hdistinct =>
    exact hfree (h.beginCall rfl rfl hnew hdistinct) hphase (fun _ => id) nofun nofun trivial
  | storeActive hphase => exact h.storeActive hphase
  | storeIndex hphase hid => exact h.storeIndex hphase hid
  | storeTimer hphase => exact h.storeTimer hphase
  | storeHandle hphase => exact h.storeHandle hphase
  | resolve hphase =>
    refine hfree h hphase (fun _ => id) nofun nofun ?_
    rw [resolved]
    split <;> trivial
  | get hphase =>
    refine hfree h hphase (fun _ => id) nofun nofun ?_
    rw [got]
    split <;> trivial
  | register callId hphase hid hnew =>
    exact hfree (h.beginCall rfl rfl hnew (hkeeps _ hphase)) hphase (fun _ => id) nofun nofun
      trivial
  | @event tid event hidle =>
    have hmove : (m.move tid (.looking event)).Consistent :=
      hfree h hidle (fun _ => id) nofun nofun trivial
    exact hmove.report threads_move_self
  | look hphase => exact h.looked hphase (hkeeps _ hphase)
  | handle hphase => exact h.handled hphase
  | hangup callId hidle =>
    refine hfree h hidle (fun _ => id) nofun nofun ?_
    rw [hangupChecked]
    split
    · trivial
    · rename_i record hactive
      split
      · trivial
      · rename_i providerCallId hid
        split
        · trivial
        · exact ⟨((h.call callId).record record hactive).1.symm.trans hid, hkeeps⟩
  | hungUp hphase => exact h.hungUp hphase
  | unindex hphase => exact h.unindexed hphase
  | @remove tid callId hphase =>
    obtain ⟨hbegun, hready, hindex⟩ := hthread hphase
    have hagent : m.Ended callId := ⟨tid, by rw [hphase]; rfl⟩
    have hremoved := h.removeActive hready (.inl hagent)
    refine @move _ _ tid hremoved ⟨hbegun, hready, hindex, update_self ..⟩
      (fun other hends => .inl ?_)
      (fun event hlooking => nomatch hphase.symm.trans hlooking)
      (fun event other hhandling => nomatch hphase.symm.trans hhandling)
    have hends' : (m.threads tid).Ends other := hends
    rwa [hphase] at hends'
  | @cancel tid callId hphase =>
    obtain ⟨hbegun, hready, hindex, hactive⟩ := hthread hphase
    obtain ⟨hcancelled, hgone⟩ := h.cancelTimeout hbegun hready hindex hactive
    have hphase' : (m.cancelTimeout callId).threads tid = .cancelling callId := by
      rw [CallManager.cancelTimeout]
      split <;> exact hphase
    refine hcancelled.move trivial (fun other hends => .inr ?_)
      (fun event hlooking => nomatch hphase'.symm.trans hlooking)
      (fun event other hhandling => nomatch hphase'.symm.trans hhandling)
    rw [hphase'] at hends
    exact hends ▸ hgone
  | fire hphase => exact h.fired hphase
  | timerUnindex hphase =>
    obtain ⟨hremoved, htimer, hindex⟩ := h.timerUnindexed hphase
    exact hremoved.setTimer htimer nofun (.inl trivial) (fun hunset => hunset.elim) hindex
  | @timerStopped callId providerCallId hphase =>
    obtain ⟨hremoved, htimer, hindex⟩ := h.timerUnindexed hphase
    have hcall := h.call callId
    have hunset : (m.timers callId).Unset := by
      rw [hphase]
      rfl
    refine hremoved.setTimer htimer nofun (.inr (.inr ⟨hindex, ?_⟩)) (fun _ => ⟨?_, ?_⟩) trivial
    · have hok := hcall.timer
      rw [hphase] at hok
      exact hok.2 rfl
    · exact Bool.eq_false_iff.mpr fun hhandle => hcall.handleOf hhandle hunset
    · show m.storing callId = none
      cases hstoring : m.storing callId with
      | none => rfl
      | some stored =>
        obtain ⟨record, stage⟩ := stored
        obtain ⟨-, -, hstage⟩ := hcall.storing record stage hstoring
        obtain rfl := h.late_of_timer htimer record stage hstoring
        exact absurd hunset hstage.2.2
  | @timerHungUp callId hphase =>
    have hok := (h.call callId).timer
    rw [hphase] at hok
    refine h.setTimer ?_ nofun (.inl trivial) (fun hunset => hunset.elim) (.inl hok)
    rw [hphase]
    nofun
  | @timerRemove callId hphase =>
    have hok := (h.call callId).timer
    have hending : (m.timers callId).Ending := by
      rw [hphase]
      trivial
    rw [hphase] at hok
    have hremoved := h.removeActive (h.ready_of_ending hending) (.inr hending)
    refine hremoved.setTimer ?_ nofun (.inr ?_) (fun hunset => hunset.elim) trivial
    · show m.timers callId ≠ .absent
      rw [hphase]
      nofun
    · rcases hok with hindex | hagent
      · exact .inr ⟨hindex, update_self ..⟩
      · exact .inl hagent

end Consistent

theorem consistent_new : new.Consistent where
  distinct _ _ _ hbegun := nomatch hbegun
  call _ :=
    { record := fun _ hrecord => nomatch hrecord
      index := fun _ hindex => nomatch hindex
      fresh := fun _ => ⟨rfl, rfl⟩
      storing := fun _ _ hstoring => nomatch hstoring
      life := fun hbegun => absurd rfl hbegun
      handle := fun hsleeping => nomatch hsleeping
      handleOf := fun hhandle => nomatch hhandle
      timer := trivial }
  thread _ := trivial
  ended _ hmem := nomatch hmem

/-! ## What holds of every run -/

/-- Nothing is under way for the call. -/
def Settled (m : CallManager) (callId : CallId) : Prop :=
  m.Stored callId ∧ ¬m.Ended callId ∧ ¬(m.timers callId).Ending

/-- A report of the end of the call is under way. -/
def Ending (m : CallManager) (providerCallId : String) (callId : CallId) : Prop :=
  ∃ tid event, event.ends = true ∧
    (m.threads tid = .looking event ∧ event.providerCallId = providerCallId ∨
      m.threads tid = .handling event callId)

/-- The maps agree on the calls for which nothing is under way. -/
structure Tracked (m : CallManager) : Prop where
  indexed : ∀ providerCallId callId, m.providerIndex providerCallId = some callId →
    m.Settled callId → ∃ record, m.activeCalls callId = some record ∧
      record.providerCallId = some providerCallId ∧ record.state.isTerminal = false
  found : ∀ callId record, m.activeCalls callId = some record → m.Settled callId →
    record.state.isTerminal = false ∧ ∃ providerCallId,
      record.providerCallId = some providerCallId ∧
        m.providerIndex providerCallId = some callId
  once : ∀ callId other record record', m.activeCalls callId = some record →
    m.activeCalls other = some record' → record.providerCallId = record'.providerCallId →
    callId = other
  ended : ∀ providerCallId ∈ m.ended, ∀ callId record, m.activeCalls callId = some record →
    record.providerCallId = some providerCallId → m.Settled callId →
    m.Ending providerCallId callId
  timer : ∀ callId, m.Settled callId →
    (m.timers callId = .sleeping ↔ m.activeCalls callId ≠ none)
  /-- The handle of a timer that has fired stays. -/
  handle : ∀ callId, m.Settled callId →
    (m.activeCalls callId ≠ none → m.timeoutHandles callId = true) ∧
    (m.timeoutHandles callId = true → m.activeCalls callId ≠ none ∨
      m.timers callId = .finished)

namespace Consistent

variable (h : m.Consistent)
include h

theorem live_or_gone (hsettled : m.Settled callId) : m.Live callId ∨ m.Gone callId := by
  obtain ⟨hstored, hthread, htimer⟩ := hsettled
  by_cases hbegun : m.begun callId = none
  · refine .inr ⟨h.not_indexed_of_fresh hbegun, h.inactive_of_fresh hbegun, ?_⟩
    rw [((h.call callId).fresh hbegun).2]
    nofun
  · rcases (h.call callId).life hbegun hstored.late with hlive | hagent | hending | hgone
    · exact .inl hlive
    · exact absurd hagent hthread
    · exact absurd hending htimer
    · exact .inr hgone

theorem tracked : m.Tracked where
  indexed := by
    intro providerCallId callId hindex hsettled
    rcases h.live_or_gone hsettled with ⟨-, ⟨record, hactive, hstate⟩, -⟩ | hgone
    · refine ⟨record, hactive, ?_, hstate⟩
      rw [((h.call callId).record record hactive).1]
      exact (h.call callId).index _ hindex
    · exact absurd ⟨_, hindex⟩ hgone.1
  found := by
    intro callId record hactive hsettled
    rcases h.live_or_gone hsettled with
      ⟨⟨providerCallId, hindex⟩, ⟨record', hsome, hstate⟩, -⟩ | hgone
    · obtain rfl := Option.some.inj (hactive.symm.trans hsome)
      refine ⟨hstate, providerCallId, ?_, hindex⟩
      rw [((h.call callId).record record hactive).1]
      exact (h.call callId).index _ hindex
    · exact nomatch hactive.symm.trans hgone.2.1
  once := by
    intro callId other record record' hactive hother hsame
    obtain ⟨hid, hbegun⟩ := (h.call callId).record record hactive
    obtain ⟨hid', -⟩ := (h.call other).record record' hother
    obtain ⟨providerCallId, hsome⟩ := Option.ne_none_iff_exists'.mp hbegun
    exact h.distinct _ _ _ hsome ((hid'.symm.trans (hsame.symm.trans hid)).trans hsome)
  ended := by
    intro providerCallId hmem callId record hactive hid hsettled
    rcases h.ended providerCallId hmem with ⟨tid, event, hphase, hends, hsame⟩ | hall
    · exact ⟨tid, event, hends, .inl ⟨hphase, hsame⟩⟩
    · have hbegun := ((h.call callId).record record hactive).1.symm.trans hid
      rcases (hall callId hbegun).2 with ⟨tid, event, hphase, hends⟩ | hdoomed
      · exact ⟨tid, event, hends, .inr hphase⟩
      · rcases hdoomed with hagent | hending | hgone
        · exact absurd hagent hsettled.2.1
        · exact absurd hending hsettled.2.2
        · exact nomatch hactive.symm.trans hgone.2.1
  timer := by
    intro callId hsettled
    rcases h.live_or_gone hsettled with ⟨-, ⟨record, hactive, -⟩, hsleeping⟩ | hgone
    · refine iff_of_true hsleeping ?_
      rw [hactive]
      nofun
    · exact iff_of_false hgone.2.2 (not_not.mpr hgone.2.1)
  handle := by
    intro callId hsettled
    have hcall := h.call callId
    rcases h.live_or_gone hsettled with ⟨-, ⟨_, hactive, -⟩, hsleeping⟩ | hgone
    · refine ⟨fun _ => ?_, fun _ => .inl ?_⟩
      · exact (hcall.handle hsleeping).resolve_right (not_not.mpr hsettled.1)
      · rw [hactive]
        nofun
    · refine ⟨fun hactive => absurd hgone.2.1 hactive, fun hhandle => .inr ?_⟩
      have hset := hcall.handleOf hhandle
      have hending := hsettled.2.2
      have hsleeping := hgone.2.2
      cases hphase : m.timers callId with
      | finished => rfl
      | sleeping => exact absurd hphase hsleeping
      | absent | aborted =>
        rw [hphase] at hset
        exact (hset trivial).elim
      | unindexing | hangingUp | removing =>
        rw [hphase] at hending
        exact (hending trivial).elim

end Consistent

/-- A step at which no unfinished call ends or is hung up, and none is registered twice. -/
def KeptStep (m : CallManager) (act : CallAct) (m' : CallManager) : Prop :=
  CallStep m act m' ∧ m.Keeps act

/-- **Calls are tracked once**: as long as a call ends only once it is stored, and is registered
only once, the maps agree on it whenever nothing is under way for it. -/
theorem calls_tracked {acts : List CallAct} {m : CallManager} (hrun : Run KeptStep new acts m) :
    m.Tracked := by
  have hconsistent : m.Consistent :=
    hrun.invariant (fun _ _ _ h hstep => h.step hstep.1 hstep.2) consistent_new
  exact hconsistent.tracked

theorem calls_tracked_ended : ∃ m, Run KeptStep new
    [.thread 0, .thread 0, .store "call", .store "call", .store "call", .store "call", .thread 0,
      .look 0, .thread 0, .thread 0, .thread 0, .thread 0] m ∧ m.ended = ["id"] ∧
    m.Tracked := by
  have hrun : ∃ m, Run KeptStep new
      [.thread 0, .thread 0, .store "call", .store "call", .store "call", .store "call", .thread 0,
        .look 0, .thread 0, .thread 0, .thread 0, .thread 0] m ∧ m.ended = ["id"] := by
    refine ⟨_, .cons ⟨.initiate .notify none rfl, trivial⟩ <|
      .cons ⟨.assigned "call" "id" rfl rfl ⟨nofun, nofun⟩, trivial⟩ <|
      .cons ⟨.storeActive rfl, trivial⟩ <| .cons ⟨.storeIndex rfl rfl, trivial⟩ <|
      .cons ⟨.storeTimer rfl, trivial⟩ <| .cons ⟨.storeHandle rfl, trivial⟩ <|
      .cons ⟨.event (.ended "id" .completed) rfl, trivial⟩ <|
      .cons ⟨.look rfl, ?_⟩ <| .cons ⟨.handle rfl, trivial⟩ <| .cons ⟨.unindex rfl, trivial⟩ <|
      .cons ⟨.remove rfl, trivial⟩ <| .cons ⟨.cancel rfl, trivial⟩ <| .nil _, rfl⟩
    intro event _ _ callId _
    by_cases hcall : callId = "call"
    · subst hcall
      rfl
    · simp [Stored, move, report, store, setHandle, setTimer, setIndex, setActive, beginCall, new]
  obtain ⟨m, hrun, hended⟩ := hrun
  exact ⟨m, hrun, hended, calls_tracked hrun⟩

theorem end_overtakes : ¬∀ (acts : List CallAct) (m : CallManager), Run CallStep new acts m →
    m.Tracked := by
  intro h
  have hrun : ∃ m, Run CallStep new
      [.thread 0, .thread 0, .thread 0, .look 0, .store "call", .store "call", .store "call",
        .store "call"] m ∧ m.ended = ["id"] ∧ (∃ record, m.activeCalls "call" = some record ∧
        record.providerCallId = some "id") ∧ m.storing "call" = none ∧
        m.timers "call" = .sleeping ∧ m.threads 0 = .idle ∧
        ∀ tid, tid ≠ 0 → m.threads tid = .idle :=
    ⟨_, .cons (.initiate .notify none rfl) <|
      .cons (.assigned "call" "id" rfl rfl ⟨nofun, nofun⟩) <|
      .cons (.event (.ended "id" .completed) rfl) <| .cons (.look rfl) <|
      .cons (.storeActive rfl) <| .cons (.storeIndex rfl rfl) <| .cons (.storeTimer rfl) <|
      .cons (.storeHandle rfl) <| .nil _, rfl, ⟨_, rfl, rfl⟩, rfl, rfl, rfl, fun tid htid => by
        simp [move, report, store, setHandle, setTimer, setIndex, setActive, beginCall, new,
          Function.update_of_ne htid]⟩
  obtain ⟨m, hrun, hended, ⟨record, hactive, hid⟩, hstored, htimer, hidle, hothers⟩ := hrun
  have hthreads : ∀ tid, m.threads tid = .idle := by
    intro tid
    by_cases htid : tid = 0
    · exact htid ▸ hidle
    · exact hothers tid htid
  have hsettled : m.Settled "call" := by
    refine ⟨hstored, ?_, ?_⟩
    · rintro ⟨tid, hends⟩
      rw [hthreads tid] at hends
      exact hends
    · rw [htimer]
      exact id
  obtain ⟨tid, event, -, hphase⟩ := (h _ m hrun).ended "id" (by rw [hended]; simp) "call" record
    hactive hid hsettled
  rw [hthreads tid] at hphase
  rcases hphase with ⟨hlooking, -⟩ | hhandling
  · exact nomatch hlooking
  · exact nomatch hhandling

end CallManager

end Chelix.Telephony
