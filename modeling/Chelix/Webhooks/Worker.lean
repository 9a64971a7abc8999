import Chelix.Library.Run
import Chelix.Webhooks.Deliveries

/-!
# The webhook worker

The worker reads the unfinished rows once and processes them, and from then on processes the ids
of its channel.  Requests insert rows and send their ids meanwhile.  An id reaches the worker by
the list or by the channel, and the balance below counts on which of its ways it is.

* **`deliveries_executed_once`**: every run in which no row is inserted before the list is read.
-/

namespace Chelix.Webhooks

open Chelix.Library List

structure WebhookSettings where
  deliverOnly : Bool
  deliverTo : Option String

/-- What the worker does with a delivery. -/
inductive Invocation where
  | execute
  | deliver
  | log
  /-- There is no callback for the channel; the delivery fails. -/
  | missing
  deriving DecidableEq

def WebhookSettings.invocation (webhook : WebhookSettings) (hasDeliverFn : Bool) : Invocation :=
  if webhook.deliverOnly then
    if hasDeliverFn then .deliver
    else if webhook.deliverTo.getD "log" = "log" then .log
    else .missing
  else .execute

/-- Where the worker stands; `pending` are the ids of the list that it has not begun. -/
inductive WorkerPhase where
  | starting
  | waiting (pending : List ℕ)
  | begun (id : ℕ) (pending : List ℕ)
  | marked (id : ℕ) (pending : List ℕ)
  | running (id : ℕ) (pending : List ℕ)
  deriving DecidableEq

structure WorkerRun where
  table : DeliveryTable
  /-- The ids of the inserted rows that their requests have still to send. -/
  sending : List ℕ
  channel : List ℕ
  worker : WorkerPhase
  /-- The ids that have been executed or forwarded, the last one last. -/
  invoked : List ℕ
  /-- The ids of the rows inserted since the start. -/
  accepted : List ℕ

def WorkerRun.start (table : DeliveryTable) : WorkerRun where
  table
  sending := []
  channel := []
  worker := .starting
  invoked := []
  accepted := []

inductive WorkerEvent where
  | insert (delivery : NewDelivery)
  | send (id : ℕ)
  | scan
  | take
  | receive
  | mark
  | invoke
  | reject
  | finish (ok : Bool)

def WorkerEvent.isInsert : WorkerEvent → Bool
  | .insert _ => true
  | _ => false

variable {webhooks : ℕ → WebhookSettings} {hasDeliverFn : Bool}

section Steps

variable (webhooks hasDeliverFn)

inductive WorkerStep (s : WorkerRun) : WorkerEvent → WorkerRun → Prop
  | insert {delivery : NewDelivery} {id : ℕ} {table : DeliveryTable}
      (hqueued : delivery.status = .queued)
      (hinserted : s.table.insertDelivery delivery = some (id, table)) :
      WorkerStep s (.insert delivery)
        { s with table, sending := s.sending ++ [id], accepted := s.accepted ++ [id] }
  | send {id : ℕ} (hmem : id ∈ s.sending) :
      WorkerStep s (.send id)
        { s with sending := s.sending.erase id, channel := s.channel ++ [id] }
  | scan (hworker : s.worker = .starting) :
      WorkerStep s .scan { s with worker := .waiting s.table.listUnprocessedDeliveries }
  | take {id : ℕ} {pending : List ℕ} (hworker : s.worker = .waiting (id :: pending)) :
      WorkerStep s .take { s with worker := .begun id pending }
  | receive {id : ℕ} {channel : List ℕ} (hworker : s.worker = .waiting [])
      (hchannel : s.channel = id :: channel) :
      WorkerStep s .receive { s with channel, worker := .begun id [] }
  | mark {id : ℕ} {pending : List ℕ} (hworker : s.worker = .begun id pending) :
      WorkerStep s .mark
        { s with table := s.table.updateDeliveryStatus id .processing, worker := .marked id pending }
  | invoke {id : ℕ} {pending : List ℕ} {delivery : Delivery} (hworker : s.worker = .marked id pending)
      (hrow : s.table.getDelivery id = some delivery)
      (hsome : (webhooks delivery.webhookId).invocation hasDeliverFn ≠ .missing) :
      WorkerStep s .invoke
        { s with worker := .running id pending, invoked := s.invoked ++ [id] }
  | reject {id : ℕ} {pending : List ℕ} {delivery : Delivery} (hworker : s.worker = .marked id pending)
      (hrow : s.table.getDelivery id = some delivery)
      (hnone : (webhooks delivery.webhookId).invocation hasDeliverFn = .missing) :
      WorkerStep s .reject
        { s with table := s.table.updateDeliveryStatus id .failed, worker := .waiting pending }
  | finish {id : ℕ} {pending : List ℕ} {ok : Bool} (hworker : s.worker = .running id pending) :
      WorkerStep s (.finish ok)
        { s with
          table := s.table.updateDeliveryStatus id (if ok then .completed else .failed)
          worker := .waiting pending }

end Steps

/-- Rows are inserted only once the worker has read its list, and each delivery has a callback. -/
def InTime (s : WorkerRun) : WorkerEvent → Prop
  | .insert _ => s.worker ≠ .starting
  | .reject => False
  | _ => True

/-! ## What is left to do -/

namespace WorkerPhase

/-- The ids that the worker has still to execute; before it reads the list, those in the list. -/
def ahead (unprocessed : List ℕ) : WorkerPhase → List ℕ
  | .starting => unprocessed
  | .waiting pending => pending
  | .begun id pending => id :: pending
  | .marked id pending => id :: pending
  | .running _ pending => pending

/-- The ids that the worker has not finished. -/
def unfinished (unprocessed : List ℕ) : WorkerPhase → List ℕ
  | .starting => unprocessed
  | .waiting pending => pending
  | .begun id pending => id :: pending
  | .marked id pending => id :: pending
  | .running id pending => id :: pending

def work (unprocessed : List ℕ) : WorkerPhase → ℕ
  | .starting => 4 * unprocessed.length + 1
  | .waiting pending => 4 * pending.length
  | .begun _ pending => 4 * pending.length + 3
  | .marked _ pending => 4 * pending.length + 2
  | .running _ pending => 4 * pending.length + 1

end WorkerPhase

namespace WorkerRun

/-- The steps that are left if no more rows are inserted. -/
def work (s : WorkerRun) : ℕ :=
  5 * s.sending.length + 4 * s.channel.length + s.worker.work s.table.listUnprocessedDeliveries

/-- Everything that was sent is done. -/
def Quiet (s : WorkerRun) : Prop :=
  s.sending = [] ∧ s.channel = [] ∧ s.worker = .waiting []

/-- The deliveries that were unfinished at the start, and those accepted since. -/
def due (s : WorkerRun) (start : DeliveryTable) : List ℕ :=
  start.listUnprocessedDeliveries ++ s.accepted

/-- How often the id is on its way to the worker or has been executed. -/
def routed (s : WorkerRun) (start : DeliveryTable) (id : ℕ) : ℕ :=
  s.sending.count id + s.channel.count id +
    (s.worker.ahead start.listUnprocessedDeliveries).count id + s.invoked.count id

/-- The id is in the channel, on its way there, or with the worker. -/
def Open (s : WorkerRun) (start : DeliveryTable) (id : ℕ) : Prop :=
  id ∈ s.sending ∨ id ∈ s.channel ∨ id ∈ s.worker.unfinished start.listUnprocessedDeliveries

end WorkerRun

variable {t : WorkerRun} {e : WorkerEvent}

theorem work_lt {s : WorkerRun} (h : WorkerStep webhooks hasDeliverFn s e t)
    (hinsert : e.isInsert = false) : t.work < s.work := by
  cases h with
  | insert _ _ => cases hinsert
  | @send id hmem =>
    have hlength : (s.sending.erase id).length + 1 = s.sending.length := by
      have hpos := length_pos_of_mem hmem
      rw [length_erase_of_mem hmem]
      omega
    simp only [WorkerRun.work, length_append, length_singleton]
    omega
  | scan hworker | mark hworker | invoke hworker _ _ | reject hworker _ _ | finish hworker =>
    simp only [WorkerRun.work, hworker, WorkerPhase.work]
    omega
  | take hworker =>
    simp only [WorkerRun.work, hworker, WorkerPhase.work, length_cons]
    omega
  | receive hworker hchannel =>
    simp only [WorkerRun.work, hworker, hchannel, WorkerPhase.work, length_cons,
      length_nil]
    omega

/-! ## The balance -/

/-- Each id that is due is on one way or has been executed, its row says which, and no id is due
twice. -/
structure Accountable (start : DeliveryTable) (s : WorkerRun) : Prop where
  before : s.worker = .starting → s.table = start
  balance : ∀ id, s.routed start id = (s.due start).count id
  once : ∀ id, (s.due start).count id ≤ 1
  below : ∀ id ∈ s.due start, id < s.table.nextId
  running : ∀ id pending, s.worker = .running id pending → id ∈ s.invoked
  opened : ∀ id, s.Open start id → ∃ d ∈ s.table.rows, d.id = id ∧ d.status.unprocessed = true
  closed : ∀ id ∈ s.invoked, id ∉ s.worker.unfinished start.listUnprocessedDeliveries →
    ∃ d ∈ s.table.rows, d.id = id ∧ d.status.finished = true

namespace Accountable

variable {start : DeliveryTable} {s : WorkerRun}

theorem start_run (start : DeliveryTable) : Accountable start (.start start) where
  before _ := rfl
  balance id := by
    simp [WorkerRun.routed, WorkerRun.due, WorkerRun.start, WorkerPhase.ahead]
  once id := by
    rw [WorkerRun.due, WorkerRun.start, append_nil]
    exact nodup_iff_count_le_one.mp DeliveryTable.nodup_listUnprocessedDeliveries id
  below id hmem := by
    rw [WorkerRun.due, WorkerRun.start, append_nil] at hmem
    obtain ⟨d, hd, rfl, -⟩ := DeliveryTable.mem_listUnprocessedDeliveries.mp hmem
    exact start.fresh d hd
  running _ _ h := nomatch h
  opened id h := by
    rcases h with h | h | h
    · cases h
    · cases h
    · exact DeliveryTable.mem_listUnprocessedDeliveries.mp h
  closed _ h := nomatch h

variable {id : ℕ}

theorem ne_of_finished (h : Accountable start s) (hopen : s.Open start id) {d : Delivery}
    (hd : d ∈ s.table.rows) (hfinished : d.status.finished = true) : d.id ≠ id := by
  rintro rfl
  obtain ⟨d', hd', hid, hunprocessed⟩ := h.opened d.id hopen
  rw [DeliveryTable.eq_of_id_eq hd' hd hid] at hunprocessed
  rw [DeliveryStatus.finished_eq_false_of_unprocessed hunprocessed] at hfinished
  cases hfinished

theorem not_mem_of_invoked (h : Accountable start s) (hid : id ∈ s.invoked) :
    id ∉ s.sending ∧ id ∉ s.channel ∧
      id ∉ s.worker.ahead start.listUnprocessedDeliveries := by
  have hbalance := h.balance id
  have honce := h.once id
  have hpos := count_pos_iff.mpr hid
  simp only [WorkerRun.routed] at hbalance
  refine ⟨?_, ?_, ?_⟩ <;> rw [← count_eq_zero] <;> omega

theorem insert (h : Accountable start s) {delivery : NewDelivery} {id : ℕ} {table : DeliveryTable}
    (hqueued : delivery.status = .queued)
    (hinserted : s.table.insertDelivery delivery = some (id, table))
    (htime : s.worker ≠ .starting) :
    Accountable start
      { s with table, sending := s.sending ++ [id], accepted := s.accepted ++ [id] } := by
  obtain ⟨hid, hrows, hnext⟩ := DeliveryTable.insertDelivery_eq_some hinserted
  have hkept : ∀ {P : Delivery → Prop}, (∃ d ∈ s.table.rows, P d) → ∃ d ∈ table.rows, P d := by
    rintro P ⟨d, hd, hP⟩
    exact ⟨d, by rw [hrows]; exact mem_append_left _ hd, hP⟩
  have hnew : (s.due start).count id = 0 := by
    refine count_eq_zero.mpr fun hmem => ?_
    exact (h.below id hmem).ne hid
  have hdue : ∀ id', (start.listUnprocessedDeliveries ++ (s.accepted ++ [id])).count id' =
      (s.due start).count id' + [id].count id' := by
    intro id'
    rw [← append_assoc, count_append, WorkerRun.due]
  constructor
  · exact fun hworker => absurd hworker htime
  · intro id'
    have hbalance := h.balance id'
    simp only [WorkerRun.routed] at hbalance
    simp only [WorkerRun.routed, WorkerRun.due, count_append, hdue] at hbalance ⊢
    omega
  · intro id'
    show (start.listUnprocessedDeliveries ++ (s.accepted ++ [id])).count id' ≤ 1
    rw [hdue id']
    by_cases heq : id' = id
    · rw [heq, hnew, count_singleton_self]
    · rw [count_eq_zero.mpr fun hmem => heq (mem_singleton.mp hmem)]
      exact h.once id'
  · intro id' hmem
    replace hmem : id' ∈ start.listUnprocessedDeliveries ++ (s.accepted ++ [id]) := hmem
    show id' < table.nextId
    rw [← append_assoc] at hmem
    rcases mem_append.mp hmem with hmem | hmem
    · have hlt := h.below id' hmem
      omega
    · rw [mem_singleton.mp hmem]
      omega
  · exact h.running
  · rintro id' (hmem | hmem | hmem)
    · rcases mem_append.mp hmem with hmem | hmem
      · exact hkept (h.opened id' (.inl hmem))
      · rw [mem_singleton.mp hmem]
        refine ⟨⟨delivery, id⟩, ?_, rfl, ?_⟩
        · show _ ∈ table.rows
          rw [hrows]
          exact mem_append_right _ (mem_singleton.mpr rfl)
        · show delivery.status.unprocessed = true
          rw [hqueued]
          rfl
    · exact hkept (h.opened id' (.inr (.inl hmem)))
    · exact hkept (h.opened id' (.inr (.inr hmem)))
  · exact fun id' hmem hnot => hkept (h.closed id' hmem hnot)

theorem move (h : Accountable start s) {sending channel : List ℕ} {worker : WorkerPhase}
    (hworker : worker = s.worker ∨ worker ≠ .starting ∧ ∀ id pending, worker ≠ .running id pending)
    (hahead : ∀ id, sending.count id + channel.count id +
        (worker.ahead start.listUnprocessedDeliveries).count id =
      s.sending.count id + s.channel.count id +
        (s.worker.ahead start.listUnprocessedDeliveries).count id)
    (hunfinished : ∀ id, sending.count id + channel.count id +
        (worker.unfinished start.listUnprocessedDeliveries).count id =
      s.sending.count id + s.channel.count id +
        (s.worker.unfinished start.listUnprocessedDeliveries).count id) :
    Accountable start { s with sending, channel, worker } where
  __ := h
  before hstarting := by
    rcases hworker with heq | ⟨hne, -⟩
    · exact h.before (heq.symm.trans hstarting)
    · exact absurd hstarting hne
  balance id := by
    have hbalance := h.balance id
    have hmoved := hahead id
    simp only [WorkerRun.routed, WorkerRun.due] at hbalance hmoved ⊢
    omega
  running id pending hrunning := by
    rcases hworker with heq | ⟨-, hne⟩
    · exact h.running id pending (heq.symm.trans hrunning)
    · exact absurd hrunning (hne id pending)
  opened id hopen := by
    refine h.opened id ?_
    have hmoved := hunfinished id
    simp only [WorkerRun.Open, ← count_pos_iff] at hopen ⊢
    omega
  closed id hid hnot := by
    refine h.closed id hid fun hmem => hnot ?_
    -- The id has been executed, so it is on no way, before or after.
    obtain ⟨hsending, hchannel, hnotAhead⟩ := h.not_mem_of_invoked hid
    have hmoved := hunfinished id
    have hmoved' := hahead id
    rw [← count_eq_zero] at hsending hchannel hnotAhead
    rw [← count_pos_iff] at hmem ⊢
    show 0 < (worker.unfinished start.listUnprocessedDeliveries).count id
    omega

theorem update (h : Accountable start s) {id : ℕ} (hopen : s.Open start id)
    (hworker : s.worker ≠ .starting) :
    Accountable start { s with table := s.table.updateDeliveryStatus id .processing } where
  __ := h
  before hstarting := absurd hstarting hworker
  opened id' hopen' := by
    obtain ⟨d, hd, rfl, hunprocessed⟩ := h.opened id' hopen'
    by_cases heq : d.id = id
    · rw [heq]
      obtain ⟨d', hd', hid', hstatus⟩ :=
        DeliveryTable.exists_status_update .processing ⟨d, hd, heq⟩
      exact ⟨d', hd', hid', by rw [hstatus]; rfl⟩
    · exact ⟨d, DeliveryTable.mem_update_of_ne _ hd heq, rfl, hunprocessed⟩
  closed id' hid' hnot := by
    obtain ⟨d, hd, rfl, hfinished⟩ := h.closed id' hid' hnot
    exact ⟨d, DeliveryTable.mem_update_of_ne _ hd (h.ne_of_finished hopen hd hfinished), rfl,
      hfinished⟩

theorem invoke (h : Accountable start s) {pending : List ℕ}
    (hworker : s.worker = .marked id pending) :
    Accountable start { s with worker := .running id pending, invoked := s.invoked ++ [id] } where
  __ := h
  before hstarting := nomatch hstarting
  balance id' := by
    have hbalance := h.balance id'
    simp only [WorkerRun.routed, WorkerRun.due, hworker, WorkerPhase.ahead, count_append,
      count_cons, count_nil] at hbalance ⊢
    omega
  running id' pending' hrunning := by
    cases hrunning
    exact mem_append_right _ (mem_singleton.mpr rfl)
  opened id' hopen := by
    refine h.opened id' ?_
    rw [WorkerRun.Open, hworker]
    exact hopen
  closed id' hid' hnot := by
    rcases mem_append.mp hid' with hid' | hid'
    · refine h.closed id' hid' ?_
      rw [hworker]
      exact hnot
    · rw [mem_singleton.mp hid'] at hnot
      exact absurd mem_cons_self hnot

theorem finish (h : Accountable start s) {pending : List ℕ} {status : DeliveryStatus}
    (hworker : s.worker = .running id pending) (hstatus : status.finished = true) :
    Accountable start
      { s with
        table := s.table.updateDeliveryStatus id status
        worker := .waiting pending } := by
  have hopen : s.Open start id := by
    rw [WorkerRun.Open, hworker]
    exact .inr (.inr mem_cons_self)
  obtain ⟨hsending, hchannel, hahead⟩ := h.not_mem_of_invoked (h.running id pending hworker)
  rw [hworker] at hahead
  replace hahead : id ∉ pending := hahead
  constructor
  · exact nofun
  · intro id'
    have hbalance := h.balance id'
    simp only [WorkerRun.routed, WorkerRun.due, hworker, WorkerPhase.ahead] at hbalance ⊢
    exact hbalance
  · exact h.once
  · exact h.below
  · exact nofun
  · intro id' hopen'
    -- What is open now was open before, and is not the id that was finished.
    have hwas : s.Open start id' := by
      rw [WorkerRun.Open, hworker]
      exact hopen'.imp_right (Or.imp_right (mem_cons_of_mem id))
    have hne : id' ≠ id := by
      rintro rfl
      rcases hopen' with hmem | hmem | hmem
      · exact hsending hmem
      · exact hchannel hmem
      · exact hahead hmem
    obtain ⟨d, hd, rfl, hunprocessed⟩ := h.opened id' hwas
    exact ⟨d, DeliveryTable.mem_update_of_ne _ hd hne, rfl, hunprocessed⟩
  · intro id' hid' hnot
    by_cases heq : id' = id
    · obtain ⟨d, hd, hid, -⟩ := h.opened id hopen
      obtain ⟨d', hd', hdid, hdstatus⟩ := DeliveryTable.exists_status_update status ⟨d, hd, hid⟩
      exact ⟨d', hd', hdid.trans heq.symm, by rw [hdstatus, hstatus]⟩
    · have hnotBefore : id' ∉ s.worker.unfinished start.listUnprocessedDeliveries := by
        rw [hworker]
        exact fun hmem => (mem_cons.mp hmem).elim heq hnot
      obtain ⟨d, hd, rfl, hfinished⟩ := h.closed id' hid' hnotBefore
      exact ⟨d, DeliveryTable.mem_update_of_ne _ hd heq, rfl, hfinished⟩

theorem step (h : Accountable start s) (hstep : WorkerStep webhooks hasDeliverFn s e t)
    (htime : InTime s e) : Accountable start t := by
  cases hstep with
  | insert hqueued hinserted => exact h.insert hqueued hinserted htime
  | @send id hmem =>
    have hcount : ∀ id', (s.sending.erase id).count id' + (s.channel ++ [id]).count id' =
        s.sending.count id' + s.channel.count id' := by
      intro id'
      have hpos := count_pos_iff.mpr hmem
      rw [count_append]
      by_cases heq : id' = id
      · rw [heq, count_erase_self, count_singleton_self]
        omega
      · rw [count_erase_of_ne heq,
          count_eq_zero.mpr fun hmem => heq (mem_singleton.mp hmem)]
        omega
    exact h.move (.inl rfl) (fun id' => by rw [hcount id']) fun id' => by rw [hcount id']
  | scan hworker =>
    have hlist : s.table.listUnprocessedDeliveries = start.listUnprocessedDeliveries := by
      rw [h.before hworker]
    rw [hlist]
    refine h.move (.inr ⟨nofun, nofun⟩) (fun id => ?_) fun id => ?_
    · rw [hworker]
      rfl
    · rw [hworker]
      rfl
  | take hworker =>
    refine h.move (.inr ⟨nofun, nofun⟩) (fun id => ?_) fun id => ?_
    · rw [hworker]
      rfl
    · rw [hworker]
      rfl
  | @receive id channel hworker hchannel =>
    have hcount : ∀ id', s.sending.count id' + channel.count id' + [id].count id' =
        s.sending.count id' + s.channel.count id' + ([] : List ℕ).count id' := by
      intro id'
      rw [hchannel, count_cons, count_cons, count_nil]
      omega
    refine h.move (.inr ⟨nofun, nofun⟩) (fun id' => ?_) fun id' => ?_
    · rw [hworker]
      exact hcount id'
    · rw [hworker]
      exact hcount id'
  | @mark id pending hworker =>
    have hopen : s.Open start id := by
      rw [WorkerRun.Open, hworker]
      exact .inr (.inr mem_cons_self)
    have hmarked := h.update hopen (by rw [hworker]; nofun)
    refine hmarked.move (.inr ⟨nofun, nofun⟩) (fun id' => ?_) fun id' => ?_
    · rw [hworker]
      rfl
    · rw [hworker]
      rfl
  | invoke hworker _ _ => exact h.invoke hworker
  | reject _ _ _ => exact htime.elim
  | @finish id pending ok hworker =>
    refine h.finish hworker ?_
    cases ok <;> rfl

theorem finished_of_step (h : Accountable start s) (hstep : WorkerStep webhooks hasDeliverFn s e t)
    {d : Delivery} (hd : d ∈ s.table.rows) (hfinished : d.status.finished = true) :
    d ∈ t.table.rows := by
  have hcurrent : ∀ id ∈ s.worker.unfinished start.listUnprocessedDeliveries, d.id ≠ id :=
    fun id hmem => h.ne_of_finished (.inr (.inr hmem)) hd hfinished
  cases hstep with
  | insert _ hinserted =>
    obtain ⟨-, hrows, -⟩ := DeliveryTable.insertDelivery_eq_some hinserted
    show d ∈ _
    rw [hrows]
    exact mem_append_left _ hd
  | send _ | scan _ | take _ | receive _ _ | invoke _ _ _ => exact hd
  | mark hworker | reject hworker _ _ | finish hworker =>
    refine DeliveryTable.mem_update_of_ne _ hd (hcurrent _ ?_)
    rw [hworker]
    exact mem_cons_self

/-- As long as something is left, the worker or a request that has inserted its row can go on. -/
theorem exists_step (h : Accountable start s) (hquiet : ¬ s.Quiet) :
    ∃ e t, e.isInsert = false ∧ WorkerStep webhooks hasDeliverFn s e t := by
  cases hworker : s.worker with
  | starting => exact ⟨_, _, rfl, .scan hworker⟩
  | waiting pending =>
    cases pending with
    | cons id pending => exact ⟨_, _, rfl, .take hworker⟩
    | nil =>
      cases hchannel : s.channel with
      | cons id channel => exact ⟨_, _, rfl, .receive hworker hchannel⟩
      | nil =>
        obtain ⟨id, hmem⟩ : ∃ id, id ∈ s.sending := by
          refine exists_mem_of_ne_nil _ fun hsending => hquiet ?_
          exact ⟨hsending, hchannel, hworker⟩
        exact ⟨_, _, rfl, .send hmem⟩
  | begun id pending => exact ⟨_, _, rfl, .mark hworker⟩
  | marked id pending =>
    have hopen : s.Open start id := by
      rw [WorkerRun.Open, hworker]
      exact .inr (.inr mem_cons_self)
    obtain ⟨d, hd, rfl, -⟩ := h.opened id hopen
    have hrow := DeliveryTable.getDelivery_eq_some hd
    by_cases hmissing : (webhooks d.webhookId).invocation hasDeliverFn = .missing
    · exact ⟨_, _, rfl, .reject hworker hrow hmissing⟩
    · exact ⟨_, _, rfl, .invoke hworker hrow hmissing⟩
  | running id pending => exact ⟨.finish true, _, rfl, .finish hworker⟩

end Accountable

/-- **Each delivery is executed exactly once**, over every run in which no row is inserted before
the worker has read its list, and no delivery lacks a callback: none is executed twice, a finished
row stays as it is, and when nothing is left every delivery that was due has been executed and is
finished.  Only insertions can keep that moment away: every other step leaves less work, and while
there is work one is possible. -/
theorem deliveries_executed_once {table : DeliveryTable} {s : WorkerRun} {es : List WorkerEvent}
    (hrun : Run (fun s e t => WorkerStep webhooks hasDeliverFn s e t ∧ InTime s e) (.start table)
      es s) :
    (∀ id, s.invoked.count id ≤ 1) ∧
    (∀ e t, WorkerStep webhooks hasDeliverFn s e t → ∀ d ∈ s.table.rows,
      d.status.finished = true → d ∈ t.table.rows) ∧
    (s.Quiet → ∀ id ∈ s.due table, s.invoked.count id = 1 ∧
      ∃ d ∈ s.table.rows, d.id = id ∧ d.status.finished = true) ∧
    (¬ s.Quiet → ∃ e t, e.isInsert = false ∧ WorkerStep webhooks hasDeliverFn s e t) ∧
    ∀ e t, WorkerStep webhooks hasDeliverFn s e t → e.isInsert = false → t.work < s.work := by
  have h : Accountable table s := by
    refine hrun.invariant (P := Accountable table) (fun _ _ _ hs hstep => ?_)
      (Accountable.start_run table)
    exact hs.step hstep.1 hstep.2
  refine ⟨fun id => ?_, fun e t hstep d hd hfinished => h.finished_of_step hstep hd hfinished, ?_,
    h.exists_step, fun e t => work_lt⟩
  · have hbalance := h.balance id
    have honce := h.once id
    simp only [WorkerRun.routed] at hbalance
    omega
  · rintro ⟨hsending, hchannel, hworker⟩ id hid
    have hbalance := h.balance id
    have honce := h.once id
    have hpos := List.count_pos_iff.mpr hid
    simp only [WorkerRun.routed, hsending, hchannel, hworker, WorkerPhase.ahead,
      List.count_nil] at hbalance
    have hcount : s.invoked.count id = 1 := by omega
    refine ⟨hcount, h.closed id (List.count_pos_iff.mp (by omega)) ?_⟩
    rw [hworker]
    exact List.not_mem_nil

/-! ## Runs -/

/-- One row that a crash left in processing. -/
def leftProcessing : DeliveryTable where
  rows := [⟨⟨1, "2026-04-07T00:00:00Z", .processing, none⟩, 1⟩]
  nextId := 2
  ids := List.pairwise_singleton _ _
  fresh := by decide
  keys := List.pairwise_singleton _ _

/-- A new delivery of the first webhook. -/
def newDelivery : NewDelivery := ⟨1, "2026-04-07T00:00:01Z", .queued, none⟩

/-- The webhooks run the agent. -/
def agentWebhooks : ℕ → WebhookSettings := fun _ => ⟨false, none⟩

/-- The row left over is executed, and then the delivery that came meanwhile. -/
def recoverThenReceive : List WorkerEvent :=
  [.scan, .take, .mark, .insert newDelivery, .invoke, .send 2, .finish true, .receive, .mark,
    .invoke, .finish false]

theorem deliveries_executed_once_recover : ∃ s : WorkerRun,
    Run (fun s e t => WorkerStep agentWebhooks false s e t ∧ InTime s e) (.start leftProcessing)
      recoverThenReceive s ∧
    s.due leftProcessing = [1, 2] ∧ ∀ id ∈ s.due leftProcessing, s.invoked.count id = 1 := by
  have hrun : ∃ s : WorkerRun,
      Run (fun s e t => WorkerStep agentWebhooks false s e t ∧ InTime s e) (.start leftProcessing)
        recoverThenReceive s ∧
      s.due leftProcessing = [1, 2] ∧ s.Quiet := by
    exact ⟨_, .cons ⟨.scan rfl, trivial⟩ <| .cons ⟨.take rfl, trivial⟩ <|
      .cons ⟨.mark rfl, trivial⟩ <| .cons ⟨.insert rfl rfl, nofun⟩ <|
      .cons ⟨.invoke rfl rfl (by decide), trivial⟩ <| .cons ⟨.send (by decide), trivial⟩ <|
      .cons ⟨.finish rfl, trivial⟩ <| .cons ⟨.receive rfl rfl, trivial⟩ <|
      .cons ⟨.mark rfl, trivial⟩ <| .cons ⟨.invoke rfl rfl (by decide), trivial⟩ <|
      .cons ⟨.finish rfl, trivial⟩ <| .nil _, rfl, rfl, rfl, rfl⟩
  obtain ⟨s, hrun, hdue, hquiet⟩ := hrun
  obtain ⟨-, -, hdone, -, -⟩ := deliveries_executed_once hrun
  exact ⟨s, hrun, hdue, fun id hid => (hdone hquiet id hid).1⟩

/-- A delivery that is inserted and sent before the worker reads its list is executed twice, and
its completed row is moved back to processing; a delivery for a channel without a callback is not
executed at all. -/
theorem deliveries_not_executed_once :
    (∃ s t : WorkerRun,
      Run (WorkerStep agentWebhooks false) (.start ⟨[], 1, .nil, nofun, .nil⟩)
        [.insert newDelivery, .send 1, .scan, .take, .mark, .invoke, .finish true, .receive] s ∧
      s.table.rows.map (·.status) = [.completed] ∧
      Run (WorkerStep agentWebhooks false) s [.mark, .invoke, .finish true] t ∧
      t.invoked = [1, 1]) ∧
    ∃ s : WorkerRun,
      Run (WorkerStep (fun _ => ⟨true, some "telegram"⟩) false) (.start leftProcessing)
        [.scan, .take, .mark, .reject] s ∧
      s.Quiet ∧ s.due leftProcessing = [1] ∧ s.invoked = [] := by
  constructor
  · exact ⟨_, _, .cons (.insert rfl rfl) <| .cons (.send (by decide)) <| .cons (.scan rfl) <|
      .cons (.take rfl) <| .cons (.mark rfl) <| .cons (.invoke rfl rfl (by decide)) <|
      .cons (.finish rfl) <| .cons (.receive rfl rfl) <| .nil _, rfl,
      .cons (.mark rfl) <| .cons (.invoke rfl rfl (by decide)) <| .cons (.finish rfl) <| .nil _,
      rfl⟩
  · exact ⟨_, .cons (.scan rfl) <| .cons (.take rfl) <| .cons (.mark rfl) <|
      .cons (.reject rfl rfl (by decide)) <| .nil _, ⟨rfl, rfl, rfl⟩, rfl, rfl⟩

end Chelix.Webhooks
