import Chelix.Library.OrderedMap
import Chelix.Library.Results

/-!
# The cron scheduler

Jobs are kept in a list and in a store.  The timer loop marks the jobs that are due and executes
each in a task of its own; a job may also be run on demand, and be changed and removed at any
time.  Each section of an operation that holds the lock of the list is a step of its own.

The jobs are a map from their ids, which are the keys of the store.  The next run of a cron
expression is a parameter, and whether a write to the store fails is an argument of the step.
-/

namespace Chelix.Cron

open Chelix.Library

/-! ## Jobs -/

inductive CronSchedule where
  | atTime (atMs : ℕ)
  | every (everyMs : ℕ) (anchorMs : Option ℕ)
  | cron (expr : String) (tz : Option String)
  deriving DecidableEq

structure CronAgentTurn where
  message : String
  deliver : Bool
  channel : Option String
  chatId : Option String
  deriving DecidableEq

inductive CronPayload where
  | systemEvent (text : String)
  | agentTurn (turn : CronAgentTurn)
  deriving DecidableEq

inductive SessionTarget where
  | main
  | isolated
  deriving DecidableEq

inductive RunStatus where
  | ok
  | error
  | skipped
  deriving DecidableEq

structure CronJobState where
  nextRunAtMs : Option ℕ
  runningAtMs : Option ℕ
  lastRunAtMs : Option ℕ
  lastStatus : Option RunStatus
  lastError : Option String
  lastDurationMs : Option ℕ
  deriving DecidableEq

def CronJobState.default : CronJobState where
  nextRunAtMs := none
  runningAtMs := none
  lastRunAtMs := none
  lastStatus := none
  lastError := none
  lastDurationMs := none

structure CronJob where
  name : String
  enabled : Bool
  deleteAfterRun : Bool
  schedule : CronSchedule
  payload : CronPayload
  sessionTarget : SessionTarget
  state : CronJobState
  autoPruneContainer : Option Bool
  createdAtMs : ℕ
  updatedAtMs : ℕ
  deriving DecidableEq

structure CronJobCreate where
  name : String
  schedule : CronSchedule
  payload : CronPayload
  sessionTarget : SessionTarget
  deleteAfterRun : Bool
  enabled : Bool
  autoPruneContainer : Option Bool

structure CronJobPatch where
  name : Option String
  schedule : Option CronSchedule
  payload : Option CronPayload
  sessionTarget : Option SessionTarget
  enabled : Option Bool
  deleteAfterRun : Option Bool
  autoPruneContainer : Option (Option Bool)

def validateJobSpec (job : CronJob) : Except String Unit :=
  match job.sessionTarget, job.payload with
  | .main, .agentTurn _ => .error "sessionTarget=main requires payload kind=systemEvent"
  | .isolated, .systemEvent _ => .error "sessionTarget=isolated requires payload kind=agentTurn"
  | .isolated, .agentTurn turn =>
    if turn.deliver then
      if turn.channel = none ∨ turn.channel = some "" then
        .error "deliver=true requires a non-empty 'channel' (account_id)"
      else if turn.chatId = none ∨ turn.chatId = some "" then
        .error "deliver=true requires a non-empty 'to' (chat_id)"
      else .ok ()
    else .ok ()
  | .main, .systemEvent _ => .ok ()

/-! ## Schedules -/

/-- The next run of a cron expression in a time zone, after some time. -/
abbrev CronExpressions := String → Option String → ℕ → Except String (Option ℕ)

section Schedules

variable (cron : CronExpressions)

def computeNextRun (schedule : CronSchedule) (nowMs : ℕ) : Except String (Option ℕ) :=
  match schedule with
  | .atTime atMs => .ok (if atMs > nowMs then some atMs else none)
  | .every everyMs anchorMs =>
    if everyMs = 0 then .error "every_ms must be > 0"
    else
      let anchor := anchorMs.getD nowMs
      if anchor > nowMs then .ok (some anchor)
      else .ok (some ((anchor + ((nowMs - anchor) / everyMs + 1) * everyMs) % 2 ^ 64))
  | .cron expr tz => cron expr tz nowMs

/-- The next run, or none if the schedule is not valid. -/
def nextRun (schedule : CronSchedule) (nowMs : ℕ) : Option ℕ :=
  match computeNextRun cron schedule nowMs with
  | .ok next => next
  | .error _ => none

namespace CronJob

def setNextRun (job : CronJob) (next : Option ℕ) : CronJob :=
  { job with state := { job.state with nextRunAtMs := next } }

def setRunning (job : CronJob) (running : Option ℕ) : CronJob :=
  { job with state := { job.state with runningAtMs := running } }

def recomputed (job : CronJob) (now : ℕ) : CronJob :=
  if job.enabled then job.setNextRun (nextRun cron job.schedule now) else job

def patched (job : CronJob) (patch : CronJobPatch) (now : ℕ) : CronJob :=
  { job with
    name := patch.name.getD job.name
    schedule := patch.schedule.getD job.schedule
    payload := patch.payload.getD job.payload
    sessionTarget := patch.sessionTarget.getD job.sessionTarget
    enabled := patch.enabled.getD job.enabled
    deleteAfterRun := patch.deleteAfterRun.getD job.deleteAfterRun
    autoPruneContainer := patch.autoPruneContainer.getD job.autoPruneContainer
    updatedAtMs := now }

/-- A job with its next run; a job that is disabled has none. -/
def rescheduled (job : CronJob) (now : ℕ) : Except String CronJob :=
  if job.enabled then do
    let next ← computeNextRun cron job.schedule now
    return job.setNextRun next
  else return job.setNextRun none

def due (job : CronJob) (now : ℕ) : Bool :=
  job.enabled && job.state.nextRunAtMs.any (· ≤ now) && job.state.runningAtMs.isNone

/-- A job whose execution has ended. -/
def finished (job : CronJob) (started finishedAt : ℕ) (status : RunStatus)
    (error : Option String) (next : Option ℕ) : CronJob :=
  { job with state := {
      runningAtMs := none
      lastRunAtMs := some finishedAt
      lastStatus := some status
      lastError := error
      -- the subtraction wraps where the clock went back
      lastDurationMs := some ((finishedAt + 2 ^ 64 - started) % 2 ^ 64)
      nextRunAtMs := next } }

end CronJob

def stuckThresholdMs : ℕ := 2 * 60 * 60 * 1000

/-- A mark that is older than two hours is cleared. -/
def CronJob.unstuck (job : CronJob) (now : ℕ) : CronJob :=
  match job.state.runningAtMs with
  | some runningAt =>
    if now - runningAt > stuckThresholdMs then
      { job with state := { job.state with
          runningAtMs := none
          lastStatus := some .error
          lastError := some "stuck: exceeded 2h timeout" } }
    else job
  | none => job

/-! ## The scheduler -/

abbrev Jobs := OrderedMap String CronJob

/-- The jobs with one of them changed, if it is there. -/
def modifyJob (jobs : Jobs) (id : String) (f : CronJob → CronJob) : Jobs :=
  match jobs[id]? with
  | some job => jobs.insert id (f job)
  | none => jobs

/-- The execution of a job, as it was when the execution began. -/
structure Execution where
  id : String
  job : CronJob
  markedAt : ℕ
  deriving DecidableEq

/-- An execution that has ended and whose job is not yet stored, disabled or deleted. -/
structure Ending where
  id : String
  job : CronJob
  next : Option ℕ
  now : ℕ
  deriving DecidableEq

/-- How a write of the store ends.  The file store moves the old file away before it moves the new
one to its place, so a write that fails in between leaves a store that loads no jobs. -/
inductive StoreWrite where
  | written
  | failed
  | emptied
  deriving DecidableEq

/-- The store and the scheduler of a process; `requested` are the calls that run a job and have not
marked it, `deleting` and `removing` the executions and calls that have deleted a job from the
store only. -/
structure CronState where
  store : Jobs
  jobs : Jobs
  requested : List (String × CronJob)
  executions : List Execution
  ending : List Ending
  deleting : List Ending
  removing : List String

namespace CronState

/-- A process before its start. -/
def new (store : Jobs) : CronState where
  store := store
  jobs := ∅
  requested := []
  executions := []
  ending := []
  deleting := []
  removing := []

/-- Whatever ran before is gone; the jobs are those of the store. -/
def start (s : CronState) (now : ℕ) : CronState :=
  { new s.store with jobs := s.store.map fun _ job => job.recomputed cron now }

def tick (s : CronState) (now : ℕ) : CronState :=
  { s with
    jobs := s.jobs.map fun _ job => if job.due now then job.setRunning (some now) else job
    executions := s.executions ++ (s.jobs.toList.filter fun entry => entry.2.due now).map
      fun entry => { id := entry.1, job := entry.2.setRunning (some now), markedAt := now } }

def clearStuck (s : CronState) (now : ℕ) : CronState :=
  { s with jobs := s.jobs.map fun _ job => job.unstuck now }

/-- The store after a write that fails. -/
def unwritten (s : CronState) : StoreWrite → CronState
  | .emptied => { s with store := ∅ }
  | .written | .failed => s

/-- A job as it is stored, in the place of the one that is there. -/
def persist (s : CronState) (id : String) (job : CronJob) (write : StoreWrite) : CronState :=
  if s.store.contains id then
    if write = .written then { s with store := s.store.insert id job } else s.unwritten write
  else s

def newJob (create : CronJobCreate) (now : ℕ) : CronJob where
  name := create.name
  enabled := create.enabled
  deleteAfterRun := create.deleteAfterRun
  schedule := create.schedule
  payload := create.payload
  sessionTarget := create.sessionTarget
  state := .default
  autoPruneContainer := create.autoPruneContainer
  createdAtMs := now
  updatedAtMs := now

def addedJob (create : CronJobCreate) (now : ℕ) : Except String CronJob := do
  let job := newJob create now
  validateJobSpec job
  if job.enabled then do
    let next ← computeNextRun cron job.schedule now
    return job.setNextRun next
  else return job

/-- The job that an update leaves, and whether the update is refused: the job is changed before it
is checked. -/
def updatedJob (job : CronJob) (patch : CronJobPatch) (now : ℕ) : CronJob × Except String Unit :=
  match validateJobSpec (job.patched patch now) with
  | .error e => (job.patched patch now, .error e)
  | .ok () =>
    match (job.patched patch now).rescheduled cron now with
    | .error e => (job.patched patch now, .error e)
    | .ok updated => (updated, .ok ())

/-- An update of a job, and whether it succeeds. -/
def update (s : CronState) (id : String) (job : CronJob) (patch : CronJobPatch) (now : ℕ)
    (write : StoreWrite) : CronState × Bool :=
  let (updated, result) := updatedJob cron job patch now
  let changed := { s with jobs := s.jobs.insert id updated }
  match result with
  | .error _ => (changed, false)
  | .ok () => (changed.persist id updated write, write = .written && s.store.contains id)

/-- A call marks the job that it runs, without looking whether it is marked. -/
def mark (s : CronState) (id : String) (now : ℕ) : CronState :=
  { s with jobs := modifyJob s.jobs id fun job => job.setRunning (some now) }

/-- The copy of a call is used up, and its execution begins. -/
def execute (s : CronState) (id : String) (job : CronJob) (now : ℕ) : CronState :=
  { s with
    requested := s.requested.erase (id, job)
    executions := s.executions ++ [{ id, job, markedAt := now }] }

/-- The execution of a job ends: the mark is cleared, and the next run is that of the copy. -/
def finish (s : CronState) (execution : Execution) (others : List Execution)
    (started finishedAt now : ℕ) (status : RunStatus) (error : Option String) : CronState :=
  let next := nextRun cron execution.job.schedule now
  { s with
    jobs := modifyJob s.jobs execution.id fun job =>
      job.finished started finishedAt status error next
    executions := others
    ending := { id := execution.id, job := execution.job, next, now } :: s.ending }

def disable (s : CronState) (id : String) (job : CronJob) (write : StoreWrite) : CronState :=
  { s with jobs := s.jobs.insert id { job with enabled := false } }.persist id
    { job with enabled := false } write

/-- Nothing is left to do for an execution that has ended. -/
def settled (s : CronState) (ending : Ending) : CronState :=
  { s with ending := s.ending.erase ending }

/-- An id that nothing has. -/
structure Fresh (s : CronState) (id : String) : Prop where
  jobs : s.jobs[id]? = none
  store : s.store[id]? = none
  requested : ∀ x ∈ s.requested, x.1 ≠ id
  executions : ∀ x ∈ s.executions, x.id ≠ id
  ending : ∀ x ∈ s.ending, x.id ≠ id
  deleting : ∀ x ∈ s.deleting, x.id ≠ id
  removing : id ∉ s.removing

end CronState

inductive CronEvent where
  | start (now : ℕ)
  | tick (now : ℕ)
  | clearStuck (now : ℕ)
  | add (id : String) (create : CronJobCreate) (now : ℕ)
  | update (id : String) (patch : CronJobPatch) (now : ℕ) (write : StoreWrite)
  /-- The store fails to save or to delete a job for a call, which then changes nothing else. -/
  | refuse (write : StoreWrite)
  | removeStored (id : String)
  | remove (id : String)
  | request (id : String) (force : Bool)
  | mark (id : String) (now : ℕ)
  | finish (execution : Execution) (started finishedAt now : ℕ) (status : RunStatus)
      (error : Option String)
  | settle (ending : Ending) (write : StoreWrite)
  | delete (ending : Ending)

/-- What may happen next.  An execution that has ended clears the mark, and then stores its job,
disables it or deletes it, as the copy it was given says. -/
inductive CronStep : CronState → CronEvent → CronState → Prop
  | start {s : CronState} {now : ℕ} : CronStep s (.start now) (s.start cron now)
  | tick {s : CronState} {now : ℕ} : CronStep s (.tick now) (s.tick now)
  | clearStuck {s : CronState} {now : ℕ} : CronStep s (.clearStuck now) (s.clearStuck now)
  | add {s : CronState} {id : String} {create : CronJobCreate} {now : ℕ} {job : CronJob} :
      s.Fresh id → CronState.addedJob cron create now = .ok job →
      CronStep s (.add id create now)
        { s with store := s.store.insert id job, jobs := s.jobs.insert id job }
  | update {s : CronState} {id : String} {patch : CronJobPatch} {now : ℕ} {write : StoreWrite}
      {job : CronJob} :
      s.jobs[id]? = some job →
      CronStep s (.update id patch now write) (s.update cron id job patch now write).1
  | refuse {s : CronState} {write : StoreWrite} :
      write ≠ .written → CronStep s (.refuse write) (s.unwritten write)
  | removeStored {s : CronState} {id : String} :
      s.store.contains id = true →
      CronStep s (.removeStored id)
        { s with store := s.store.erase id, removing := id :: s.removing }
  | remove {s : CronState} {id : String} :
      id ∈ s.removing →
      CronStep s (.remove id) { s with jobs := s.jobs.erase id, removing := s.removing.erase id }
  | request {s : CronState} {id : String} {force : Bool} {job : CronJob} :
      s.jobs[id]? = some job → job.enabled = true ∨ force = true →
      CronStep s (.request id force) { s with requested := (id, job) :: s.requested }
  | mark {s : CronState} {id : String} {job : CronJob} {now : ℕ} :
      (id, job) ∈ s.requested →
      CronStep s (.mark id now) ((s.mark id now).execute id job now)
  | finish {s : CronState} {execution : Execution} {before after : List Execution}
      {started finishedAt now : ℕ} {status : RunStatus} {error : Option String} :
      s.executions = before ++ execution :: after →
      CronStep s (.finish execution started finishedAt now status error)
        (s.finish cron execution (before ++ after) started finishedAt now status error)
  | store {s : CronState} {ending : Ending} {write : StoreWrite} {job : CronJob} :
      ending ∈ s.ending → ending.next.isSome = true → s.jobs[ending.id]? = some job →
      CronStep s (.settle ending write) ((s.persist ending.id job write).settled ending)
  | disable {s : CronState} {ending : Ending} {write : StoreWrite} {job : CronJob} :
      ending ∈ s.ending → ending.next = none → ending.job.deleteAfterRun = false →
      s.jobs[ending.id]? = some job →
      CronStep s (.settle ending write) ((s.disable ending.id job write).settled ending)
  | gone {s : CronState} {ending : Ending} {write : StoreWrite} :
      ending ∈ s.ending → ending.next.isSome = true ∨ ending.job.deleteAfterRun = false →
      s.jobs[ending.id]? = none →
      CronStep s (.settle ending write) (s.settled ending)
  | deleteStored {s : CronState} {ending : Ending} :
      ending ∈ s.ending → ending.next = none → ending.job.deleteAfterRun = true →
      s.store.contains ending.id = true →
      CronStep s (.settle ending .written)
        { s.settled ending with
          store := s.store.erase ending.id
          deleting := ending :: s.deleting }
  | notDeleted {s : CronState} {ending : Ending} {write : StoreWrite} :
      ending ∈ s.ending → ending.next = none → ending.job.deleteAfterRun = true →
      write ≠ .written ∨ s.store.contains ending.id = false →
      CronStep s (.settle ending write)
        ((if s.store.contains ending.id then s.unwritten write else s).settled ending)
  | delete {s : CronState} {ending : Ending} :
      ending ∈ s.deleting →
      CronStep s (.delete ending)
        { s with jobs := s.jobs.erase ending.id, deleting := s.deleting.erase ending }

end Schedules

end Chelix.Cron
