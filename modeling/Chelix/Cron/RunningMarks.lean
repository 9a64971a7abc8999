import Chelix.Cron.Service
import Chelix.Library.Run

/-!
# A job is marked while it runs

The timer loop marks a job and begins its execution in one section, and only if it is not marked.
A call that runs a job marks it without looking, and a start takes over the marks of the store,
which may be those of a process that is gone.
-/

namespace Chelix.Cron

open Chelix.Library List OrderedMap CronState

/-- No execution is older than two hours when the marks that are too old are cleared. -/
def Prompt (s : CronState) : CronEvent → Prop
  | .clearStuck now => ∀ execution ∈ s.executions, now - execution.markedAt ≤ stuckThresholdMs
  | _ => True

/-- A step that neither marks a marked job nor loads one. -/
def KeepsMarks (s : CronState) : CronEvent → Prop
  | .start _ => ∀ (id : String) (job : CronJob), s.store[id]? = some job →
      job.state.runningAtMs = none
  | .mark id _ => ∀ job, s.jobs[id]? = some job → job.state.runningAtMs = none
  | _ => True

/-- The executions of a job that are in flight. -/
def CronState.running (s : CronState) (id : String) : List Execution :=
  s.executions.filter fun execution => execution.id = id

/-- The mark of each job is that of its only execution; a job without one is not marked. -/
def Marked (s : CronState) : Prop :=
  ∀ (id : String) (job : CronJob), s.jobs[id]? = some job →
    (s.running id).map Execution.markedAt = job.state.runningAtMs.toList

theorem get_modifyJob (jobs : Jobs) (id id' : String) (f : CronJob → CronJob) :
    (modifyJob jobs id f)[id']? = if id = id' then jobs[id']?.map f else jobs[id']? := by
  unfold modifyJob
  by_cases hid : id = id'
  · subst hid
    rw [if_pos rfl]
    cases hjob : jobs[id]? with
    | some job => exact get_insert_self jobs id (f job)
    | none => exact hjob
  · rw [if_neg hid]
    cases jobs[id]? with
    | some job => exact get_insert_of_ne jobs hid (f job)
    | none => rfl

section Marked

variable {cron : CronExpressions} {s t : CronState}

theorem Marked.frame (h : Marked s) (hexecutions : t.executions = s.executions)
    (hjobs : ∀ (id : String) (job' : CronJob), t.jobs[id]? = some job' →
      ∃ job, s.jobs[id]? = some job ∧ job'.state.runningAtMs = job.state.runningAtMs) :
    Marked t := by
  intro id job' hjob'
  obtain ⟨job, hjob, hmark⟩ := hjobs id job' hjob'
  unfold running
  rw [hexecutions, hmark]
  exact h id job hjob

variable {id : String}

theorem filter_due (jobs : Jobs) (p : CronJob → Bool) (f : String × CronJob → Execution)
    (hf : ∀ entry, (f entry).id = entry.1) {job : CronJob} (hjob : jobs[id]? = some job) :
    ((jobs.toList.filter fun entry => p entry.2).map f).filter (fun execution =>
      execution.id = id) = if p job then [f (id, job)] else [] := by
  have hnodup : (jobs.toList.map Prod.fst).Nodup := by
    rw [List.Nodup, pairwise_map]
    exact (pairwise_toList jobs).imp fun h => h.ne
  have hone : jobs.toList.filter (fun entry => entry.1 = id) = [(id, job)] := by
    refine perm_singleton.mp ((perm_ext_iff_of_nodup ?_ (nodup_singleton _)).mpr
      fun entry => ?_)
    · exact (List.Nodup.of_map _ hnodup).filter _
    · obtain ⟨id', job'⟩ := entry
      rw [mem_filter, mem_singleton, mem_toList, Prod.mk.injEq]
      simp only [decide_eq_true_eq]
      constructor
      · rintro ⟨hget, rfl⟩
        rw [hjob] at hget
        exact ⟨rfl, (Option.some.inj hget).symm⟩
      · rintro ⟨rfl, rfl⟩
        exact ⟨hjob, rfl⟩
  rw [filter_map, filter_filter]
  have hcomm : (jobs.toList.filter fun entry =>
      (((fun execution : Execution => decide (execution.id = id)) ∘ f) entry) && p entry.2) =
      (jobs.toList.filter fun entry => entry.1 = id).filter fun entry => p entry.2 := by
    rw [filter_filter]
    refine filter_congr fun entry _ => ?_
    rw [Function.comp_apply, hf, Bool.and_comm]
  rw [hcomm, hone]
  cases hp : p job with
  | true | false => simp [hp]

theorem marked_tick (h : Marked s) (now : ℕ) : Marked (s.tick now) := by
  intro id job' hjob'
  unfold tick at hjob'
  rw [get_map] at hjob'
  obtain ⟨job, hjob, rfl⟩ := Option.map_eq_some_iff.mp hjob'
  have hmarks := h id job hjob
  unfold running tick
  rw [filter_append, map_append, filter_due s.jobs (fun job => job.due now) _
    (fun _ => rfl) hjob]
  unfold running at hmarks
  rw [hmarks]
  cases hdue : job.due now with
  | true =>
    have hnone : job.state.runningAtMs = none := by
      unfold CronJob.due at hdue
      simp only [Bool.and_eq_true, Option.isNone_iff_eq_none] at hdue
      exact hdue.2
    rw [hnone]
    rfl
  | false => simp

variable {now : ℕ}

theorem marked_clearStuck (h : Marked s)
    (hprompt : ∀ execution ∈ s.executions, now - execution.markedAt ≤ stuckThresholdMs) :
    Marked (s.clearStuck now) := by
  refine h.frame rfl fun id job' hjob' => ?_
  unfold clearStuck at hjob'
  rw [get_map] at hjob'
  obtain ⟨job, hjob, rfl⟩ := Option.map_eq_some_iff.mp hjob'
  refine ⟨job, hjob, ?_⟩
  unfold CronJob.unstuck
  cases hmark : job.state.runningAtMs with
  | none => exact hmark
  | some runningAt =>
    have hmarks := h id job hjob
    rw [hmark] at hmarks
    have hmem : runningAt ∈ (s.running id).map Execution.markedAt := by
      rw [hmarks]
      exact mem_singleton.mpr rfl
    obtain ⟨execution, hexecution, rfl⟩ := mem_map.mp hmem
    have hle := hprompt execution (mem_of_mem_filter hexecution)
    simp only
    rw [if_neg (by omega)]
    exact hmark

theorem runningAtMs_updatedJob (job : CronJob) (patch : CronJobPatch) (now : ℕ) :
    (updatedJob cron job patch now).1.state.runningAtMs = job.state.runningAtMs := by
  unfold updatedJob
  cases validateJobSpec (job.patched patch now) with
  | error e => rfl
  | ok u =>
    simp only
    cases hnext : (job.patched patch now).rescheduled cron now with
    | error e => rfl
    | ok updated =>
      unfold CronJob.rescheduled at hnext
      split at hnext
      · obtain ⟨next, -, hupdated⟩ := bind_eq_ok.mp hnext
        obtain rfl := Except.ok.inj hupdated
        rfl
      · obtain rfl := Except.ok.inj hnext
        rfl

theorem frame_unwritten (s : CronState) (write : StoreWrite) :
    (s.unwritten write).jobs = s.jobs ∧ (s.unwritten write).executions = s.executions ∧
      (s.unwritten write).ending = s.ending ∧ (s.unwritten write).deleting = s.deleting := by
  cases write <;> exact ⟨rfl, rfl, rfl, rfl⟩

@[simp] theorem jobs_persist (s : CronState) (id : String) (job : CronJob) (write : StoreWrite) :
    (s.persist id job write).jobs = s.jobs := by
  unfold persist
  split
  · split
    · rfl
    · exact (frame_unwritten s write).1
  · rfl

@[simp] theorem executions_persist (s : CronState) (id : String) (job : CronJob) (write : StoreWrite) :
    (s.persist id job write).executions = s.executions := by
  unfold persist
  split
  · split
    · rfl
    · exact (frame_unwritten s write).2.1
  · rfl

theorem frame_notDeleted (s : CronState) (ending : Ending) (write : StoreWrite) :
    let t := (if s.store.contains ending.id then s.unwritten write else s).settled ending
    t.jobs = s.jobs ∧ t.executions = s.executions ∧ t.ending = s.ending.erase ending ∧
      t.deleting = s.deleting := by
  cases write <;> cases s.store.contains ending.id <;> exact ⟨rfl, rfl, rfl, rfl⟩

/-- An update, refused or not, changes its job only. -/
theorem update_fst (s : CronState) (id : String) (job : CronJob) (patch : CronJobPatch) (now : ℕ)
    (write : StoreWrite) :
    (s.update cron id job patch now write).1.jobs =
      s.jobs.insert id (updatedJob cron job patch now).1 ∧
    (s.update cron id job patch now write).1.executions = s.executions := by
  unfold update
  obtain ⟨updated, result⟩ := updatedJob cron job patch now
  cases result with
  | error e => exact ⟨rfl, rfl⟩
  | ok u => exact ⟨jobs_persist .., executions_persist ..⟩

theorem Marked.insert (h : Marked s) {job job' : CronJob} (hjob : s.jobs[id]? = some job)
    (hmark : job'.state.runningAtMs = job.state.runningAtMs)
    (hjobs : t.jobs = s.jobs.insert id job') (hexecutions : t.executions = s.executions) :
    Marked t := by
  refine h.frame hexecutions fun id' found hfound => ?_
  rw [hjobs, get_insert] at hfound
  split at hfound
  · rename_i heq
    subst heq
    obtain rfl := Option.some.inj hfound
    exact ⟨job, hjob, hmark⟩
  · exact ⟨found, hfound, rfl⟩

theorem Marked.erase (h : Marked s) (hjobs : t.jobs = s.jobs.erase id)
    (hexecutions : t.executions = s.executions) : Marked t := by
  refine h.frame hexecutions fun id' found hfound => ⟨found, ?_, rfl⟩
  rw [hjobs, Std.ExtTreeMap.getElem?_erase] at hfound
  split at hfound
  · cases hfound
  · exact hfound

theorem marked_mark (h : Marked s) {copy : CronJob}
    (hfree : ∀ job, s.jobs[id]? = some job → job.state.runningAtMs = none) :
    Marked ((s.mark id now).execute id copy now) := by
  intro id' job' hjob'
  change (modifyJob s.jobs id fun job => job.setRunning (some now))[id']? = some job' at hjob'
  unfold running execute mark
  simp only [filter_append, map_append]
  rw [get_modifyJob] at hjob'
  by_cases hid : id = id'
  · subst hid
    rw [if_pos rfl] at hjob'
    obtain ⟨job, hjob, rfl⟩ := Option.map_eq_some_iff.mp hjob'
    have hmarks := h id job hjob
    rw [hfree job hjob] at hmarks
    unfold running at hmarks
    rw [hmarks]
    simp [CronJob.setRunning]
  · rw [if_neg hid] at hjob'
    have hmarks := h id' job' hjob'
    unfold running at hmarks
    rw [hmarks]
    simp [hid]

theorem marked_finish (h : Marked s) {execution : Execution} {before after : List Execution}
    {started finishedAt : ℕ} {status : RunStatus} {error : Option String}
    (hexecutions : s.executions = before ++ execution :: after) :
    Marked (s.finish cron execution (before ++ after) started finishedAt now status error) := by
  intro id job' hjob'
  unfold finish at hjob'
  rw [get_modifyJob] at hjob'
  unfold running finish
  rw [filter_append, map_append]
  by_cases hid : execution.id = id
  · subst hid
    rw [if_pos rfl] at hjob'
    obtain ⟨job, hjob, rfl⟩ := Option.map_eq_some_iff.mp hjob'
    have hmarks := h execution.id job hjob
    unfold running at hmarks
    rw [hexecutions, filter_append, filter_cons_of_pos (by simp), map_append,
      map_cons] at hmarks
    have hlen := congrArg List.length hmarks
    have hle : job.state.runningAtMs.toList.length ≤ 1 := by
      cases job.state.runningAtMs <;> simp
    simp only [length_append, length_cons] at hlen
    have hbefore : (List.map Execution.markedAt
        (before.filter fun e => e.id = execution.id)) = [] :=
      length_eq_zero_iff.mp (by omega)
    have hafter : (List.map Execution.markedAt
        (after.filter fun e => e.id = execution.id)) = [] :=
      length_eq_zero_iff.mp (by omega)
    rw [hbefore, hafter]
    rfl
  · rw [if_neg hid] at hjob'
    have hmarks := h id job' hjob'
    unfold running at hmarks
    rw [hexecutions, filter_append, filter_cons_of_neg (by simpa using hid),
      map_append] at hmarks
    exact hmarks

/-- **One step keeps the marks**, if it neither marks a marked job nor loads one. -/
theorem marked_step {e : CronEvent} (h : Marked s) (hstep : CronStep cron s e t)
    (hprompt : Prompt s e) (hkeeps : KeepsMarks s e) : Marked t := by
  cases hstep with
  | @start now =>
    intro id job' hjob'
    unfold start at hjob'
    rw [get_map] at hjob'
    obtain ⟨job, hjob, rfl⟩ := Option.map_eq_some_iff.mp hjob'
    have hmark : (job.recomputed cron now).state.runningAtMs = job.state.runningAtMs := by
      unfold CronJob.recomputed
      split <;> rfl
    rw [hmark, hkeeps id job hjob]
    rfl
  | @tick now => exact marked_tick h now
  | clearStuck => exact marked_clearStuck h hprompt
  | @add id create now job hfresh hadded =>
    intro id' job' hjob'
    rw [get_insert] at hjob'
    split at hjob'
    · rename_i heq
      subst heq
      obtain rfl := Option.some.inj hjob'
      have hmark : job.state.runningAtMs = none := by
        unfold addedJob at hadded
        obtain ⟨_, -, hadded⟩ := bind_eq_ok.mp hadded
        split at hadded
        · obtain ⟨next, -, hjob⟩ := bind_eq_ok.mp hadded
          obtain rfl := Except.ok.inj hjob
          rfl
        · obtain rfl := Except.ok.inj hadded
          rfl
      have hnone : s.running id = [] := filter_eq_nil_iff.mpr fun execution hexecution => by
        simpa using hfresh.executions execution hexecution
      rw [hmark]
      exact congrArg (List.map Execution.markedAt) hnone
    · exact h id' job' hjob'
  | update hjob =>
    obtain ⟨hjobs, hexecutions⟩ := update_fst s _ _ _ _ _
    exact h.insert hjob (runningAtMs_updatedJob _ _ _) hjobs hexecutions
  | removeStored _ | request _ _ | gone _ _ _ | deleteStored _ _ _ _ =>
    exact h.frame rfl fun _ job hjob => ⟨job, hjob, rfl⟩
  | @refuse write _ =>
    obtain ⟨hjobs, hexecutions, -⟩ := frame_unwritten s write
    exact h.frame hexecutions fun _ job hjob => ⟨job, hjobs ▸ hjob, rfl⟩
  | @notDeleted ending write _ _ _ _ =>
    obtain ⟨hjobs, hexecutions, -⟩ := frame_notDeleted s ending write
    exact h.frame hexecutions fun _ job hjob => ⟨job, hjobs ▸ hjob, rfl⟩
  | remove _ | delete _ => exact h.erase rfl rfl
  | mark _ => exact marked_mark h hkeeps
  | finish hexecutions => exact marked_finish h hexecutions
  | store _ _ _ =>
    refine h.frame (executions_persist ..) fun id job hjob => ⟨job, ?_, rfl⟩
    exact (congrArg (fun jobs : Jobs => jobs[id]?) (jobs_persist ..)).symm.trans hjob
  | @disable ending write job _ _ _ hjob =>
    have hjobs : ((s.disable ending.id job write).settled ending).jobs =
        s.jobs.insert ending.id { job with enabled := false } := jobs_persist ..
    have hmark : ({ job with enabled := false } : CronJob).state.runningAtMs =
        job.state.runningAtMs := rfl
    exact h.insert hjob hmark hjobs (executions_persist ..)

/-- **A job is marked if and only if it runs**, and runs once, over every run in which no execution
is two hours old when marks are cleared and no step marks a marked job or loads one. -/
theorem marked_iff_running {store : Jobs} {es : List CronEvent}
    (hrun : Run (fun s e t => CronStep cron s e t ∧ Prompt s e ∧ KeepsMarks s e) (.new store) es s)
    {id : String} {job : CronJob} (hjob : s.jobs[id]? = some job) :
    (s.running id).length ≤ 1 ∧
      (job.state.runningAtMs.isSome = true ↔ ∃ execution ∈ s.executions, execution.id = id) := by
  have h : Marked s := by
    refine Run.invariant (P := Marked)
      (fun s e t hs hstep => marked_step hs hstep.1 hstep.2.1 hstep.2.2) hrun ?_
    intro id job hjob
    rw [show (CronState.new store).jobs[id]? = none from Std.ExtTreeMap.getElem?_empty] at hjob
    cases hjob
  have hmarks := h id job hjob
  have hlen := congrArg List.length hmarks
  rw [List.length_map] at hlen
  have hmem : (∃ execution ∈ s.executions, execution.id = id) ↔ s.running id ≠ [] := by
    unfold CronState.running
    rw [ne_eq, List.filter_eq_nil_iff]
    push Not
    simp
  rw [hmem, ← List.length_pos_iff, hlen]
  cases job.state.runningAtMs with
  | none => simp
  | some runningAt => simp

end Marked

/-! ## Two runs -/

/-- A job that is run every minute. -/
def everyMinute : CronJob where
  name := "report"
  enabled := true
  deleteAfterRun := false
  schedule := .every 60000 (some 0)
  payload := .systemEvent "report"
  sessionTarget := .main
  state := .default
  autoPruneContainer := none
  createdAtMs := 0
  updatedAtMs := 0

def noExpressions : CronExpressions := fun expr _ _ =>
  .error ("invalid cron expression '" ++ expr ++ "'")

def oneJob (job : CronJob) : Jobs := (∅ : Jobs).insert "job" job

/-- The execution of the job that the timer or a call begins. -/
def reportExecution (job : CronJob) (markedAt : ℕ) : Execution where
  id := "job"
  job := job
  markedAt := markedAt

/-- The job that the timer marks. -/
def tickedReport : CronJob := (everyMinute.setNextRun (some 60000)).setRunning (some 60000)

/-- The job after the execution. -/
def finishedReport : CronJob := tickedReport.finished 60000 60010 .ok none (some 120000)

/-- The timer begins to run the job. -/
def tickOnce : List CronEvent := [.start 0, .tick 60000]

def runOnce : List CronEvent :=
  tickOnce ++ [.finish (reportExecution tickedReport 60000) 60000 60010 60010 .ok none,
    .settle ⟨"job", tickedReport, some 120000, 60010⟩ .written]

def runAgain : List CronEvent := [.clearStuck 60500, .request "job" false, .mark "job" 61000]

theorem marked_iff_running_runAgain : ∃ s job,
    Run (fun s e t => CronStep noExpressions s e t ∧ Prompt s e ∧ KeepsMarks s e)
      (.new (oneJob everyMinute)) (runOnce ++ runAgain) s ∧ s.jobs["job"]? = some job ∧
    job.state.runningAtMs = some 61000 ∧ (s.running "job").length ≤ 1 ∧
    ∃ execution ∈ s.executions, execution.id = "job" := by
  have honce : ∃ s, Run (fun s e t => CronStep noExpressions s e t ∧ Prompt s e ∧ KeepsMarks s e)
      (.new (oneJob everyMinute)) runOnce s ∧
      s.jobs["job"]? = some finishedReport ∧ s.executions = [] := by
    refine ⟨_, .cons ⟨.start, trivial, fun id job hjob => ?_⟩ <|
      .cons ⟨.tick, trivial, trivial⟩ <|
      .cons ⟨.finish (show _ = [] ++ _ :: [] from rfl), trivial, trivial⟩ <|
      .cons ⟨.store List.mem_cons_self rfl rfl, trivial, trivial⟩ <| .nil _, ?_, rfl⟩
    · change (oneJob everyMinute)[id]? = some job at hjob
      unfold oneJob at hjob
      rw [OrderedMap.get_insert] at hjob
      split at hjob
      · obtain rfl := Option.some.inj hjob
        rfl
      · rw [Std.ExtTreeMap.getElem?_empty] at hjob
        cases hjob
    · rfl
  obtain ⟨s, honce, hjob, hnone⟩ := honce
  have hprompt : Prompt s (.clearStuck 60500) := by
    rw [Prompt, hnone]
    exact List.forall_mem_nil _
  have hclear : CronStep noExpressions s (.clearStuck 60500) (s.clearStuck 60500) := .clearStuck
  have hunstuck : (s.clearStuck 60500).jobs["job"]? = some finishedReport := by
    unfold clearStuck
    rw [OrderedMap.get_map, hjob]
    rfl
  generalize s.clearStuck 60500 = c at hclear hunstuck
  have hrequest : CronStep noExpressions c (.request "job" false)
      { c with requested := ("job", finishedReport) :: c.requested } :=
    .request hunstuck (.inl rfl)
  have hfree : ∀ job, c.jobs["job"]? = some job → job.state.runningAtMs = none := by
    intro job hfound
    rw [← Option.some.inj (hunstuck.symm.trans hfound)]
    rfl
  have hmark : (modifyJob c.jobs "job" fun job => job.setRunning (some 61000))["job"]? =
      some (finishedReport.setRunning (some 61000)) := by
    rw [get_modifyJob, if_pos rfl, hunstuck]
    rfl
  have hrun : Run (fun s e t => CronStep noExpressions s e t ∧ Prompt s e ∧ KeepsMarks s e)
      (.new (oneJob everyMinute)) (runOnce ++ runAgain) _ :=
    honce.append (.cons ⟨hclear, hprompt, trivial⟩ (.cons ⟨hrequest, trivial, trivial⟩
      (.cons ⟨.mark List.mem_cons_self, trivial, hfree⟩ (.nil _))))
  obtain ⟨hone, hiff⟩ := marked_iff_running hrun hmark
  exact ⟨_, _, hrun, hmark, rfl, hone, hiff.mp rfl⟩

/-- A call runs the job while the timer runs it. -/
def runTwice : List CronEvent :=
  [.start 0, .tick 60000, .request "job" true, .mark "job" 60001]

theorem running_twice_runTwice : ∃ s,
    Run (CronStep noExpressions) (.new (oneJob everyMinute)) runTwice s ∧
    s.jobs["job"]?.isSome = true ∧ (s.running "job").length = 2 := by
  refine ⟨_, .cons .start <| .cons .tick <| .cons (.request rfl (.inl rfl)) <|
    .cons (.mark List.mem_cons_self) <| .nil _, ?_, ?_⟩
  · rfl
  · rfl

end Chelix.Cron
