import Chelix.Cron.RunningMarks

/-!
# The passes of the timer

The timer loop sleeps until the earliest next run of an enabled job and then executes the jobs that
are due.  A job that runs is not due, and its next run stays in the past until it has ended.
-/

namespace Chelix.Cron

open Chelix.Library

/-- An enabled job whose next run is not in the future. -/
def CronJob.overdue (job : CronJob) (now : ℕ) : Bool :=
  job.enabled && job.state.nextRunAtMs.any (· ≤ now)

namespace CronState

/-- How long the next run of each enabled job is away. -/
def waits (s : CronState) (now : ℕ) : List ℕ :=
  (((s.jobs.toList.map Prod.snd).filter CronJob.enabled).filterMap
    fun job => job.state.nextRunAtMs).map fun next => next - now

/-- Without jobs the loop polls every minute. -/
def msUntilNextWake (s : CronState) (now : ℕ) : ℕ := (s.waits now).min?.getD 60000

def dueJobs (s : CronState) (now : ℕ) : List (String × CronJob) :=
  s.jobs.toList.filter fun entry => entry.2.due now

/-- The loop sleeps before a pass that begins nothing. -/
def SleepsWhenIdle (s : CronState) (now : ℕ) : Prop :=
  s.dueJobs now = [] → 0 < s.msUntilNextWake now

/-- No overdue job is marked as running, unless some job is due. -/
def CanBegin (s : CronState) (now : ℕ) : Prop :=
  s.dueJobs now ≠ [] ∨
    ∀ (id : String) (job : CronJob), s.jobs[id]? = some job → job.overdue now = true →
      job.state.runningAtMs = none

variable {s : CronState} {now : ℕ}

theorem mem_dueJobs {entry : String × CronJob} :
    entry ∈ s.dueJobs now ↔ s.jobs[entry.1]? = some entry.2 ∧ entry.2.due now = true := by
  rw [dueJobs, List.mem_filter]
  exact and_congr_left' OrderedMap.mem_toList

theorem due_iff (job : CronJob) :
    job.due now = true ↔ job.overdue now = true ∧ job.state.runningAtMs = none := by
  unfold CronJob.due CronJob.overdue
  rw [Bool.and_eq_true, Option.isNone_iff_eq_none]

theorem mem_waits {wait : ℕ} : wait ∈ s.waits now ↔
    ∃ (id : String) (job : CronJob) (next : ℕ), s.jobs[id]? = some job ∧ job.enabled = true ∧
      job.state.nextRunAtMs = some next ∧ next - now = wait := by
  simp only [waits, List.mem_map, List.mem_filterMap, List.mem_filter]
  constructor
  · rintro ⟨next, ⟨job, ⟨⟨⟨id, _⟩, hentry, rfl⟩, henabled⟩, hnext⟩, rfl⟩
    exact ⟨id, _, next, OrderedMap.mem_toList.mp hentry, henabled, hnext, rfl⟩
  · rintro ⟨id, job, next, hjob, henabled, hnext, rfl⟩
    exact ⟨next, ⟨job, ⟨⟨(id, job), OrderedMap.mem_toList.mpr hjob, rfl⟩, henabled⟩, hnext⟩, rfl⟩

theorem overdue_iff (job : CronJob) : job.overdue now = true ↔
    job.enabled = true ∧ ∃ next, job.state.nextRunAtMs = some next ∧ next - now = 0 := by
  rw [CronJob.overdue, Bool.and_eq_true, Option.any_eq_true]
  refine and_congr_right fun _ => exists_congr fun next => and_congr_right fun _ => ?_
  rw [decide_eq_true_eq]
  omega

theorem msUntilNextWake_eq_zero_iff :
    s.msUntilNextWake now = 0 ↔
      ∃ (id : String) (job : CronJob), s.jobs[id]? = some job ∧ job.overdue now = true := by
  unfold msUntilNextWake
  constructor
  · intro hzero
    cases hmin : (s.waits now).min? with
    | none =>
      rw [hmin] at hzero
      cases hzero
    | some wait =>
      rw [hmin] at hzero
      obtain rfl : wait = 0 := hzero
      obtain ⟨id, job, next, hjob, henabled, hnext, hwait⟩ := mem_waits.mp (List.min?_mem hmin)
      exact ⟨id, job, hjob, (overdue_iff job).mpr ⟨henabled, next, hnext, hwait⟩⟩
  · rintro ⟨id, job, hjob, hlate⟩
    obtain ⟨henabled, next, hnext, hwait⟩ := (overdue_iff job).mp hlate
    have hzero := mem_waits.mpr ⟨id, job, next, hjob, henabled, hnext, hwait⟩
    cases hmin : (s.waits now).min? with
    | none =>
      rw [List.min?_eq_none_iff.mp hmin] at hzero
      cases hzero
    | some wait => exact Nat.le_zero.mp ((List.le_min?_iff hmin).mp le_rfl _ hzero)

theorem sleepsWhenIdle_iff (s : CronState) (now : ℕ) :
    s.SleepsWhenIdle now ↔ s.CanBegin now := by
  unfold SleepsWhenIdle CanBegin
  rw [Nat.pos_iff_ne_zero, ne_eq, msUntilNextWake_eq_zero_iff]
  constructor
  · intro hsleeps
    refine or_iff_not_imp_left.mpr fun hnone id job hjob hlate => ?_
    exact absurd ⟨id, job, hjob, hlate⟩ (hsleeps (not_not.mp hnone))
  · rintro (hdue | hfree) hnone ⟨id, job, hjob, hlate⟩
    · exact hdue hnone
    · have hmem : (id, job) ∈ s.dueJobs now :=
        mem_dueJobs.mpr ⟨hjob, (due_iff job).mpr ⟨hlate, hfree id job hjob hlate⟩⟩
      rw [hnone] at hmem
      cases hmem

theorem length_executions_tick (s : CronState) (now : ℕ) :
    (s.tick now).executions.length = s.executions.length + (s.dueJobs now).length := by
  show (s.executions ++ (s.dueJobs now).map _).length = _
  rw [List.length_append, List.length_map]

end CronState

/-! ## Runs -/

structure TimerRun where
  state : CronState
  /-- The passes before which the loop did not sleep. -/
  unslept : ℕ
  /-- The executions that passes have begun. -/
  begun : ℕ

namespace TimerRun

def start (store : Jobs) : TimerRun where
  state := .new store
  unslept := 0
  begun := 0

/-- What a step adds to the counts. -/
def after (r : TimerRun) (e : CronEvent) (t : CronState) : TimerRun :=
  match e with
  | .tick now =>
    { state := t
      unslept := r.unslept + if r.state.msUntilNextWake now = 0 then 1 else 0
      begun := r.begun + (t.executions.length - r.state.executions.length) }
  | _ => { r with state := t }

end TimerRun

/-- The loop passes only when it can begin something or no overdue job runs. -/
def Passes (s : CronState) : CronEvent → Prop
  | .tick now => s.CanBegin now
  | _ => True

variable (cron : CronExpressions)

def TimerStep (r : TimerRun) (e : CronEvent) (r' : TimerRun) : Prop :=
  CronStep cron r.state e r'.state ∧ r' = r.after e r'.state

variable {cron}

theorem begun_step {r r' : TimerRun} {e : CronEvent} (h : r.unslept ≤ r.begun)
    (hstep : TimerStep cron r e r') (hpasses : Passes r.state e) : r'.unslept ≤ r'.begun := by
  obtain ⟨hstep, hafter⟩ := hstep
  obtain ⟨t, unslept', begun'⟩ := r'
  obtain ⟨s, unslept, begun⟩ := r
  dsimp only at hstep hafter
  rw [hafter]
  cases hstep with
  | tick =>
    rename_i now
    show unslept + (if s.msUntilNextWake now = 0 then 1 else 0) ≤
      begun + ((s.tick now).executions.length - s.executions.length)
    have hcount : unslept ≤ begun := h
    rw [CronState.length_executions_tick]
    split
    · rename_i hzero
      have hdue : s.dueJobs now ≠ [] := by
        intro hnone
        have hpos := (CronState.sleepsWhenIdle_iff s now).mpr hpasses hnone
        omega
      have hlength := List.length_pos_iff.mpr hdue
      omega
    · omega
  | start | clearStuck | add | update | refuse | removeStored | remove | request | mark | finish
  | store | disable | gone | deleteStored | notDeleted | delete => exact h

/-- **The timer never spins where no overdue job is marked as running**: it sleeps before a pass
that begins nothing exactly then, and in a run of which every pass is such, at least as many
executions begin as there are passes that the loop did not sleep before. -/
theorem timer_never_spins_iff :
    (∀ (s : CronState) (now : ℕ), s.SleepsWhenIdle now ↔ s.CanBegin now) ∧
      ∀ (store : Jobs) (es : List CronEvent) (r : TimerRun),
        Run (fun r e r' => TimerStep cron r e r' ∧ Passes r.state e) (.start store) es r →
        r.unslept ≤ r.begun := by
  refine ⟨CronState.sleepsWhenIdle_iff, fun store es r hrun => ?_⟩
  exact hrun.invariant (P := fun r => r.unslept ≤ r.begun)
    (fun _ _ _ h hstep => begun_step h hstep.1 hstep.2) le_rfl

/-- A process that has loaded the job. -/
def loadedOnce : TimerRun where
  state := (CronState.new (oneJob everyMinute)).start noExpressions 0
  unslept := 0
  begun := 0

theorem timer_never_spins_tickOnce : ∃ r,
    Run (fun r e r' => TimerStep noExpressions r e r' ∧ Passes r.state e)
      (.start (oneJob everyMinute)) tickOnce r ∧ r.unslept = 1 ∧ r.unslept ≤ r.begun := by
  have hdue : loadedOnce.state.dueJobs 60000 ≠ [] := by decide
  have hrun : Run (fun r e r' => TimerStep noExpressions r e r' ∧ Passes r.state e)
      (.start (oneJob everyMinute)) tickOnce
      (loadedOnce.after (.tick 60000) (loadedOnce.state.tick 60000)) :=
    .cons (t := loadedOnce) ⟨⟨.start, rfl⟩, trivial⟩ <| .cons ⟨⟨.tick, rfl⟩, .inl hdue⟩ <| .nil _
  exact ⟨_, hrun, by decide, timer_never_spins_iff.2 _ _ _ hrun⟩

theorem timer_spins_while_running : ∃ s,
    Run (CronStep noExpressions) (.new (oneJob everyMinute)) tickOnce s ∧
      s.dueJobs 60001 = [] ∧ s.msUntilNextWake 60001 = 0 := by
  refine ⟨_, .cons .start <| .cons .tick <| .nil _, ?_, ?_⟩
  · decide
  · decide

end Chelix.Cron
