import Chelix.Cron.RunningMarks

/-!
# Refused updates of a job

An update changes the live job field by field before it checks the job, computes its next run and
stores it.  Each of the three can refuse what is already changed.
-/

namespace Chelix.Cron

open Chelix.Library

variable (cron : CronExpressions)

namespace CronState

/-- An update of the job with an id, if there is one. -/
def updateJob (s : CronState) (id : String) (patch : CronJobPatch) (now : ℕ)
    (write : StoreWrite) : CronState × Bool :=
  match s.jobs[id]? with
  | none => (s, false)
  | some job => s.update cron id job patch now write

/-- What memory and the store hold stays as it was. -/
structure SameJobs (s t : CronState) : Prop where
  jobs : t.jobs = s.jobs
  store : t.store = s.store

end CronState

/-- A patch that is refused by the check of the job or by its schedule writes the job it found.
One that the store refuses also leaves the next run, and the store does not lose its jobs: it has
none of that id, or the write does not fail between the two moves of the file. -/
def KeepsJob (job : CronJob) (patch : CronJobPatch) (now : ℕ) (known : Bool) (write : StoreWrite) :
    Prop :=
  match validateJobSpec (job.patched patch now) with
  | .error _ => job.patched patch now = job
  | .ok () =>
    match (job.patched patch now).rescheduled cron now with
    | .error _ => job.patched patch now = job
    | .ok updated => match known, write with
        | true, .written => True
        | true, .emptied => False
        | true, .failed | false, _ => updated = job

variable {cron}

theorem insert_eq_iff {jobs : Jobs} {id : String} {job updated : CronJob}
    (hjob : jobs[id]? = some job) : jobs.insert id updated = jobs ↔ updated = job := by
  constructor
  · intro heq
    have hget : (jobs.insert id updated)[id]? = some updated := OrderedMap.get_insert_self ..
    rw [heq, hjob] at hget
    exact (Option.some.inj hget).symm
  · rintro rfl
    refine OrderedMap.ext fun other => ?_
    rw [OrderedMap.get_insert]
    split
    · rename_i hother
      rw [← hother, hjob]
    · rfl

theorem sameJobs_persist_iff {s : CronState} {id : String} {job updated : CronJob}
    (hjob : s.jobs[id]? = some job) (write : StoreWrite) :
    ((write = .written && s.store.contains id) = false →
        s.SameJobs (CronState.persist { s with jobs := s.jobs.insert id updated } id updated write)) ↔
      match s.store.contains id, write with
      | true, .written => True
      | true, .emptied => False
      | true, .failed | false, _ => updated = job := by
  have hsame : s.SameJobs { s with jobs := s.jobs.insert id updated } ↔ updated = job :=
    ⟨fun h => (insert_eq_iff hjob).mp h.jobs, fun h => ⟨(insert_eq_iff hjob).mpr h, rfl⟩⟩
  unfold CronState.persist
  cases hknown : s.store.contains id with
  | false =>
    rw [if_neg Bool.false_ne_true, hsame, Bool.and_false]
    exact ⟨fun h => h rfl, fun h _ => h⟩
  | true =>
    rw [if_pos rfl]
    cases write with
    | written => exact iff_of_true (fun h => nomatch h) trivial
    | failed =>
      refine Iff.trans ?_ hsame
      exact ⟨fun h => h rfl, fun h _ => h⟩
    | emptied =>
      -- the job was there and is gone
      refine iff_of_false (fun h => ?_) not_false
      have hstore : ∅ = s.store := (h rfl).store
      rw [← hstore, Std.ExtTreeMap.contains_empty] at hknown
      cases hknown

/-- **A refused update changes nothing** exactly if the id is unknown, or the job that it writes is
the one it found and the store does not lose its jobs. -/
theorem refused_update_unchanged_iff (s : CronState) (id : String) (patch : CronJobPatch)
    (now : ℕ) (write : StoreWrite) :
    ((s.updateJob cron id patch now write).2 = false →
        s.SameJobs (s.updateJob cron id patch now write).1) ↔
      ∀ job, s.jobs[id]? = some job →
        KeepsJob cron job patch now (s.store.contains id) write := by
  cases hjob : s.jobs[id]? with
  | none =>
    rw [CronState.updateJob, hjob]
    constructor
    · intro _ job h
      cases h
    · intro _ _
      exact ⟨rfl, rfl⟩
  | some job =>
    have hupdate : s.updateJob cron id patch now write = s.update cron id job patch now write := by
      rw [CronState.updateJob, hjob]
    have hforall : (∀ job', some job = some job' →
        KeepsJob cron job' patch now (s.store.contains id) write) ↔
          KeepsJob cron job patch now (s.store.contains id) write :=
      ⟨fun h => h job rfl, fun h _ heq => Option.some.inj heq ▸ h⟩
    have hsame : ∀ updated : CronJob,
        s.SameJobs { s with jobs := s.jobs.insert id updated } ↔ updated = job := fun updated =>
      ⟨fun h => (insert_eq_iff hjob).mp h.jobs, fun h => ⟨(insert_eq_iff hjob).mpr h, rfl⟩⟩
    rw [hupdate, hforall, CronState.update, CronState.updatedJob, KeepsJob]
    cases validateJobSpec (job.patched patch now) with
    | error e =>
      dsimp only
      rw [hsame]
      exact ⟨fun h => h rfl, fun h _ => h⟩
    | ok u =>
      dsimp only
      cases (job.patched patch now).rescheduled cron now with
      | error e =>
        dsimp only
        rw [hsame]
        exact ⟨fun h => h rfl, fun h _ => h⟩
      -- The job is in memory when the store is asked.
      | ok updated => exact sameJobs_persist_iff hjob write

/-! ## A patch that does not fit its target -/

/-- A new target for a payload that it does not take, and a new name. -/
def isolatePatch : CronJobPatch where
  name := some "renamed"
  schedule := none
  payload := none
  sessionTarget := some .isolated
  enabled := none
  deleteAfterRun := none
  autoPruneContainer := none

def loadedReport : CronState := { CronState.new (oneJob everyMinute) with jobs := oneJob everyMinute }

theorem refused_update_renames :
    (loadedReport.updateJob noExpressions "job" isolatePatch 1 .written).2 = false ∧
      (loadedReport.updateJob noExpressions "job" isolatePatch 1 .written).1.jobs["job"]? =
        some { everyMinute with
          name := "renamed"
          sessionTarget := .isolated
          updatedAtMs := 1 } ∧
      ¬loadedReport.SameJobs
        (loadedReport.updateJob noExpressions "job" isolatePatch 1 .written).1 := by
  refine ⟨by decide, by decide, fun hsame => ?_⟩
  have hjob := congrArg (fun jobs : Jobs => jobs["job"]?) hsame.jobs
  exact absurd hjob (by decide)

end Chelix.Cron
