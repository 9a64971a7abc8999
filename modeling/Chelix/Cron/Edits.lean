import Chelix.Cron.RunningMarks

/-!
# Edits made while a job is executed

An execution ends with the copy of its job that it was given: the next run, the disabling and the
deletion of the job are those of the copy, whatever an update has set meanwhile.
-/

namespace Chelix.Cron

open Chelix.Library List

/-- What an update sets of a job and an execution must heed. -/
structure Settings where
  schedule : CronSchedule
  deleteAfterRun : Bool
  enabled : Bool

def CronJob.settings (job : CronJob) : Settings where
  schedule := job.schedule
  deleteAfterRun := job.deleteAfterRun
  enabled := job.enabled

def CronJobCreate.settings (create : CronJobCreate) : Settings where
  schedule := create.schedule
  deleteAfterRun := create.deleteAfterRun
  enabled := create.enabled

/-- The scheduler with the settings that each job was last given, the times at which executions
of the jobs ended and next runs were computed, and the jobs that were removed by a call. -/
structure CronRun where
  state : CronState
  lastSet : String → Option Settings
  ended : List (String × ℕ)
  computed : List (String × ℕ)
  removed : List String

section Edits

variable (cron : CronExpressions)

namespace CronRun

def start (store : Jobs) : CronRun where
  state := .new store
  lastSet _ := none
  ended := []
  computed := []
  removed := []

/-- Whether an update is accepted. -/
def accepts (s : CronRun) (id : String) (patch : CronJobPatch) (now : ℕ) (write : StoreWrite) : Bool :=
  match s.state.jobs[id]? with
  | some job => (s.state.update cron id job patch now write).2
  | none => false

/-- What is recorded of a step to some state. -/
def after (s : CronRun) (e : CronEvent) (t : CronState) : CronRun :=
  match e with
  | .start _ =>
    { start t.store with state := t, lastSet := fun id => t.jobs[id]?.map CronJob.settings }
  | .add id create now => { s with
      state := t
      lastSet := Function.update s.lastSet id (some create.settings)
      computed := (id, now) :: s.computed }
  | .update id patch now write => { s with
      state := t
      lastSet :=
        if s.accepts cron id patch now write then
          Function.update s.lastSet id
            (s.state.jobs[id]?.map fun job => (job.patched patch now).settings)
        else s.lastSet
      computed := (id, now) :: s.computed }
  | .finish execution _ _ now _ _ => { s with
      state := t
      ended := (execution.id, now) :: s.ended
      computed := (execution.id, now) :: s.computed }
  | .remove id => { s with state := t, removed := id :: s.removed }
  | .tick _ | .clearStuck _ | .refuse _ | .removeStored _ | .request _ _ | .mark _ _ | .settle _ _
  | .delete _ => { s with state := t }

end CronRun

def EditStep (s : CronRun) (e : CronEvent) (t : CronRun) : Prop :=
  CronStep cron s.state e t.state ∧ t = s.after cron e t.state

/-- A step at which an execution that ends says no other thing than its job does.  An update that
is refused leaves the settings as they are. -/
def KeepsEdits (s : CronRun) : CronEvent → Prop
  | .update id patch now write => ∀ job, s.state.jobs[id]? = some job →
      s.accepts cron id patch now write = false →
      (job.patched patch now).settings = job.settings
  | .finish execution _ _ now _ _ => ∀ job, s.state.jobs[execution.id]? = some job →
      (job.enabled = true →
        nextRun cron execution.job.schedule now = nextRun cron job.schedule now) ∧
      ∀ settings, s.lastSet execution.id = some settings → settings.enabled = false →
        nextRun cron execution.job.schedule now = none
  | .settle ending _ => ∀ job, s.state.jobs[ending.id]? = some job → ending.next = none →
      ending.job.deleteAfterRun = false → job.enabled = true →
      ending.next = nextRun cron job.schedule ending.now
  | .delete ending => ∀ job, s.state.jobs[ending.id]? = some job →
      ending.job.deleteAfterRun = job.deleteAfterRun ∧
      ending.next = nextRun cron job.schedule ending.now
  | _ => True

/-- The copy of an execution says that its job is to be deleted. -/
def Ending.Deletes (ending : Ending) : Prop :=
  ending.next = none ∧ ending.job.deleteAfterRun = true

/-- The last settings of a job have no next run at the end of an execution. -/
def CronRun.Exhausted (s : CronRun) (id : String) (settings : Settings) : Prop :=
  ∃ now, (id, now) ∈ s.ended ∧ nextRun cron settings.schedule now = none

/-- What was set last of a job: its schedule and flag are the job's; the job is disabled or gone
only if that was set, or if the schedule is exhausted; and once an execution has ended, the next
run is that of the schedule. -/
structure EditedAt (s : CronRun) (id : String) : Prop where
  known : ∀ job, s.state.jobs[id]? = some job → ∃ settings,
    s.lastSet id = some settings ∧ job.schedule = settings.schedule ∧
    job.deleteAfterRun = settings.deleteAfterRun ∧
    (job.enabled = settings.enabled ∨ job.enabled = false ∧ s.Exhausted cron id settings)
  kept : ∀ settings, s.lastSet id = some settings →
    (∃ job, s.state.jobs[id]? = some job) ∨ id ∈ s.removed ∨
      settings.deleteAfterRun = true ∧ s.Exhausted cron id settings
  nextRuns : ∀ job settings, s.state.jobs[id]? = some job → s.lastSet id = some settings →
    (∃ now, (id, now) ∈ s.ended) →
    (job.enabled = true → ∃ now, (id, now) ∈ s.computed ∧
      job.state.nextRunAtMs = nextRun cron settings.schedule now) ∧
    (settings.enabled = false → job.state.nextRunAtMs = none)

/-- The invariant: what was set last is kept for every job, and what has ended is recorded. -/
structure Edited (s : CronRun) : Prop where
  jobs : ∀ id, EditedAt cron s id
  endings : ∀ ending ∈ s.state.ending, (ending.id, ending.now) ∈ s.ended
  deletings : ∀ ending ∈ s.state.deleting, (ending.id, ending.now) ∈ s.ended ∧ ending.Deletes

end Edits

section Steps

variable {cron : CronExpressions} {s r : CronRun} {t : CronState} {id : String}

theorem CronRun.Exhausted.mono {settings : Settings} (h : s.Exhausted cron id settings)
    (hended : ∀ now, (id, now) ∈ s.ended → (id, now) ∈ r.ended) :
    r.Exhausted cron id settings := by
  obtain ⟨now, hmem, hnone⟩ := h
  exact ⟨now, hended now hmem, hnone⟩

variable {job : CronJob}

theorem EditedAt.disabled (h : EditedAt cron s id) {settings : Settings}
    (hjob : s.state.jobs[id]? = some job) (hset : s.lastSet id = some settings)
    (hoff : settings.enabled = false) : job.enabled = false := by
  obtain ⟨settings', hset', -, -, henabled⟩ := h.known job hjob
  obtain rfl := Option.some.inj (hset.symm.trans hset')
  exact henabled.elim (fun heq => heq.trans hoff) And.left

theorem EditedAt.frame (h : EditedAt cron s id) (f : CronJob → CronJob)
    (hjobs : r.state.jobs[id]? = s.state.jobs[id]?.map f)
    (hsettings : ∀ job, s.state.jobs[id]? = some job → (f job).settings = job.settings)
    (hnext : ∀ job, s.state.jobs[id]? = some job →
      (f job).state.nextRunAtMs = job.state.nextRunAtMs)
    (hlast : r.lastSet id = s.lastSet id)
    (hended : ∀ now, (id, now) ∈ r.ended ↔ (id, now) ∈ s.ended)
    (hcomputed : ∀ now, (id, now) ∈ s.computed → (id, now) ∈ r.computed)
    (hremoved : id ∈ s.removed → id ∈ r.removed) : EditedAt cron r id := by
  have hexhausted (settings : Settings) (hover : s.Exhausted cron id settings) :
      r.Exhausted cron id settings := hover.mono fun now => (hended now).mpr
  constructor
  · intro job' hjob'
    rw [hjobs] at hjob'
    obtain ⟨job, hjob, rfl⟩ := Option.map_eq_some_iff.mp hjob'
    obtain ⟨settings, hset, hschedule, hdelete, henabled⟩ := h.known job hjob
    have hsame := hsettings job hjob
    have hs : (f job).schedule = job.schedule := congrArg Settings.schedule hsame
    have hd : (f job).deleteAfterRun = job.deleteAfterRun :=
      congrArg Settings.deleteAfterRun hsame
    have he : (f job).enabled = job.enabled := congrArg Settings.enabled hsame
    refine ⟨settings, hlast.trans hset, hs.trans hschedule, hd.trans hdelete, ?_⟩
    rw [he]
    exact henabled.imp_right (And.imp_right (hexhausted settings))
  · intro settings hset
    rw [hlast] at hset
    rcases h.kept settings hset with ⟨job, hjob⟩ | hgone | ⟨hdelete, hover⟩
    · exact .inl ⟨f job, by rw [hjobs, hjob]; rfl⟩
    · exact .inr (.inl (hremoved hgone))
    · exact .inr (.inr ⟨hdelete, hexhausted settings hover⟩)
  · rintro job' settings hjob' hset ⟨now, hmem⟩
    rw [hjobs] at hjob'
    rw [hlast] at hset
    obtain ⟨job, hjob, rfl⟩ := Option.map_eq_some_iff.mp hjob'
    have he : (f job).enabled = job.enabled := congrArg Settings.enabled (hsettings job hjob)
    obtain ⟨hon, hoff⟩ := h.nextRuns job settings hjob hset ⟨now, (hended now).mp hmem⟩
    rw [he, hnext job hjob]
    refine ⟨fun henabled => ?_, hoff⟩
    obtain ⟨now', hmem', heq⟩ := hon henabled
    exact ⟨now', hcomputed now' hmem', heq⟩

theorem EditedAt.same (h : EditedAt cron s id)
    (hjobs : r.state.jobs[id]? = s.state.jobs[id]?)
    (hlast : r.lastSet id = s.lastSet id)
    (hended : ∀ now, (id, now) ∈ r.ended ↔ (id, now) ∈ s.ended)
    (hcomputed : ∀ now, (id, now) ∈ s.computed → (id, now) ∈ r.computed)
    (hremoved : id ∈ s.removed → id ∈ r.removed) : EditedAt cron r id :=
  h.frame (fun job => job) (by rw [hjobs, Option.map_id']) (fun _ _ => rfl) (fun _ _ => rfl)
    hlast hended hcomputed hremoved

theorem Edited.frame (h : Edited cron s) (f : CronJob → CronJob)
    (hjobs : ∀ id : String, t.jobs[id]? = s.state.jobs[id]?.map f ∨
      t.jobs[id]? = s.state.jobs[id]?)
    (hsettings : ∀ job, (f job).settings = job.settings)
    (hnext : ∀ job, (f job).state.nextRunAtMs = job.state.nextRunAtMs)
    (hending : ∀ ending ∈ t.ending, ending ∈ s.state.ending)
    (hdeleting : ∀ ending ∈ t.deleting, ending ∈ s.state.deleting ∨
      ending ∈ s.state.ending ∧ ending.Deletes) :
    Edited cron { s with state := t } where
  jobs id := by
    rcases hjobs id with hmap | hsame
    · exact (h.jobs id).frame f hmap (fun job _ => hsettings job) (fun job _ => hnext job) rfl
        (fun _ => .rfl) (fun _ h => h) (fun h => h)
    · exact (h.jobs id).same hsame rfl (fun _ => .rfl) (fun _ h => h) (fun h => h)
  endings ending hmem := h.endings ending (hending ending hmem)
  deletings ending hmem := (hdeleting ending hmem).elim (h.deletings ending)
    (And.imp_left (h.endings ending))

theorem Edited.same (h : Edited cron s) (hjobs : t.jobs = s.state.jobs)
    (hending : ∀ ending ∈ t.ending, ending ∈ s.state.ending)
    (hdeleting : ∀ ending ∈ t.deleting, ending ∈ s.state.deleting ∨
      ending ∈ s.state.ending ∧ ending.Deletes) :
    Edited cron { s with state := t } :=
  h.frame (fun job => job) (fun id => .inr (by rw [hjobs])) (fun _ => rfl) (fun _ => rfl)
    hending hdeleting

variable {now : ℕ}

theorem nextRun_of_ok {schedule : CronSchedule} {next : Option ℕ}
    (h : computeNextRun cron schedule now = .ok next) : nextRun cron schedule now = next := by
  unfold nextRun
  rw [h]

theorem unstuck_spec (job : CronJob) (now : ℕ) :
    (job.unstuck now).settings = job.settings ∧
    (job.unstuck now).state.nextRunAtMs = job.state.nextRunAtMs := by
  unfold CronJob.unstuck
  split
  · split <;> exact ⟨rfl, rfl⟩
  · exact ⟨rfl, rfl⟩

/-- What an update leaves: the settings of the patch, and the next run of its schedule or, if the
update is refused, the one there was. -/
theorem updatedJob_spec (cron : CronExpressions) (job : CronJob) (patch : CronJobPatch) (now : ℕ) :
    (CronState.updatedJob cron job patch now).1.settings = (job.patched patch now).settings ∧
    ((CronState.updatedJob cron job patch now).1.state.nextRunAtMs =
        (if (CronState.updatedJob cron job patch now).1.enabled then
          nextRun cron (CronState.updatedJob cron job patch now).1.schedule now else none) ∨
      (∃ e, (CronState.updatedJob cron job patch now).2 = .error e) ∧
        (CronState.updatedJob cron job patch now).1.state.nextRunAtMs =
          job.state.nextRunAtMs) := by
  unfold CronState.updatedJob
  cases validateJobSpec (job.patched patch now) with
  | error e => exact ⟨rfl, .inr ⟨⟨e, rfl⟩, rfl⟩⟩
  | ok u =>
    simp only
    cases hnext : (job.patched patch now).rescheduled cron now with
    | error e => exact ⟨rfl, .inr ⟨⟨e, rfl⟩, rfl⟩⟩
    | ok updated =>
      unfold CronJob.rescheduled at hnext
      split at hnext
      · rename_i henabled
        obtain ⟨next, hcompute, hupdated⟩ := bind_eq_ok.mp hnext
        obtain rfl := Except.ok.inj hupdated
        exact ⟨rfl, .inl ((if_pos henabled).trans (nextRun_of_ok hcompute)).symm⟩
      · rename_i henabled
        obtain rfl := Except.ok.inj hnext
        exact ⟨rfl, .inl (if_neg henabled).symm⟩

theorem EditedAt.of_gone (hjob : s.state.jobs[id]? = none)
    (hkept : ∀ settings, s.lastSet id = some settings → id ∈ s.removed ∨
      settings.deleteAfterRun = true ∧ s.Exhausted cron id settings) : EditedAt cron s id where
  known job' hjob' := by
    rw [hjob] at hjob'
    cases hjob'
  kept settings hset := .inr (hkept settings hset)
  nextRuns job' _ hjob' _ _ := by
    rw [hjob] at hjob'
    cases hjob'

theorem EditedAt.recompute (h : EditedAt cron s id) {job' : CronJob}
    (hjob : s.state.jobs[id]? = some job) (hjob' : r.state.jobs[id]? = some job')
    (hsettings : job'.settings = job.settings) (hlast : r.lastSet id = s.lastSet id)
    (hended : ∀ now, (id, now) ∈ s.ended → (id, now) ∈ r.ended) (hmem : (id, now) ∈ r.computed)
    (hon : job'.enabled = true → job'.state.nextRunAtMs = nextRun cron job'.schedule now)
    (hoff : ∀ settings, s.lastSet id = some settings → settings.enabled = false →
      job'.state.nextRunAtMs = none) : EditedAt cron r id := by
  obtain ⟨settings, hset, hschedule, hdelete, henabled⟩ := h.known job hjob
  have hs : job'.schedule = settings.schedule :=
    (congrArg Settings.schedule hsettings).trans hschedule
  have hd : job'.deleteAfterRun = settings.deleteAfterRun :=
    (congrArg Settings.deleteAfterRun hsettings).trans hdelete
  have he : job'.enabled = job.enabled := congrArg Settings.enabled hsettings
  constructor
  · intro found hfound
    rw [hjob'] at hfound
    obtain rfl := Option.some.inj hfound
    refine ⟨settings, hlast.trans hset, hs, hd, ?_⟩
    rw [he]
    exact henabled.imp_right (And.imp_right fun hover => hover.mono hended)
  · exact fun _ _ => .inl ⟨job', hjob'⟩
  · intro found settings' hfound hset' _
    rw [hjob'] at hfound
    rw [hlast] at hset'
    obtain rfl := Option.some.inj hfound
    obtain rfl := Option.some.inj (hset.symm.trans hset')
    refine ⟨fun hon' => ⟨now, hmem, ?_⟩, hoff settings hset⟩
    rw [hon hon', hs]

theorem EditedAt.of_set (hjob : s.state.jobs[id]? = some job)
    (hlast : s.lastSet id = some job.settings) (hmem : (id, now) ∈ s.computed)
    (hnext : job.state.nextRunAtMs = if job.enabled then nextRun cron job.schedule now else none) :
    EditedAt cron s id where
  known job' hjob' := by
    rw [hjob] at hjob'
    obtain rfl := Option.some.inj hjob'
    exact ⟨job.settings, hlast, rfl, rfl, .inl rfl⟩
  kept _ _ := .inl ⟨job, hjob⟩
  nextRuns job' settings hjob' hset _ := by
    rw [hjob] at hjob'
    rw [hlast] at hset
    obtain rfl := Option.some.inj hjob'
    obtain rfl := Option.some.inj hset
    rw [hnext]
    refine ⟨fun henabled => ⟨now, hmem, if_pos henabled⟩, fun hdisabled => if_neg ?_⟩
    exact ne_true_of_eq_false hdisabled

theorem edited_start (now : ℕ) :
    Edited cron (s.after cron (.start now) (s.state.start cron now)) where
  jobs id := by
    constructor
    · intro job hjob
      exact ⟨job.settings, congrArg (Option.map CronJob.settings) hjob, rfl, rfl, .inl rfl⟩
    · intro settings hset
      obtain ⟨job, hjob, -⟩ := Option.map_eq_some_iff.mp hset
      exact .inl ⟨job, hjob⟩
    · rintro job settings - - ⟨now, hmem⟩
      cases hmem
  endings _ hmem := by cases hmem
  deletings _ hmem := by cases hmem

theorem addedJob_spec {create : CronJobCreate}
    (hadded : CronState.addedJob cron create now = .ok job) :
    job.settings = create.settings ∧
      job.state.nextRunAtMs = if job.enabled then nextRun cron job.schedule now else none := by
  unfold CronState.addedJob at hadded
  obtain ⟨_, -, hadded⟩ := bind_eq_ok.mp hadded
  split at hadded
  · rename_i henabled
    obtain ⟨next, hcompute, hjob⟩ := bind_eq_ok.mp hadded
    obtain rfl := Except.ok.inj hjob
    exact ⟨rfl, ((if_pos henabled).trans (nextRun_of_ok hcompute)).symm⟩
  · rename_i henabled
    obtain rfl := Except.ok.inj hadded
    exact ⟨rfl, (if_neg henabled).symm⟩

theorem edited_add (h : Edited cron s) {create : CronJobCreate}
    (hadded : CronState.addedJob cron create now = .ok job) :
    Edited cron (s.after cron (.add id create now) { s.state with
      store := s.state.store.insert id job, jobs := s.state.jobs.insert id job }) where
  __ := h
  jobs id' := by
    by_cases hid : id' = id
    · subst hid
      have hget : (s.state.jobs.insert id' job)[id']? = some job :=
        OrderedMap.get_insert_self s.state.jobs id' job
      refine .of_set hget ?_ mem_cons_self ?_
      · change Function.update s.lastSet id' _ id' = _
        rw [Function.update_self, (addedJob_spec hadded).1]
      · exact (addedJob_spec hadded).2
    · refine (h.jobs id').same (OrderedMap.get_insert_of_ne _ (Ne.symm hid) _)
        (Function.update_of_ne hid _ _) (fun _ => .rfl) (fun _ => mem_cons_of_mem _)
        (fun h => h)

@[simp] theorem ending_persist (s : CronState) (id : String) (job : CronJob) (write : StoreWrite) :
    (s.persist id job write).ending = s.ending := by
  unfold CronState.persist
  split
  · split
    · rfl
    · exact (frame_unwritten s write).2.2.1
  · rfl

@[simp] theorem deleting_persist (s : CronState) (id : String) (job : CronJob) (write : StoreWrite) :
    (s.persist id job write).deleting = s.deleting := by
  unfold CronState.persist
  split
  · split
    · rfl
    · exact (frame_unwritten s write).2.2.2
  · rfl

theorem ending_update (cron : CronExpressions) (s : CronState) (id : String) (job : CronJob)
    (patch : CronJobPatch) (now : ℕ) (write : StoreWrite) :
    (s.update cron id job patch now write).1.ending = s.ending ∧
    (s.update cron id job patch now write).1.deleting = s.deleting := by
  unfold CronState.update
  obtain ⟨updated, result⟩ := CronState.updatedJob cron job patch now
  cases result with
  | error e => exact ⟨rfl, rfl⟩
  | ok u => exact ⟨ending_persist .., deleting_persist ..⟩

variable {write : StoreWrite}

theorem update_snd_of_error {s : CronState} {patch : CronJobPatch} {e : String}
    (h : (CronState.updatedJob cron job patch now).2 = .error e) :
    (s.update cron id job patch now write).2 = false := by
  unfold CronState.update
  revert h
  obtain ⟨updated, result⟩ := CronState.updatedJob cron job patch now
  rintro rfl
  rfl

theorem edited_update (h : Edited cron s) {job : CronJob} {patch : CronJobPatch} {now : ℕ}
    {write : StoreWrite} (hjob : s.state.jobs[id]? = some job)
    (hkeeps : KeepsEdits cron s (.update id patch now write)) :
    Edited cron (s.after cron (.update id patch now write)
      (s.state.update cron id job patch now write).1) := by
  obtain ⟨hsettings, hnext⟩ := updatedJob_spec cron job patch now
  obtain ⟨hjobs, -⟩ := update_fst s.state id job patch now write
  obtain ⟨hending, hdeleting⟩ := ending_update cron s.state id job patch now write
  have hget : (s.state.update cron id job patch now write).1.jobs[id]? =
      some (CronState.updatedJob cron job patch now).1 := by
    rw [hjobs]
    exact OrderedMap.get_insert_self ..
  have haccepts : s.accepts cron id patch now write =
      (s.state.update cron id job patch now write).2 := by
    unfold CronRun.accepts
    rw [hjob]
  refine ⟨fun id' => ?_, fun ending hmem => h.endings ending (hending ▸ hmem),
    fun ending hmem => h.deletings ending (hdeleting ▸ hmem)⟩
  obtain rfl | hid := eq_or_ne id id'
  · cases hok : s.accepts cron id patch now write with
    | true =>
      refine .of_set hget ?_ mem_cons_self ?_
      · change (if s.accepts cron id patch now write then _ else s.lastSet) id = _
        rw [if_pos hok, Function.update_self, hjob, hsettings]
        rfl
      · rcases hnext with hnext | ⟨⟨e, he⟩, -⟩
        · exact hnext
        · rw [haccepts, update_snd_of_error he] at hok
          cases hok
    | false =>
      have hlast : (s.after cron (.update id patch now write)
          (s.state.update cron id job patch now write).1).lastSet = s.lastSet :=
        if_neg (ne_true_of_eq_false hok)
      have hsame := hsettings.trans (hkeeps job hjob hok)
      rcases hnext with hnext | ⟨-, hnext⟩
      · refine (h.jobs id).recompute hjob hget hsame (congrFun hlast id) (fun _ h => h)
          mem_cons_self (fun hon => hnext.trans (if_pos hon)) fun settings hset hoff => ?_
        have hoff' : (CronState.updatedJob cron job patch now).1.enabled = false :=
          (congrArg Settings.enabled hsame).trans ((h.jobs id).disabled hjob hset hoff)
        exact hnext.trans (if_neg (ne_true_of_eq_false hoff'))
      · refine (h.jobs id).frame (fun _ => (CronState.updatedJob cron job patch now).1) ?_
          (fun found hfound => ?_) (fun found hfound => ?_) (congrFun hlast id) (fun _ => .rfl)
          (fun _ => mem_cons_of_mem _) (fun h => h)
        · exact hget.trans (by rw [hjob]; rfl)
        · rw [hjob] at hfound
          exact Option.some.inj hfound ▸ hsame
        · rw [hjob] at hfound
          exact Option.some.inj hfound ▸ hnext
  · refine (h.jobs id').same ?_ ?_ (fun _ => .rfl) (fun _ => mem_cons_of_mem _) (fun h => h)
    · change (s.state.update cron id job patch now write).1.jobs[id']? = _
      rw [hjobs]
      exact OrderedMap.get_insert_of_ne _ hid _
    · change (if _ then Function.update s.lastSet id _ else s.lastSet) id' = s.lastSet id'
      split
      · exact Function.update_of_ne hid.symm _ _
      · rfl

theorem edited_finish (h : Edited cron s) {execution : Execution} {others : List Execution}
    {started finishedAt : ℕ} {status : RunStatus} {error : Option String}
    (hkeeps : KeepsEdits cron s (.finish execution started finishedAt now status error)) :
    Edited cron (s.after cron (.finish execution started finishedAt now status error)
      (s.state.finish cron execution others started finishedAt now status error)) := by
  have hjobs (id : String) := get_modifyJob s.state.jobs execution.id id fun job =>
    job.finished started finishedAt status error (nextRun cron execution.job.schedule now)
  refine ⟨fun id => ?_, fun ending hmem => ?_, fun ending hmem =>
    (h.deletings ending hmem).imp_left (mem_cons_of_mem _)⟩
  · obtain rfl | hid := eq_or_ne execution.id id
    · cases hjob : s.state.jobs[execution.id]? with
      | some job =>
        obtain ⟨hon, hoff⟩ := hkeeps job hjob
        have hget : (s.state.finish cron execution others started finishedAt now status
            error).jobs[execution.id]? = some (job.finished started finishedAt status error
              (nextRun cron execution.job.schedule now)) := by
          refine (hjobs execution.id).trans ?_
          rw [if_pos rfl, hjob]
          rfl
        exact (h.jobs execution.id).recompute hjob hget rfl rfl
          (fun _ => mem_cons_of_mem _) mem_cons_self hon hoff
      | none =>
        refine .of_gone ((hjobs execution.id).trans (by rw [if_pos rfl, hjob]; rfl))
          fun settings hset => ?_
        rcases (h.jobs execution.id).kept settings hset with ⟨job, hjob'⟩ | hgone | ⟨hdelete, hover⟩
        · rw [hjob] at hjob'
          cases hjob'
        · exact .inl hgone
        · exact .inr ⟨hdelete, hover.mono fun _ => mem_cons_of_mem _⟩
    · refine (h.jobs id).same ((hjobs id).trans (if_neg hid)) rfl (fun now' => ?_)
        (fun _ => mem_cons_of_mem _) (fun h => h)
      change (id, now') ∈ (execution.id, now) :: s.ended ↔ _
      rw [mem_cons, Prod.mk.injEq]
      exact or_iff_right fun heq => hid heq.1.symm
  · rcases mem_cons.mp hmem with rfl | hmem
    · exact mem_cons_self
    · exact mem_cons_of_mem _ (h.endings ending hmem)

theorem edited_disable (h : Edited cron s) {ending : Ending} {write : StoreWrite} {job : CronJob}
    (hending : ending ∈ s.state.ending) (hnone : ending.next = none)
    (hcopy : ending.job.deleteAfterRun = false) (hjob : s.state.jobs[ending.id]? = some job)
    (hkeeps : KeepsEdits cron s (.settle ending write)) :
    Edited cron { s with
      state := (s.state.disable ending.id job write).settled ending } := by
  have hjobs : ((s.state.disable ending.id job write).settled ending).jobs =
      s.state.jobs.insert ending.id { job with enabled := false } := jobs_persist ..
  have hends : ((s.state.disable ending.id job write).settled ending).ending =
      s.state.ending.erase ending := congrArg (fun l => List.erase l ending) (ending_persist ..)
  have hdeleting : ((s.state.disable ending.id job write).settled ending).deleting =
      s.state.deleting := deleting_persist ..
  refine ⟨fun id => ?_, fun other hmem => h.endings other ?_, fun other hmem =>
    h.deletings other (hdeleting ▸ hmem)⟩
  · obtain rfl | hid := eq_or_ne ending.id id
    · have hget : ((s.state.disable ending.id job write).settled ending).jobs[ending.id]? =
          some { job with enabled := false } := by
        rw [hjobs]
        exact OrderedMap.get_insert_self ..
      obtain ⟨settings, hset, hschedule, hdelete, henabled⟩ := (h.jobs ending.id).known job hjob
      constructor
      · intro found hfound
        obtain rfl := Option.some.inj (hget.symm.trans hfound)
        refine ⟨settings, hset, hschedule, hdelete, ?_⟩
        cases hon : job.enabled with
        | false => exact henabled.imp (fun heq => hon.symm.trans heq) fun hover => ⟨rfl, hover.2⟩
        | true =>
          refine .inr ⟨rfl, ending.now, h.endings ending hending, ?_⟩
          exact hschedule ▸ (hkeeps job hjob hnone hcopy hon).symm.trans hnone
      · exact fun _ _ => .inl ⟨_, hget⟩
      · intro found settings' hfound hset' hended
        obtain rfl := Option.some.inj (hget.symm.trans hfound)
        exact ⟨fun hon => (Bool.false_ne_true hon).elim,
          ((h.jobs ending.id).nextRuns job settings' hjob hset' hended).2⟩
    · refine (h.jobs id).same ?_ rfl (fun _ => .rfl) (fun _ h => h) (fun h => h)
      change ((s.state.disable ending.id job write).settled ending).jobs[id]? = _
      rw [hjobs]
      exact OrderedMap.get_insert_of_ne _ hid _
  · change other ∈ ((s.state.disable ending.id job write).settled ending).ending at hmem
    rw [hends] at hmem
    exact mem_of_mem_erase hmem

theorem edited_delete (h : Edited cron s) {ending : Ending}
    (hdeleting : ending ∈ s.state.deleting) (hkeeps : KeepsEdits cron s (.delete ending)) :
    Edited cron { s with state := { s.state with
      jobs := s.state.jobs.erase ending.id
      deleting := s.state.deleting.erase ending } } where
  jobs id := by
    obtain rfl | hid := eq_or_ne ending.id id
    · refine .of_gone Std.ExtTreeMap.getElem?_erase_self fun settings hset => ?_
      rcases (h.jobs ending.id).kept settings hset with ⟨job, hjob⟩ | hgone
      · obtain ⟨settings', hset', hschedule, hdelete, -⟩ := (h.jobs ending.id).known job hjob
        obtain rfl := Option.some.inj (hset.symm.trans hset')
        obtain ⟨hflag, hnext⟩ := hkeeps job hjob
        obtain ⟨hended, hnone, hcopy⟩ := h.deletings ending hdeleting
        refine .inr ⟨?_, ending.now, hended, ?_⟩
        · rw [← hdelete, ← hflag, hcopy]
        · rw [← hschedule, ← hnext, hnone]
      · exact hgone
    · refine (h.jobs id).same ?_ rfl (fun _ => .rfl) (fun _ h => h) (fun h => h)
      exact OrderedMap.get_erase_of_ne _ hid
  endings := h.endings
  deletings other hmem := h.deletings other (mem_of_mem_erase hmem)

theorem edited_remove (h : Edited cron s) :
    Edited cron { s with
      state := { s.state with
        jobs := s.state.jobs.erase id
        removing := s.state.removing.erase id }
      removed := id :: s.removed } where
  __ := h
  jobs id' := by
    obtain rfl | hid := eq_or_ne id id'
    · exact .of_gone Std.ExtTreeMap.getElem?_erase_self fun _ _ => .inl mem_cons_self
    · exact (h.jobs id').same (OrderedMap.get_erase_of_ne _ hid) rfl (fun _ => .rfl) (fun _ h => h)
        (mem_cons_of_mem _)

/-- **One step keeps what was set last**, if an execution that ends says no other thing. -/
theorem edited_after {e : CronEvent} (h : Edited cron s) (hstep : CronStep cron s.state e t)
    (hkeeps : KeepsEdits cron s e) : Edited cron (s.after cron e t) := by
  cases hstep with
  | start => exact edited_start _
  | @tick now =>
    refine h.frame (fun job => if job.due now then job.setRunning (some now) else job)
      (fun id => .inl (OrderedMap.get_map ..)) (fun job => ?_) (fun job => ?_)
      (fun _ hmem => hmem) fun _ => .inl
    · split <;> rfl
    · split <;> rfl
  | @clearStuck now =>
    refine h.frame (fun job => job.unstuck now) (fun id => .inl (OrderedMap.get_map ..))
      (fun job => (unstuck_spec job now).1) (fun job => (unstuck_spec job now).2)
      (fun _ hmem => hmem) fun _ => .inl
  | add _ hadded => exact edited_add h hadded
  | update hjob => exact edited_update h hjob hkeeps
  | removeStored _ | request _ _ => exact h.same rfl (fun _ hmem => hmem) fun _ => .inl
  | remove _ => exact edited_remove h
  | @mark id job now _ =>
    refine h.frame (fun job => job.setRunning (some now)) (fun id' => ?_) (fun _ => rfl)
      (fun _ => rfl) (fun _ hmem => hmem) fun _ => .inl
    have hget := get_modifyJob s.state.jobs id id' fun job => job.setRunning (some now)
    by_cases hid : id = id'
    · exact .inl (hget.trans (if_pos hid))
    · exact .inr (hget.trans (if_neg hid))
  | finish _ => exact edited_finish h hkeeps
  | @store ending write job _ _ _ =>
    have hending : ((s.state.persist ending.id job write).settled ending).ending =
        s.state.ending.erase ending := congrArg (fun l => List.erase l ending) (ending_persist ..)
    have hdeleting : ((s.state.persist ending.id job write).settled ending).deleting =
        s.state.deleting := deleting_persist ..
    exact h.same (jobs_persist ..) (fun _ hmem => mem_of_mem_erase (hending ▸ hmem))
      fun _ hmem => .inl (hdeleting ▸ hmem)
  | disable hending hnone hcopy hjob => exact edited_disable h hending hnone hcopy hjob hkeeps
  | gone _ _ _ => exact h.same rfl (fun _ => mem_of_mem_erase) fun _ => .inl
  | @refuse write _ =>
    obtain ⟨hjobs, -, hending, hdeleting⟩ := frame_unwritten s.state write
    exact h.same hjobs (fun _ hmem => hending ▸ hmem) fun _ hmem => .inl (hdeleting ▸ hmem)
  | @notDeleted ending write _ _ _ _ =>
    obtain ⟨hjobs, -, hending, hdeleting⟩ := frame_notDeleted s.state ending write
    exact h.same hjobs (fun _ hmem => mem_of_mem_erase (hending ▸ hmem))
      fun _ hmem => .inl (hdeleting ▸ hmem)
  | @deleteStored ending hending hnone hcopy _ =>
    refine h.same rfl (fun _ => mem_of_mem_erase) fun other hmem => ?_
    rcases mem_cons.mp hmem with rfl | hmem
    · exact .inr ⟨hending, hnone, hcopy⟩
    · exact .inl hmem
  | delete hdeleting => exact edited_delete h hdeleting hkeeps

theorem state_after (s : CronRun) (e : CronEvent) (t : CronState) :
    (s.after cron e t).state = t := by
  cases e <;> rfl

theorem EditStep.of_step {e : CronEvent} (h : CronStep cron s.state e t) :
    EditStep cron s e (s.after cron e t) := by
  constructor
  · rwa [state_after]
  · rw [state_after]

theorem edited_begin (store : Jobs) : Edited cron (.start store) where
  jobs id := by
    refine .of_gone ?_ fun settings hset => ?_
    · exact Std.ExtTreeMap.getElem?_empty
    · cases hset
  endings _ hmem := by cases hmem
  deletings _ hmem := by cases hmem

/-- **An edit is kept**, over every run in which each execution that ends says no other thing than
its job: the job that was last given some settings is there unless it was removed or these settings
say that it is exhausted, it is disabled only if they say so, and its next run is theirs. -/
theorem edits_kept {store : Jobs} {es : List CronEvent}
    (hrun : Run (fun s e r => EditStep cron s e r ∧ KeepsEdits cron s e) (.start store) es s)
    {settings : Settings} (hset : s.lastSet id = some settings)
    (hended : ∃ now, (id, now) ∈ s.ended) :
    ((∃ job, s.state.jobs[id]? = some job) ∨ id ∈ s.removed ∨
      settings.deleteAfterRun = true ∧ s.Exhausted cron id settings) ∧
    ∀ job, s.state.jobs[id]? = some job →
      (job.schedule = settings.schedule ∧ job.deleteAfterRun = settings.deleteAfterRun) ∧
      (job.enabled = false → settings.enabled = false ∨ s.Exhausted cron id settings) ∧
      (job.enabled = true → ∃ now, (id, now) ∈ s.computed ∧
        job.state.nextRunAtMs = nextRun cron settings.schedule now) ∧
      (settings.enabled = false → job.state.nextRunAtMs = none) := by
  have h : Edited cron s := by
    refine Run.invariant (P := Edited cron) (fun s e r hs hstep => ?_) hrun (edited_begin store)
    obtain ⟨⟨hcron, hafter⟩, hkeeps⟩ := hstep
    exact hafter ▸ edited_after hs hcron hkeeps
  refine ⟨(h.jobs id).kept settings hset, fun job hjob => ?_⟩
  obtain ⟨settings', hset', hschedule, hdelete, henabled⟩ := (h.jobs id).known job hjob
  obtain rfl := Option.some.inj (hset.symm.trans hset')
  refine ⟨⟨hschedule, hdelete⟩, fun hoff => ?_, (h.jobs id).nextRuns job settings hjob hset hended⟩
  exact henabled.imp (fun heq => heq.symm.trans hoff) And.right

end Steps

/-! ## Two runs -/

def noPatch : CronJobPatch where
  name := none
  schedule := none
  payload := none
  sessionTarget := none
  enabled := none
  deleteAfterRun := none
  autoPruneContainer := none

/-- The execution that the timer begins of a job at the time of its next run. -/
def dueExecution (job : CronJob) (now : ℕ) : Execution where
  id := "job"
  job := (job.setNextRun (some now)).setRunning (some now)
  markedAt := now

/-- The job is renamed while it is executed. -/
def renameWhileRun : List CronEvent :=
  [.start 0, .tick 60000, .update "job" { noPatch with name := some "daily" } 60001 .written,
    .finish (dueExecution everyMinute 60000) 60000 60002 60002 .ok none]

theorem edits_kept_renameWhileRun : ∃ s settings job,
    Run (fun s e r => EditStep noExpressions s e r ∧ KeepsEdits noExpressions s e)
      (.start (oneJob everyMinute)) renameWhileRun s ∧
    s.lastSet "job" = some settings ∧ s.state.jobs["job"]? = some job ∧ job.name = "daily" ∧
    job.enabled = true ∧ ∃ now, ("job", now) ∈ s.computed ∧
      job.state.nextRunAtMs = nextRun noExpressions settings.schedule now := by
  have hrun : ∃ s,
      Run (fun s e r => EditStep noExpressions s e r ∧ KeepsEdits noExpressions s e)
        (.start (oneJob everyMinute)) renameWhileRun s ∧
      s.lastSet "job" = some everyMinute.settings ∧ s.ended = [("job", 60002)] ∧
      s.state.jobs["job"]? = some ((everyMinute.patched { noPatch with name := some "daily" }
        60001).finished 60000 60002 .ok none (some 120000)) := by
    refine ⟨_, .cons ⟨.of_step .start, trivial⟩ <| .cons ⟨.of_step .tick, trivial⟩ <|
      .cons ⟨.of_step (.update rfl), ?_⟩ <|
      .cons ⟨.of_step (.finish (show _ = [] ++ _ :: [] from rfl)), ?_⟩ <| .nil _, ?_, ?_, ?_⟩
    · intro job hjob _
      rfl
    · intro job hjob
      have hschedule : some everyMinute.schedule = some job.schedule :=
        congrArg (Option.map CronJob.schedule) hjob
      refine ⟨fun _ => ?_, fun settings hset hoff => ?_⟩
      · rw [← Option.some.inj hschedule]
        rfl
      · have henabled : some true = some settings.enabled :=
          congrArg (Option.map Settings.enabled) hset
        rw [hoff] at henabled
        cases henabled
    · rfl
    · rfl
    · rfl
  obtain ⟨s, hrun, hset, hended, hjob⟩ := hrun
  obtain ⟨-, hjobs⟩ := edits_kept hrun hset ⟨60002, by rw [hended]; exact List.mem_cons_self⟩
  obtain ⟨-, -, hnext, -⟩ := hjobs _ hjob
  exact ⟨s, _, _, hrun, hset, hjob, rfl, rfl, hnext rfl⟩

def once : CronJob :=
  { everyMinute with schedule := .atTime 100 }

def onceEnding : Ending where
  id := "job"
  job := (dueExecution once 100).job
  next := none
  now := 200

def everySecond : CronJobPatch :=
  { noPatch with schedule := some (.every 1000 (some 0)) }

/-- It is made to run every second while it is executed. -/
def onceToEverySecond : List CronEvent :=
  [.start 50, .tick 100, .update "job" everySecond 150 .written,
    .finish (dueExecution once 100) 100 200 200 .ok none, .settle onceEnding .written]

theorem disabled_onceToEverySecond : ∃ s,
    Run (EditStep noExpressions) (.start (oneJob once)) onceToEverySecond s ∧
    s.lastSet "job" = some (once.patched everySecond 150).settings ∧ s.ended = [("job", 200)] ∧
    nextRun noExpressions (once.patched everySecond 150).schedule 200 = some 1000 ∧
    s.state.jobs["job"]? = some { (once.patched everySecond 150).finished 100 200 .ok none none with
      enabled := false } := by
  refine ⟨_, .cons (.of_step .start) <| .cons (.of_step .tick) <|
    .cons (.of_step (.update rfl)) <|
    .cons (.of_step (.finish (show _ = [] ++ _ :: [] from rfl))) <|
    .cons (.of_step (.disable List.mem_cons_self rfl rfl rfl)) <| .nil _, ?_, ?_, ?_, ?_⟩
  · rfl
  · rfl
  · rfl
  · rfl

end Chelix.Cron
