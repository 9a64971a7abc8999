import Chelix.Library.Run
import Chelix.Library.Serial

/-!
# The file-backed cron store

Each operation loads the jobs, changes the list, and replaces the file in three steps: it writes a
temporary file, moves the target to a backup, and moves the temporary file to the target.  Calls
run at the same time, share the temporary file, and the process can stop between any two steps.

* **`jobs_kept`**: every run of such steps.
-/

namespace Chelix.Cron

open Function

open Chelix.Library List

variable {Job : Type}

structure StoredJob (Job : Type) where
  id : String
  job : Job
  deriving DecidableEq

/-! ## Operations -/

inductive JobOp (Job : Type) where
  | save (job : StoredJob Job)
  | delete (id : String)
  | update (job : StoredJob Job)

/-- The first job with the id of the new one becomes the new one; `none` if there is none. -/
def replaceJob (job : StoredJob Job) : List (StoredJob Job) → Option (List (StoredJob Job))
  | [] => none
  | j :: jobs => if j.id = job.id then some (job :: jobs) else (replaceJob job jobs).map (j :: ·)

/-- The new list; `none` where the job is not found. -/
def JobOp.apply : JobOp Job → List (StoredJob Job) → Option (List (StoredJob Job))
  | .save job, jobs => some ((replaceJob job jobs).getD (jobs ++ [job]))
  | .delete id, jobs =>
    let rest := jobs.filter (·.id ≠ id)
    if rest.length = jobs.length then none else some rest
  | .update job, jobs => replaceJob job jobs

/-- The operation as one that reports nothing. -/
def JobOp.run (op : JobOp Job) (jobs : List (StoredJob Job)) :
    Option (List (StoredJob Job) × Unit) :=
  (op.apply jobs).map (·, ())

/-! ## Files -/

/-- What a file holds: the JSON of a list, or part of it. -/
inductive JobsFile (Job : Type) where
  | jobs (jobs : List (StoredJob Job))
  | damaged

structure JobsFiles (Job : Type) where
  target : Option (JobsFile Job)
  tmp : Option (JobsFile Job)
  bak : Option (JobsFile Job)

/-- A target that does not exist holds no jobs; a damaged one cannot be read. -/
def loadJobs : Option (JobsFile Job) → Option (List (StoredJob Job))
  | none => some []
  | some (.jobs jobs) => some jobs
  | some .damaged => none

/-! ## Calls -/

/-- Where a call stands: what it has loaded, and what it is to store. -/
inductive StorePhase (Job : Type) where
  | idle
  /-- The target was seen to exist. -/
  | found
  | ready (loaded next : List (StoredJob Job))
  | written (loaded next : List (StoredJob Job))
  /-- The target was seen to exist, or not, when it was to be backed up. -/
  | backing (loaded next : List (StoredJob Job))
  | moved (loaded next : List (StoredJob Job))
  | done
  | failed

structure StoreRun (Job : Type) where
  files : JobsFiles Job
  phase : ℕ → StorePhase Job
  /-- The jobs that the completed calls have left. -/
  current : List (StoredJob Job)
  /-- The completed calls, in the order in which they replaced the file. -/
  log : List (ℕ × Unit)

/-- The target holds these jobs, or does not exist, and nobody is at work; what the other files
hold does not matter. -/
def StoreRun.start (stored : Option (List (StoredJob Job))) (tmp bak : Option (JobsFile Job)) :
    StoreRun Job where
  files := ⟨stored.map .jobs, tmp, bak⟩
  phase := fun _ => .idle
  current := stored.getD []
  log := []

def StoreRun.setPhase (s : StoreRun Job) (n : ℕ) (phase : StorePhase Job) : StoreRun Job :=
  { s with phase := Function.update s.phase n phase }

inductive StoreEvent where
  | look (n : ℕ)
  | read (n : ℕ)
  | writeTmp (n : ℕ)
  | lookAgain (n : ℕ)
  | backUp (n : ℕ)
  | replace (n : ℕ)
  | fail (n : ℕ)
  /-- The process stops, perhaps while the temporary file is being written. -/
  | crash (torn : Bool)
  deriving DecidableEq

section Steps

variable (ops : ℕ → JobOp Job)

inductive StoreStep (s : StoreRun Job) : StoreEvent → StoreRun Job → Prop
  | look {n : ℕ} (hphase : s.phase n = .idle) (htarget : s.files.target ≠ none) :
      StoreStep s (.look n) (s.setPhase n .found)
  | lookNone {n : ℕ} {next : List (StoredJob Job)} (hphase : s.phase n = .idle)
      (htarget : s.files.target = none) (hnext : (ops n).apply [] = some next) :
      StoreStep s (.look n) (s.setPhase n (.ready [] next))
  | read {n : ℕ} {loaded next : List (StoredJob Job)} (hphase : s.phase n = .found)
      (htarget : s.files.target = some (.jobs loaded)) (hnext : (ops n).apply loaded = some next) :
      StoreStep s (.read n) (s.setPhase n (.ready loaded next))
  | writeTmp {n : ℕ} {loaded next : List (StoredJob Job)}
      (hphase : s.phase n = .ready loaded next) :
      StoreStep s (.writeTmp n)
        ({ s with files.tmp := some (.jobs next) }.setPhase n (.written loaded next))
  | lookAgain {n : ℕ} {loaded next : List (StoredJob Job)}
      (hphase : s.phase n = .written loaded next) :
      StoreStep s (.lookAgain n)
        (s.setPhase n
          (if s.files.target.isSome then .backing loaded next else .moved loaded next))
  | backUp {n : ℕ} {loaded next : List (StoredJob Job)} {file : JobsFile Job}
      (hphase : s.phase n = .backing loaded next) (htarget : s.files.target = some file) :
      StoreStep s (.backUp n)
        ({ s with files.target := none, files.bak := some file }.setPhase n (.moved loaded next))
  /-- A backup that fails is ignored. -/
  | backUpNone {n : ℕ} {loaded next : List (StoredJob Job)}
      (hphase : s.phase n = .backing loaded next) :
      StoreStep s (.backUp n) (s.setPhase n (.moved loaded next))
  | replace {n : ℕ} {loaded next : List (StoredJob Job)} {file : JobsFile Job}
      (hphase : s.phase n = .moved loaded next) (htmp : s.files.tmp = some file) :
      StoreStep s (.replace n)
        ({ s with
          files.target := some file
          files.tmp := none
          current := next
          log := s.log ++ [(n, ())] }.setPhase n .done)
  | fail {n : ℕ} (hphase : s.phase n ≠ .done) : StoreStep s (.fail n) (s.setPhase n .failed)
  | crash {torn : Bool}
      (htorn : torn = true → ∃ n loaded next, s.phase n = .ready loaded next) :
      StoreStep s (.crash torn)
        { s with
          files.tmp := if torn then some .damaged else s.files.tmp
          phase := fun n => match s.phase n with
            | .idle => .idle
            | .done => .done
            | _ => .failed }

end Steps

/-- The call is between the two moves. -/
def StorePhase.isMoved : StorePhase Job → Prop
  | .moved _ _ => True
  | _ => False

/-- The target is in its place, or it held no jobs. -/
def TargetInPlace (s : StoreRun Job) : Prop :=
  s.files.target ≠ none ∨ s.current = []

/-- A call replaces the target only if it has loaded what the completed calls have left, and only
with what it has written itself; a call fails between the two moves, and the process stops, only
while the target is in its place. -/
def Undisturbed (s : StoreRun Job) : StoreEvent → Prop
  | .replace n =>
    match s.phase n with
    | .moved loaded next => loaded = s.current ∧ s.files.tmp = some (.jobs next)
    | _ => True
  | .fail n => (s.phase n).isMoved → TargetInPlace s
  | .crash _ => TargetInPlace s
  | _ => True

/-- What a call is to store is what its operation makes of the jobs it has loaded. -/
def StorePhase.Computed (op : JobOp Job) : StorePhase Job → Prop
  | .ready loaded next => op.apply loaded = some next
  | .written loaded next => op.apply loaded = some next
  | .backing loaded next => op.apply loaded = some next
  | .moved loaded next => op.apply loaded = some next
  | _ => True

/-- The completed calls give the current jobs one after another, and these are in the target unless
a call has just moved it away. -/
structure Kept (ops : ℕ → JobOp Job) (start : List (StoredJob Job)) (s : StoreRun Job) : Prop where
  serial : SerialLog (fun n => (ops n).run) start s.log s.current
  done : ∀ n, (n, ()) ∈ s.log ↔ s.phase n = .done
  nodup : (s.log.map (·.1)).Nodup
  computed : ∀ n, (s.phase n).Computed (ops n)
  stored : loadJobs s.files.target = some s.current ∨
    s.files.target = none ∧ ∃ n, (s.phase n).isMoved

namespace Kept

variable {ops : ℕ → JobOp Job} {start : List (StoredJob Job)} {s : StoreRun Job}

theorem start_run (stored : Option (List (StoredJob Job))) (tmp bak : Option (JobsFile Job)) :
    Kept ops (stored.getD []) (.start stored tmp bak) where
  serial := .nil
  done _ := iff_of_false not_mem_nil nofun
  nodup := nodup_nil
  computed _ := trivial
  stored := by
    cases stored with
    | none | some jobs => exact .inl rfl

theorem computed_update (h : Kept ops start s) {n : ℕ} {phase : StorePhase Job}
    (hphase : phase.Computed (ops n)) (m : ℕ) :
    (Function.update s.phase n phase m).Computed (ops m) := by
  by_cases heq : m = n
  · rw [heq, update_self]
    exact hphase
  · rw [update_of_ne heq]
    exact h.computed m

/-- A call goes on; if it stood between the two moves, it still does or the target is there. -/
theorem setPhase (h : Kept ops start s) {n : ℕ} {phase : StorePhase Job}
    (hold : s.phase n ≠ .done) (hnew : phase ≠ .done) (hphase : phase.Computed (ops n))
    (hmoved : (s.phase n).isMoved → phase.isMoved ∨ TargetInPlace s) :
    Kept ops start (s.setPhase n phase) where
  __ := h
  done m := by
    refine (h.done m).trans ?_
    show s.phase m = .done ↔ Function.update s.phase n phase m = .done
    by_cases heq : m = n
    · rw [heq, update_self]
      exact iff_of_false hold hnew
    · rw [update_of_ne heq]
  computed := h.computed_update hphase
  stored := by
    rcases h.stored with hstored | ⟨htarget, m, hm⟩
    · exact .inl hstored
    · by_cases heq : m = n
      · rw [heq] at hm
        rcases hmoved hm with hstill | hplace | hempty
        · refine .inr ⟨htarget, n, ?_⟩
          show (Function.update s.phase n phase n : StorePhase Job).isMoved
          rw [update_self]
          exact hstill
        · exact absurd htarget hplace
        · refine .inl ?_
          show loadJobs s.files.target = some s.current
          rw [htarget, hempty]
          rfl
      · refine .inr ⟨htarget, m, ?_⟩
        show (Function.update s.phase n phase m : StorePhase Job).isMoved
        rw [update_of_ne heq]
        exact hm

theorem loadJobs_of_inPlace (h : Kept ops start s) (hplace : TargetInPlace s) :
    loadJobs s.files.target = some s.current := by
  rcases h.stored with hstored | ⟨htarget, -⟩
  · exact hstored
  · rcases hplace with hsome | hempty
    · exact absurd htarget hsome
    · rw [htarget, hempty]
      rfl

theorem replace (h : Kept ops start s) {n : ℕ} {next : List (StoredJob Job)}
    (hphase : s.phase n = .moved s.current next) :
    Kept ops start
      ({ s with
        files.target := some (.jobs next)
        files.tmp := none
        current := next
        log := s.log ++ [(n, ())] }.setPhase n .done) where
  serial := by
    have hcomputed := h.computed n
    rw [hphase] at hcomputed
    have hnext : (ops n).apply s.current = some next := hcomputed
    refine h.serial.append ?_
    rw [JobOp.run, hnext]
    rfl
  done m := by
    show (m, ()) ∈ s.log ++ [(n, ())] ↔ Function.update s.phase n .done m = .done
    rw [mem_append, mem_singleton, h.done]
    by_cases heq : m = n
    · rw [heq, update_self]
      exact iff_of_true (.inr rfl) rfl
    · rw [update_of_ne heq]
      exact ⟨fun hm => hm.elim id fun hlast => absurd (congrArg Prod.fst hlast) heq, .inl⟩
  nodup := by
    show ((s.log ++ [(n, ())]).map (·.1)).Nodup
    rw [map_append]
    refine nodup_append.mpr ⟨h.nodup, nodup_singleton _, ?_⟩
    rintro m hm _ hn rfl
    obtain rfl : m = n := mem_singleton.mp hn
    obtain ⟨⟨_, ⟨⟩⟩, hmem, rfl⟩ := mem_map.mp hm
    have hdone := (h.done _).mp hmem
    rw [hphase] at hdone
    cases hdone
  computed := h.computed_update trivial
  stored := .inl rfl

theorem crash (h : Kept ops start s) (torn : Bool) (hplace : TargetInPlace s) :
    Kept ops start
      { s with
        files.tmp := if torn then some .damaged else s.files.tmp
        phase := fun n => match s.phase n with
          | .idle => .idle
          | .done => .done
          | _ => .failed } where
  __ := h
  done m := by
    refine (h.done m).trans ?_
    dsimp only
    split
    · next hidle => rw [hidle]
    · next hdone => rw [hdone]
    · next hne => exact iff_of_false hne nofun
  computed m := by
    dsimp only
    split <;> trivial
  stored := .inl (h.loadJobs_of_inPlace hplace)

theorem step (h : Kept ops start s) {t : StoreRun Job} {e : StoreEvent}
    (hstep : StoreStep ops s e t) (hundisturbed : Undisturbed s e) : Kept ops start t := by
  cases hstep with
  | look hphase _ =>
    exact h.setPhase (by rw [hphase]; nofun) nofun trivial (by rw [hphase]; exact False.elim)
  | lookNone hphase _ hnext | read hphase _ hnext =>
    exact h.setPhase (by rw [hphase]; nofun) nofun hnext (by rw [hphase]; exact False.elim)
  | @writeTmp n loaded next hphase =>
    have hcomputed := h.computed n
    rw [hphase] at hcomputed
    have hwritten : Kept ops start { s with files.tmp := some (.jobs next) } :=
      ⟨h.serial, h.done, h.nodup, h.computed, h.stored⟩
    refine hwritten.setPhase ?_ nofun hcomputed ?_
    · show s.phase n ≠ .done
      rw [hphase]
      nofun
    · show (s.phase n).isMoved → _
      rw [hphase]
      exact False.elim
  | @lookAgain n loaded next hphase =>
    have hcomputed := h.computed n
    rw [hphase] at hcomputed
    refine h.setPhase (by rw [hphase]; nofun) ?_ ?_ (by rw [hphase]; exact False.elim)
    · split <;> nofun
    · split <;> exact hcomputed
  | @backUp n loaded next file hphase _ =>
    have hcomputed := h.computed n
    rw [hphase] at hcomputed
    have hmoved : Kept ops start (s.setPhase n (.moved loaded next)) :=
      h.setPhase (by rw [hphase]; nofun) nofun hcomputed fun _ => .inl trivial
    refine ⟨hmoved.serial, hmoved.done, hmoved.nodup, hmoved.computed, .inr ⟨rfl, n, ?_⟩⟩
    show (Function.update s.phase n (.moved loaded next) n).isMoved
    rw [update_self]
    trivial
  | @backUpNone n loaded next hphase =>
    have hcomputed := h.computed n
    rw [hphase] at hcomputed
    exact h.setPhase (by rw [hphase]; nofun) nofun hcomputed fun _ => .inl trivial
  | @replace n loaded next file hphase htmp =>
    simp only [Undisturbed, hphase] at hundisturbed
    obtain ⟨rfl, hwritten⟩ := hundisturbed
    obtain rfl : file = .jobs next := Option.some.inj (htmp.symm.trans hwritten)
    exact h.replace hphase
  | fail hphase => exact h.setPhase hphase nofun trivial fun hmoved => .inr (hundisturbed hmoved)
  | crash _ => exact h.crash _ hundisturbed

end Kept

/-! ## What a call keeps -/

theorem mem_replaceJob {job j : StoredJob Job} {jobs next : List (StoredJob Job)}
    (h : replaceJob job jobs = some next) (hj : j ∈ jobs) (hid : j.id ≠ job.id) : j ∈ next := by
  induction jobs generalizing next with
  | nil => cases h
  | cons first jobs ih =>
    rw [replaceJob] at h
    split at h
    · next hfirst =>
        cases h
        rcases mem_cons.mp hj with rfl | hj
        · exact absurd hfirst hid
        · exact mem_cons_of_mem _ hj
    · obtain ⟨rest, hrest, rfl⟩ := Option.map_eq_some_iff.mp h
      rcases mem_cons.mp hj with rfl | hj
      · exact mem_cons_self
      · exact mem_cons_of_mem _ (ih hrest hj)

theorem mem_save {job j : StoredJob Job} {jobs next : List (StoredJob Job)}
    (h : (JobOp.save job).apply jobs = some next) (hj : j ∈ jobs) (hid : j.id ≠ job.id) :
    j ∈ next := by
  obtain rfl : (replaceJob job jobs).getD (jobs ++ [job]) = next := Option.some.inj h
  cases hreplaced : replaceJob job jobs with
  | none => exact mem_append_left _ hj
  | some replaced => exact mem_replaceJob hreplaced hj hid

/-- **The cron store loses no jobs**, over every run of undisturbed steps: the completed calls, in
the order in which they replaced the file, give the current jobs; the next load returns these,
unless a call stands between its two moves, and a job that is saved next leaves the others. -/
theorem jobs_kept {ops : ℕ → JobOp Job} {stored : Option (List (StoredJob Job))}
    {tmp bak : Option (JobsFile Job)} {s : StoreRun Job} {es : List StoreEvent}
    (hrun : Run (fun s e t => StoreStep ops s e t ∧ Undisturbed s e) (.start stored tmp bak) es s) :
    runAll (fun n => (ops n).run) (s.log.map (·.1)) (stored.getD []) =
      some (s.current, s.log.map (·.2)) ∧
    (s.log.map (·.1)).Nodup ∧ (∀ n, (n, ()) ∈ s.log ↔ s.phase n = .done) ∧
    ((∀ n, ¬ (s.phase n).isMoved) → loadJobs s.files.target = some s.current) ∧
    ∀ job next, (JobOp.save job).apply s.current = some next →
      ∀ j ∈ s.current, j.id ≠ job.id → j ∈ next := by
  have h : Kept ops (stored.getD []) s := by
    refine hrun.invariant (P := Kept ops (stored.getD [])) (fun _ _ _ hs hstep => ?_)
      (Kept.start_run stored tmp bak)
    exact hs.step hstep.1 hstep.2
  refine ⟨h.serial, h.nodup, h.done, fun hnone => ?_, fun job next hnext j hj hid =>
    mem_save hnext hj hid⟩
  rcases h.stored with hstored | ⟨-, n, hmoved⟩
  · exact hstored
  · exact absurd hmoved (hnone n)

/-! ## Runs -/

def idJob (id : String) : StoredJob Unit := ⟨id, ()⟩

/-- Call `0` saves `b`, call `1` saves `c`, and the others delete `a`. -/
def someOps : ℕ → JobOp Unit
  | 0 => .save (idJob "b")
  | 1 => .save (idJob "c")
  | _ => .delete "a"

/-- The steps of a call that finds the target in its place. -/
def wholeCall (n : ℕ) : List StoreEvent :=
  [.look n, .read n, .writeTmp n, .lookAgain n, .backUp n, .replace n]

/-- A job is saved, and then the process stops while another one is being saved. -/
theorem jobs_kept_crash : ∃ s : StoreRun Unit,
    Run (fun s e t => StoreStep someOps s e t ∧ Undisturbed s e)
      (.start (some [idJob "a"]) none none)
      (wholeCall 0 ++ [.look 1, .read 1, .crash true]) s ∧
    loadJobs s.files.target = some [idJob "a", idJob "b"] := by
  have hrun : ∃ s : StoreRun Unit,
      Run (fun s e t => StoreStep someOps s e t ∧ Undisturbed s e)
        (.start (some [idJob "a"]) none none)
        (wholeCall 0 ++ [.look 1, .read 1, .crash true]) s ∧
      s.current = [idJob "a", idJob "b"] ∧ ∀ n, ¬ (s.phase n).isMoved := by
    refine ⟨_, .cons ⟨.look rfl nofun, trivial⟩ <| .cons ⟨.read rfl rfl rfl, trivial⟩ <|
      .cons ⟨.writeTmp rfl, trivial⟩ <| .cons ⟨.lookAgain rfl, trivial⟩ <|
      .cons ⟨.backUp rfl rfl, trivial⟩ <| .cons ⟨.replace rfl rfl, ⟨rfl, rfl⟩⟩ <|
      .cons ⟨.look rfl nofun, trivial⟩ <| .cons ⟨.read rfl rfl rfl, trivial⟩ <|
      .cons ⟨.crash fun _ => ⟨1, _, _, rfl⟩, .inl nofun⟩ <| .nil _, rfl, fun n => ?_⟩
    dsimp only
    split <;> exact id
  obtain ⟨s, hrun, hcurrent, hnone⟩ := hrun
  obtain ⟨-, -, -, hload, -⟩ := jobs_kept hrun
  exact ⟨s, hrun, by rw [hload hnone, hcurrent]⟩

/-- The process stops between the two moves: the next load finds no jobs, and the save after it
leaves only its own.  Two saves that have loaded the same jobs both succeed, and neither order of
the two gives the jobs that are stored. -/
theorem jobs_lost :
    (∃ s t : StoreRun Unit,
      Run (StoreStep someOps) (.start (some [idJob "a"]) none none)
        [.look 0, .read 0, .writeTmp 0, .lookAgain 0, .backUp 0, .crash false] s ∧
      loadJobs s.files.target = some [] ∧
      Run (StoreStep someOps) s [.look 1, .writeTmp 1, .lookAgain 1, .replace 1] t ∧
      loadJobs t.files.target = some [idJob "c"]) ∧
    ∃ s : StoreRun Unit,
      Run (StoreStep someOps) (.start (some [idJob "a"]) none none)
        ([.look 0, .read 0] ++ wholeCall 1 ++
          [.writeTmp 0, .lookAgain 0, .backUp 0, .replace 0]) s ∧
      loadJobs s.files.target = some [idJob "a", idJob "b"] ∧
      s.phase 0 = .done ∧ s.phase 1 = .done ∧
      ∀ order ∈ [[0, 1], [1, 0]],
        (runAll (fun n => (someOps n).run) order [idJob "a"]).map (·.1) ≠
          some [idJob "a", idJob "b"] := by
  constructor
  · exact ⟨_, _, .cons (.look rfl nofun) <| .cons (.read rfl rfl rfl) <| .cons (.writeTmp rfl) <|
      .cons (.lookAgain rfl) <| .cons (.backUp rfl rfl) <| .cons (.crash nofun) <| .nil _, rfl,
      .cons (.lookNone rfl rfl rfl) <| .cons (.writeTmp rfl) <| .cons (.lookAgain rfl) <|
      .cons (.replace rfl rfl) <| .nil _, rfl⟩
  · refine ⟨_, .cons (.look rfl nofun) <| .cons (.read rfl rfl rfl) <|
      .cons (.look rfl nofun) <| .cons (.read rfl rfl rfl) <| .cons (.writeTmp rfl) <|
      .cons (.lookAgain rfl) <| .cons (.backUp rfl rfl) <| .cons (.replace rfl rfl) <|
      .cons (.writeTmp rfl) <| .cons (.lookAgain rfl) <| .cons (.backUp rfl rfl) <|
      .cons (.replace rfl rfl) <| .nil _, rfl, rfl, rfl, ?_⟩
    decide

end Chelix.Cron
