import Chelix.Memory.IndexSync

/-!
# What the sync tasks have seen

A sync acts on the file as it has seen it, and on the stored row as it has found it.  As long as no
other task takes that row away or stores a different one, what the tasks have found is still there;
and the stored chunks are those of the stored row, unless a task has deleted them and is to delete
the row.

* **`SyncSound.step`**, **`Locks.step`**: what every run of such steps keeps.
-/

namespace Chelix.Memory

open SyncState Function

variable {Content Hash Row : Type}

/-! ## Views of a task -/

/-- What there is for one path. -/
structure PathEntry (Content Hash Row : Type) where
  file : Option (MarkdownFile Content)
  row : Option (FileRow Hash)
  chunks : List Row

def SyncState.entry (s : SyncState Content Hash Row) (path : String) :
    PathEntry Content Hash Row :=
  ⟨s.files path, s.rows path, s.chunks path⟩

namespace TaskPhase

/-- The file that the task is syncing. -/
def job : TaskPhase Content → Option SyncJob
  | .metadata job | .getFile job _ | .sameStat job _ | .startEpoch job _ | .reading job _ _
  | .getAgain job _ _ _ | .sameHash job _ _ _ | .upsertFile job _ _ | .bumping job _ _
  | .deletingChunks job _ _ | .deletingFile job _ _ | .epochAgain job _ _ | .embedding job _ _ _
  | .exists job _ _ | .replacing job _ _ => some job
  | .idle | .listing _ | .staleChunks _ _ | .staleFile _ _ | .removing _ | .removeChunks _
  | .removeFile _ | .done => none

/-- The task is syncing the path. -/
def At (path : String) (phase : TaskPhase Content) : Prop :=
  match phase.job with
  | some job => job.path = path
  | none => False

/-- The task has seen this time and size of its file. -/
def SeesStat (stat : FileStat) : TaskPhase Content → Prop
  | .getFile _ seen | .sameStat _ seen | .startEpoch _ seen | .reading _ seen _
  | .getAgain _ seen _ _ | .sameHash _ seen _ _ | .upsertFile _ seen _ | .bumping _ seen _
  | .deletingChunks _ seen _ | .deletingFile _ seen _ | .epochAgain _ seen _ | .embedding _ seen _ _
  | .exists _ seen _ | .replacing _ seen _ => seen = stat
  | _ => False

/-- Whatever the task has seen of its file, this is it. -/
def Sees (file : MarkdownFile Content) : TaskPhase Content → Prop
  | .getFile _ stat | .sameStat _ stat | .startEpoch _ stat | .reading _ stat _ => stat = file.stat
  | .getAgain _ stat _ content | .sameHash _ stat _ content | .upsertFile _ stat content
  | .bumping _ stat content | .deletingChunks _ stat content | .deletingFile _ stat content
  | .epochAgain _ stat content | .embedding _ stat _ content | .exists _ stat content
  | .replacing _ stat content => ⟨content, stat⟩ = file
  | _ => True

/-- The task has found the stored row unchanged, and is to act on it. -/
def Found (path : String) (file : Option (MarkdownFile Content)) : TaskPhase Content → Prop
  | .sameStat job stat => job.path = path ∧ file.map (·.stat) = some stat
  | .sameHash job _ _ _ | .upsertFile job _ _ => job.path = path
  | _ => False

/-- A task that has found the stored row unchanged has seen the same time and size, or the same
content if it has read one. -/
def Agrees (file : MarkdownFile Content) : TaskPhase Content → Prop
  | .sameStat _ stat => stat = file.stat
  | .sameHash _ _ _ content | .upsertFile _ _ content => content = file.content
  | _ => True

/-- The row is what a task that has found it unchanged has found. -/
def MatchesRow (ix : MemoryIndexer Content Hash Row) (row : FileRow Hash) :
    TaskPhase Content → Prop
  | .sameStat _ stat => row.stat = stat
  | .sameHash _ _ _ content | .upsertFile _ _ content => row.hash = ix.hash content
  | _ => True

/-- The task has deleted the chunks of the path and is to delete its row. -/
def DeletesRow (path : String) : TaskPhase Content → Prop
  | .deletingFile job _ _ => job.path = path
  | .staleFile other _ | .removeFile other => other = path
  | _ => False

/-- The task holds the lock of the path. -/
def Holds (path : String) : TaskPhase Content → Prop
  | .exists job _ _ | .replacing job _ _ => job.path = path
  | .removeChunks other | .removeFile other => other = path
  | _ => False

theorem Agrees.matchesRow {ix : MemoryIndexer Content Hash Row} {content : Content}
    {stat : FileStat} {phase : TaskPhase Content} (h : phase.Agrees ⟨content, stat⟩) :
    phase.MatchesRow ix (ix.fileRow content stat) := by
  cases phase with
  | sameStat _ _ => exact Eq.symm h
  | sameHash _ _ _ _ | upsertFile _ _ _ => exact congrArg ix.hash (Eq.symm h)
  | _ => trivial

/-- What a task has found does not depend on the file, unless it has seen that there is this one. -/
theorem Found.of_change {path : String} {file : Option (MarkdownFile Content)}
    {phase : TaskPhase Content} (h : phase.Found path file) :
    (∃ new, file = some new ∧ phase.At path ∧ phase.SeesStat new.stat) ∨
    ∀ file', phase.Found path file' := by
  cases phase with
  | sameStat job stat =>
    obtain ⟨hpath, hstat⟩ := h
    obtain ⟨new, rfl, hsame⟩ := Option.map_eq_some_iff.mp hstat
    exact .inl ⟨new, rfl, hpath, hsame.symm⟩
  | sameHash _ _ _ _ | upsertFile _ _ _ => exact .inr fun _ => h
  | _ => cases h

theorem nextFile_cases (discovered : Option (List String)) (todo : List String) :
    (∃ path rest, todo = path :: rest ∧
      (nextFile discovered todo : TaskPhase Content) = .metadata ⟨path, discovered, rest⟩) ∨
    (∃ all, discovered = some all ∧ (nextFile discovered todo : TaskPhase Content) = .listing all) ∨
    (nextFile discovered todo : TaskPhase Content) = .done := by
  cases todo with
  | cons path rest => exact .inl ⟨path, rest, rfl, rfl⟩
  | nil =>
    cases discovered with
    | some all => exact .inr (.inl ⟨all, rfl, rfl⟩)
    | none => exact .inr (.inr rfl)

theorem nextStale_cases (stale : List String) :
    (∃ path rest, stale = path :: rest ∧
      (nextStale stale : TaskPhase Content) = .staleChunks path rest) ∨
    (nextStale stale : TaskPhase Content) = .done := by
  cases stale with
  | cons path rest => exact .inl ⟨path, rest, rfl, rfl⟩
  | nil => exact .inr rfl

end TaskPhase

/-! ## The schedule -/

/-- A stored row that a task has found unchanged and is to act on is not deleted by another task,
nor replaced by one that has seen something else.  The time and size of a new file are new: no task
in progress has seen them, and a stored row that has them has the hash of the content. -/
def Apart (ix : MemoryIndexer Content Hash Row) (path : String) (s : SyncState Content Hash Row) :
    SyncEvent Content → Prop
  | .begin _ _ => True
  | .change other file => other = path → ∀ new, file = some new →
      (∀ row, s.rows path = some row → row.stat = new.stat → row.hash = ix.hash new.content) ∧
      ∀ m, (s.phase m).At path → ¬ (s.phase m).SeesStat new.stat
  | .step n =>
    match s.phase n with
    | .deletingFile job _ _ => job.path = path →
        ∀ m, m ≠ n → ¬ (s.phase m).Found path (s.files path)
    | .staleFile other _ | .removeFile other => other = path →
        ∀ m, m ≠ n → ¬ (s.phase m).Found path (s.files path)
    | .upsertFile job stat content | .replacing job stat content => job.path = path →
        ∀ m, m ≠ n → (s.phase m).Found path (s.files path) →
          (s.phase m).Agrees ⟨content, stat⟩
    | _ => True

/-! ## What the tasks know -/

variable {ix : MemoryIndexer Content Hash Row} {path : String}

/-- A task that has seen the time and size of the file has seen the file, and what a task has found
in the stored row is there. -/
def TaskPhase.Known (ix : MemoryIndexer Content Hash Row) (path : String)
    (e : PathEntry Content Hash Row) (phase : TaskPhase Content) : Prop :=
  (phase.At path → ∀ file, e.file = some file → phase.SeesStat file.stat → phase.Sees file) ∧
  (phase.Found path e.file → ∃ row, e.row = some row ∧ phase.MatchesRow ix row)

/-- The chunks are those of a content with the hash of the row. -/
def ChunksOf (ix : MemoryIndexer Content Hash Row) (path : String) (chunks : List Row)
    (hash : Hash) : Prop :=
  ∃ content, hash = ix.hash content ∧ ix.chunkRows path content = some chunks

structure SyncSound (ix : MemoryIndexer Content Hash Row) (path : String)
    (s : SyncState Content Hash Row) : Prop where
  known : ∀ m, (s.phase m).Known ix path (s.entry path)
  /-- A row with the time and size of the file has its hash. -/
  stat : ∀ row file, s.rows path = some row → s.files path = some file → row.stat = file.stat →
    row.hash = ix.hash file.content
  chunks : ∀ row, s.rows path = some row →
    ChunksOf ix path (s.chunks path) row.hash ∨ ∃ m, (s.phase m).DeletesRow path

variable {row : Option (FileRow Hash)}

section Entries

variable {s : SyncState Content Hash Row} {n : ℕ} {phase : TaskPhase Content} {other : String}

theorem entry_setPhase : (s.setPhase n phase).entry path = s.entry path := rfl

theorem entry_setLocked {locked : Bool} :
    (s.setLocked other locked).entry path = s.entry path := rfl

theorem entry_setRow_of_ne (hne : other ≠ path) :
    (s.setRow other row).entry path = s.entry path := by
  rw [entry, setRow]
  dsimp only
  rw [update_of_ne hne.symm]
  rfl

theorem entry_setRow :
    (s.setRow path row).entry path = { s.entry path with row := row } := by
  rw [entry, setRow]
  dsimp only
  rw [update_self]
  rfl

theorem entry_setChunks_of_ne (hne : other ≠ path) {chunks : List Row} :
    (s.setChunks other chunks).entry path = s.entry path := by
  rw [entry, setChunks]
  dsimp only
  rw [update_of_ne hne.symm]
  rfl

theorem entry_setChunks {chunks : List Row} :
    (s.setChunks path chunks).entry path = { s.entry path with chunks := chunks } := by
  rw [entry, setChunks]
  dsimp only
  rw [update_self]
  rfl

end Entries

namespace TaskPhase

variable {e : PathEntry Content Hash Row} {old new : TaskPhase Content}

theorem known_of_job_eq_none (h : new.job = none) : new.Known ix path e := by
  cases new with
  | idle | listing _ | staleChunks _ _ | staleFile _ _ | removing _ | removeChunks _
  | removeFile _ | done => exact ⟨nofun, nofun⟩
  | _ => cases h

theorem known_nextFile {discovered : Option (List String)} {todo : List String} :
    (nextFile discovered todo).Known ix path e := by
  rcases @nextFile_cases Content discovered todo with
    ⟨_, _, -, h⟩ | ⟨_, -, h⟩ | h <;> rw [h]
  · exact ⟨fun _ _ _ _ => trivial, nofun⟩
  · exact known_of_job_eq_none rfl
  · exact known_of_job_eq_none rfl

theorem known_nextStale {stale : List String} : (nextStale stale).Known ix path e := by
  rcases @nextStale_cases Content stale with ⟨_, _, -, h⟩ | h <;>
    rw [h] <;> exact known_of_job_eq_none rfl

end TaskPhase

namespace SyncSound

variable {s t : SyncState Content Hash Row} {n : ℕ} {old new : TaskPhase Content}

theorem start (hidle : ∀ m, s.phase m = .idle)
    (hstat : ∀ row file, s.rows path = some row → s.files path = some file →
      row.stat = file.stat → row.hash = ix.hash file.content)
    (hchunks : ∀ row, s.rows path = some row → ChunksOf ix path (s.chunks path) row.hash) :
    SyncSound ix path s where
  known m := by
    rw [hidle m]
    exact TaskPhase.known_of_job_eq_none rfl
  stat := hstat
  chunks row hrow := .inl (hchunks row hrow)

theorem go (h : SyncSound ix path s) (hphase : s.phase n = old)
    (hnext : t.phase = update s.phase n new) (hentry : t.entry path = s.entry path)
    (hold : ¬ old.DeletesRow path) (hnew : new.Known ix path (s.entry path)) :
    SyncSound ix path t := by
  have hfile : t.files path = s.files path := congrArg PathEntry.file hentry
  have hrow : t.rows path = s.rows path := congrArg PathEntry.row hentry
  have hchunks : t.chunks path = s.chunks path := congrArg PathEntry.chunks hentry
  refine ⟨fun m => ?_, ?_, fun row => ?_⟩
  · rw [hentry, hnext]
    by_cases heq : m = n
    · rw [heq, update_self]
      exact hnew
    · rw [update_of_ne heq]
      exact h.known m
  · rw [hfile, hrow]
    exact h.stat
  · rw [hrow, hchunks]
    intro hsome
    refine (h.chunks row hsome).imp_right fun ⟨m, hm⟩ => ⟨m, ?_⟩
    rw [hnext, update_of_ne]
    · exact hm
    · rintro rfl
      exact hold (hphase ▸ hm)

theorem write (h : SyncSound ix path s) (hnext : t.phase = update s.phase n new)
    (hfile : t.files path = s.files path) (hnew : new.Known ix path (t.entry path))
    (hfound : ∀ m, m ≠ n → (s.phase m).Found path (s.files path) →
      ∃ row, t.rows path = some row ∧ (s.phase m).MatchesRow ix row)
    (hstat : ∀ row file, t.rows path = some row → s.files path = some file →
      row.stat = file.stat → row.hash = ix.hash file.content)
    (hchunks : ∀ row, t.rows path = some row → ChunksOf ix path (t.chunks path) row.hash ∨
      ∃ m, (t.phase m).DeletesRow path) : SyncSound ix path t := by
  refine ⟨fun m => ?_, fun row file hrow hsome => hstat row file hrow (hfile ▸ hsome), hchunks⟩
  by_cases heq : m = n
  · rw [heq, hnext, update_self]
    exact hnew
  · rw [hnext, update_of_ne heq]
    refine ⟨fun hat file hsome => (h.known m).1 hat file ?_, fun hfind => hfound m heq ?_⟩
    · exact hfile.symm.trans hsome
    · exact hfile ▸ hfind

theorem deleteChunks (h : SyncSound ix path s) (hnext : t.phase = update s.phase n new)
    (hentry : t.entry path = { s.entry path with chunks := [] }) (hnew : new.DeletesRow path)
    (hknown : new.Known ix path (t.entry path)) : SyncSound ix path t := by
  have hrow : t.rows path = s.rows path := congrArg PathEntry.row hentry
  refine h.write hnext (congrArg PathEntry.file hentry) hknown (fun m _ hfound => ?_)
    (fun row file hsome => h.stat row file (hrow ▸ hsome)) fun row _ => .inr ⟨n, ?_⟩
  · rw [hrow]
    exact (h.known m).2 hfound
  · rw [hnext, update_self]
    exact hnew

theorem deleteRow (h : SyncSound ix path s) (hnext : t.phase = update s.phase n new)
    (hentry : t.entry path = { s.entry path with row := none })
    (hknown : new.Known ix path (t.entry path))
    (hapart : ∀ m, m ≠ n → ¬ (s.phase m).Found path (s.files path)) : SyncSound ix path t := by
  have hrow : t.rows path = none := congrArg PathEntry.row hentry
  refine h.write hnext (congrArg PathEntry.file hentry) hknown
    (fun m hne hfound => absurd hfound (hapart m hne)) (fun row file hsome => ?_) fun row hsome => ?_
  · cases hrow.symm.trans hsome
  · cases hrow.symm.trans hsome

variable {job : SyncJob} {stat : FileStat} {content : Content}

theorem storeRow (h : SyncSound ix path s) (hphase : s.phase n = old) (hat : old.At path)
    (hsees : ∀ file, s.files path = some file → stat = file.stat → old.SeesStat file.stat)
    (hcontent : ∀ file, old.Sees file → ⟨content, stat⟩ = file)
    (hnext : t.phase = update s.phase n new) (hfile : t.files path = s.files path)
    (hrow : t.rows path = some (ix.fileRow content stat))
    (hchunks : ChunksOf ix path (t.chunks path) (ix.hash content) ∨
      ∃ m, m ≠ n ∧ (s.phase m).DeletesRow path)
    (hknown : new.Known ix path (t.entry path))
    (hapart : ∀ m, m ≠ n → (s.phase m).Found path (s.files path) →
      (s.phase m).Agrees ⟨content, stat⟩) : SyncSound ix path t := by
  refine h.write hnext hfile hknown (fun m hne hfound => ?_)
    (fun row file hsome hsomeFile hsame => ?_)
    fun row hsome => ?_
  · exact ⟨_, hrow, (hapart m hne hfound).matchesRow⟩
  · cases Option.some.inj (hrow.symm.trans hsome)
    have hknowsFile := (h.known n).1
    rw [hphase] at hknowsFile
    have hseen := hcontent file (hknowsFile hat file hsomeFile (hsees file hsomeFile hsame))
    exact congrArg (fun file : MarkdownFile Content => ix.hash file.content) hseen
  · cases Option.some.inj (hrow.symm.trans hsome)
    refine hchunks.imp_right fun ⟨m, hne, hm⟩ => ⟨m, ?_⟩
    rw [hnext, update_of_ne hne]
    exact hm

theorem keep (h : SyncSound ix path s) (hphase : s.phase n = old)
    (hold : ¬ old.DeletesRow path) (hnew : new.Known ix path (s.entry path)) :
    SyncSound ix path (s.setPhase n new) :=
  h.go hphase rfl rfl hold hnew

theorem known_of (h : SyncSound ix path s) (hphase : s.phase n = old)
    (hat : new.At path → old.At path)
    (hstat : ∀ stat, new.SeesStat stat → old.SeesStat stat)
    (hsees : ∀ file, old.Sees file → new.Sees file)
    (hfound : ∀ file, new.Found path file → old.Found path file ∧
      ∀ row, old.MatchesRow ix row → new.MatchesRow ix row) :
    new.Known ix path (s.entry path) := by
  obtain ⟨hsee, hfind⟩ := hphase ▸ h.known n
  refine ⟨fun hnew file hfile hseen => hsees file (hsee (hat hnew) file hfile (hstat _ hseen)), ?_⟩
  intro hnew
  obtain ⟨hold, hrow⟩ := hfound _ hnew
  obtain ⟨row, hsome, hmatches⟩ := hfind hold
  exact ⟨row, hsome, hrow row hmatches⟩

theorem known_afterGetFile (h : SyncSound ix path s) (hphase : s.phase n = .getFile job stat) :
    (afterGetFile ix (s.rows job.path) job stat).Known ix path (s.entry path) := by
  have hseen := (h.known n).1
  rw [hphase] at hseen
  cases hrow : s.rows job.path with
  | none => exact ⟨hseen, nofun⟩
  | some existing =>
    rw [afterGetFile]
    split_ifs with hstat
    · refine ⟨hseen, fun hfound => ⟨existing, ?_, hstat⟩⟩
      obtain ⟨rfl, -⟩ := hfound
      exact hrow
    · exact TaskPhase.known_nextFile
    · exact ⟨hseen, nofun⟩

theorem known_splitChunks {epoch : ℕ}
    (hseen : job.path = path → ∀ file, s.files path = some file → stat = file.stat →
      ⟨content, stat⟩ = file) :
    (splitChunks ix job stat epoch content).Known ix path (s.entry path) := by
  rw [splitChunks]
  split_ifs
  · exact ⟨hseen, nofun⟩
  · exact TaskPhase.known_nextFile

variable [DecidableEq Hash]

theorem known_afterGetAgain (h : SyncSound ix path s) {epoch : ℕ}
    (hphase : s.phase n = .getAgain job stat epoch content) :
    (afterGetAgain ix (s.rows job.path) job stat epoch content).Known ix path (s.entry path) := by
  have hseen := (h.known n).1
  rw [hphase] at hseen
  cases hrow : s.rows job.path with
  | none => exact known_splitChunks hseen
  | some existing =>
    have hfound : existing.hash = ix.hash content → job.path = path →
        ∃ row, s.rows path = some row ∧ row.hash = ix.hash content := by
      rintro hhash rfl
      exact ⟨existing, hrow, hhash⟩
    rw [afterGetAgain]
    split_ifs with hhash
    · exact ⟨hseen, hfound hhash⟩
    · exact ⟨hseen, hfound hhash⟩
    · exact ⟨hseen, nofun⟩

/-- **One step** keeps what the tasks know, if it is apart from what they have found. -/
theorem step (h : SyncSound ix path s) {e : SyncEvent Content} (hstep : SyncStep ix s e t)
    (hapart : Apart ix path s e) : SyncSound ix path t := by
  cases hstep with
  | beginSyncPath hphase _ => exact h.keep hphase nofun ⟨fun _ _ _ => nofun, nofun⟩
  | beginSync hphase _ => exact h.keep hphase nofun TaskPhase.known_nextFile
  | beginSyncOther hphase _ | beginRemovePath hphase =>
    exact h.keep hphase nofun (TaskPhase.known_of_job_eq_none rfl)
  | @metadata _ job file hphase hfile =>
    refine h.keep hphase nofun ⟨fun hat found hfound _ => ?_, nofun⟩
    obtain rfl : job.path = path := hat
    rw [Option.some.inj (hfile.symm.trans hfound)]
    rfl
  | metadataNone hphase _ | readNone hphase _ | readNotText hphase _ _
  | epochChanged hphase _ _ | existsNot hphase _ =>
    exact h.go hphase rfl rfl nofun TaskPhase.known_nextFile
  | getFile hphase => exact h.keep hphase nofun (h.known_afterGetFile hphase)
  | sameStat hphase =>
    refine h.keep hphase nofun ?_
    split_ifs
    · exact TaskPhase.known_nextFile
    · exact h.known_of hphase id (fun _ => id) (fun _ => id) nofun
  | startEpoch hphase _ =>
    exact h.keep hphase nofun (h.known_of hphase id (fun _ => id) (fun _ => id) nofun)
  | @read _ job stat epoch file hphase hfile _ =>
    refine h.keep hphase nofun ⟨fun hat found hfound hseen => ?_, nofun⟩
    obtain rfl : job.path = path := hat
    obtain rfl : stat = found.stat := hseen
    rw [Option.some.inj (hfile.symm.trans hfound)]
    rfl
  | getAgain hphase => exact h.keep hphase nofun (h.known_afterGetAgain hphase)
  | @sameHash n job stat epoch content hphase =>
    refine h.keep hphase nofun ?_
    split_ifs
    · exact h.known_of hphase id (fun _ => id) (fun _ => id) fun _ hfound => ⟨hfound, fun _ => id⟩
    · have hseen := (h.known n).1
      rw [hphase] at hseen
      exact known_splitChunks hseen
  | @upsertFile n job stat content hphase =>
    by_cases hpath : job.path = path
    · rw [Apart, hphase] at hapart
      subst hpath
      obtain ⟨row, hrow, hsame⟩ := (hphase ▸ h.known n).2 rfl
      have hchunks : ChunksOf ix job.path (s.chunks job.path) (ix.hash content) ∨
          ∃ m, m ≠ n ∧ (s.phase m).DeletesRow job.path := by
        rw [← show row.hash = ix.hash content from hsame]
        refine (h.chunks row hrow).imp_right fun ⟨m, hm⟩ => ⟨m, ?_, hm⟩
        rintro rfl
        rw [hphase] at hm
        exact hm
      exact h.storeRow hphase rfl (fun _ _ => id) (fun _ => id) rfl rfl
        (congrArg PathEntry.row entry_setRow) hchunks TaskPhase.known_nextFile (hapart rfl)
    · exact h.go hphase rfl (entry_setPhase.trans (entry_setRow_of_ne hpath)) nofun
        TaskPhase.known_nextFile
  | bump hphase _ =>
    exact h.go hphase rfl rfl nofun (h.known_of hphase id (fun _ => id) (fun _ => id) nofun)
  | @deleteChunks _ job stat content hphase =>
    have hknown : (TaskPhase.deletingFile job stat content).Known ix path (s.entry path) :=
      h.known_of hphase id (fun _ => id) (fun _ => id) nofun
    by_cases hpath : job.path = path
    · subst hpath
      exact h.deleteChunks rfl (entry_setPhase.trans entry_setChunks) rfl ⟨hknown.1, nofun⟩
    · exact h.go hphase rfl (entry_setPhase.trans (entry_setChunks_of_ne hpath)) nofun hknown
  | @deleteFile _ job stat content hphase =>
    have hknown : (TaskPhase.epochAgain job stat content).Known ix path (s.entry path) :=
      h.known_of hphase id (fun _ => id) (fun _ => id) nofun
    by_cases hpath : job.path = path
    · rw [Apart, hphase] at hapart
      subst hpath
      exact h.deleteRow rfl (entry_setPhase.trans entry_setRow) ⟨hknown.1, nofun⟩ (hapart rfl)
    · exact h.go hphase rfl (entry_setPhase.trans (entry_setRow_of_ne hpath)) hpath hknown
  | @epochAgain n job stat content hphase _ =>
    have hseen := (h.known n).1
    rw [hphase] at hseen
    exact h.keep hphase nofun (known_splitChunks hseen)
  | lock hphase _ _ | «exists» hphase _ =>
    exact h.go hphase rfl rfl nofun (h.known_of hphase id (fun _ => id) (fun _ => id) nofun)
  | @replace n job stat content rows hphase hrows =>
    by_cases hpath : job.path = path
    · rw [Apart, hphase] at hapart
      subst hpath
      have hstored : update s.chunks job.path rows job.path = rows :=
        update_self ..
      exact h.storeRow hphase rfl (fun _ _ => id) (fun _ => id) rfl rfl (update_self ..)
        (.inl ⟨content, rfl, hrows.trans (congrArg some hstored.symm)⟩) TaskPhase.known_nextFile
        (hapart rfl)
    · refine h.go hphase rfl ?_ nofun TaskPhase.known_nextFile
      rw [entry_setPhase, entry_setLocked, entry_setChunks_of_ne hpath, entry_setRow_of_ne hpath]
  | list hphase _ => exact h.keep hphase nofun TaskPhase.known_nextStale
  | @staleChunks _ other stale hphase =>
    by_cases hpath : other = path
    · subst hpath
      exact h.deleteChunks rfl (entry_setPhase.trans entry_setChunks) rfl
        (TaskPhase.known_of_job_eq_none rfl)
    · exact h.go hphase rfl (entry_setPhase.trans (entry_setChunks_of_ne hpath)) nofun
        (TaskPhase.known_of_job_eq_none rfl)
  | @staleFile _ other stale hphase =>
    by_cases hpath : other = path
    · rw [Apart, hphase] at hapart
      subst hpath
      exact h.deleteRow rfl (entry_setPhase.trans entry_setRow) TaskPhase.known_nextStale
        (hapart rfl)
    · exact h.go hphase rfl (entry_setPhase.trans (entry_setRow_of_ne hpath)) hpath
        TaskPhase.known_nextStale
  | remove hphase _ => exact h.go hphase rfl rfl nofun (TaskPhase.known_of_job_eq_none rfl)
  | @removeChunks _ other hphase =>
    by_cases hpath : other = path
    · subst hpath
      exact h.deleteChunks rfl (entry_setPhase.trans entry_setChunks) rfl
        (TaskPhase.known_of_job_eq_none rfl)
    · exact h.go hphase rfl (entry_setPhase.trans (entry_setChunks_of_ne hpath)) nofun
        (TaskPhase.known_of_job_eq_none rfl)
  | @removeFile _ other hphase =>
    by_cases hpath : other = path
    · rw [Apart, hphase] at hapart
      subst hpath
      refine h.deleteRow rfl ?_ (TaskPhase.known_of_job_eq_none rfl) (hapart rfl)
      rw [entry_setPhase, entry_setLocked, entry_setRow]
    · refine h.go hphase rfl ?_ hpath (TaskPhase.known_of_job_eq_none rfl)
      rw [entry_setPhase, entry_setLocked, entry_setRow_of_ne hpath]
  | @change other file =>
    by_cases hpath : other = path
    · obtain hnew := hapart hpath
      subst hpath
      have hfile : update s.files other file other = file := update_self ..
      refine ⟨fun m => ⟨fun hat new hsome hseen => ?_, fun hfound => ?_⟩,
        fun row new hrow hsome hstat => ?_, h.chunks⟩
      · exact absurd hseen ((hnew new (hfile.symm.trans hsome)).2 m hat)
      · rcases hfound.of_change with ⟨new, hsome, hat, hseen⟩ | hfound
        · exact absurd hseen ((hnew new (hfile.symm.trans hsome)).2 m hat)
        · exact (h.known m).2 (hfound _)
      · exact (hnew new (hfile.symm.trans hsome)).1 row hrow hstat
    · have hentry : SyncState.entry { s with files := update s.files other file } path =
          s.entry path := by
        rw [entry]
        dsimp only
        rw [update_of_ne (Ne.symm hpath)]
        rfl
      refine ⟨fun m => hentry ▸ h.known m, ?_, h.chunks⟩
      have hfile := congrArg PathEntry.file hentry
      intro row new hrow hsome
      exact h.stat row new hrow (hfile.symm.trans hsome)

end SyncSound

/-! ## The lock -/

/-- The lock of the path is taken while a task holds it, and by one task only. -/
structure Locks (path : String) (s : SyncState Content Hash Row) : Prop where
  locked : ∀ m, (s.phase m).Holds path → s.locked path = true
  one : ∀ m k, (s.phase m).Holds path → (s.phase k).Holds path → m = k

namespace TaskPhase

theorem not_holds_nextFile {discovered : Option (List String)} {todo : List String} :
    ¬ (nextFile discovered todo : TaskPhase Content).Holds path := by
  rcases @nextFile_cases Content discovered todo with
    ⟨_, _, -, h⟩ | ⟨_, -, h⟩ | h <;> rw [h] <;> exact id

theorem not_holds_nextStale {stale : List String} :
    ¬ (nextStale stale : TaskPhase Content).Holds path := by
  rcases @nextStale_cases Content stale with ⟨_, _, -, h⟩ | h <;> rw [h] <;> exact id

end TaskPhase

namespace Locks

open TaskPhase

variable {s t : SyncState Content Hash Row} {n : ℕ} {old new : TaskPhase Content}

theorem start (hidle : ∀ m, s.phase m = .idle) : Locks path s where
  locked m h := by
    rw [hidle m] at h
    cases h
  one m k h := by
    rw [hidle m] at h
    cases h

theorem go (h : Locks path s) (hphase : s.phase n = old)
    (hnext : t.phase = update s.phase n new) (hlocked : t.locked path = s.locked path)
    (hholds : new.Holds path → old.Holds path) : Locks path t := by
  have hbefore (m : ℕ) (hm : (t.phase m).Holds path) : (s.phase m).Holds path := by
    rw [hnext] at hm
    by_cases heq : m = n
    · rw [heq, update_self] at hm
      rw [heq, hphase]
      exact hholds hm
    · rwa [update_of_ne heq] at hm
  exact ⟨fun m hm => hlocked.trans (h.locked m (hbefore m hm)), fun m k hm hk =>
    h.one m k (hbefore m hm) (hbefore k hk)⟩

theorem take (h : Locks path s) (hnext : t.phase = update s.phase n new)
    (hfree : s.locked path = false) (hlocked : t.locked path = true) : Locks path t := by
  have honly (m : ℕ) (hm : (t.phase m).Holds path) : m = n := by
    by_contra hne
    rw [hnext, update_of_ne hne] at hm
    exact absurd (hfree.symm.trans (h.locked m hm)) nofun
  exact ⟨fun _ _ => hlocked, fun m k hm hk => (honly m hm).trans (honly k hk).symm⟩

theorem release (h : Locks path s) (hphase : s.phase n = old) (hold : old.Holds path)
    (hnext : t.phase = update s.phase n new) (hnew : ¬ new.Holds path) :
    Locks path t := by
  have hnone (m : ℕ) (hm : (t.phase m).Holds path) : False := by
    rw [hnext] at hm
    by_cases heq : m = n
    · rw [heq, update_self] at hm
      exact hnew hm
    · rw [update_of_ne heq] at hm
      exact heq (h.one m n hm (hphase ▸ hold))
  exact ⟨fun m hm => (hnone m hm).elim, fun m _ hm => (hnone m hm).elim⟩

theorem setLocked_of_ne {other : String} (hne : other ≠ path) {locked : Bool} :
    (s.setLocked other locked).locked path = s.locked path :=
  update_of_ne hne.symm ..

theorem not_holds_afterGetFile {job : SyncJob} {stat : FileStat} :
    ¬ (afterGetFile ix row job stat).Holds path := by
  cases row with
  | none => exact id
  | some existing =>
    rw [afterGetFile]
    split_ifs
    · exact id
    · exact not_holds_nextFile
    · exact id

theorem not_holds_splitChunks {job : SyncJob} {stat : FileStat} {epoch : ℕ} {content : Content} :
    ¬ (splitChunks ix job stat epoch content).Holds path := by
  rw [splitChunks]
  split_ifs
  · exact id
  · exact not_holds_nextFile

variable [DecidableEq Hash]

theorem not_holds_afterGetAgain {job : SyncJob} {stat : FileStat} {epoch : ℕ} {content : Content} :
    ¬ (afterGetAgain ix row job stat epoch content).Holds path := by
  cases row with
  | none => exact not_holds_splitChunks
  | some existing =>
    rw [afterGetAgain]
    split_ifs <;> exact id

theorem step (h : Locks path s) {e : SyncEvent Content} (hstep : SyncStep ix s e t) :
    Locks path t := by
  cases hstep with
  | beginSyncPath hphase _ | beginSyncOther hphase _ | beginRemovePath hphase | metadata hphase _
  | startEpoch hphase _ | read hphase _ _ | bump hphase _ | deleteChunks hphase | deleteFile hphase
  | staleChunks hphase => exact h.go hphase rfl rfl nofun
  | beginSync hphase _ | metadataNone hphase _ | readNone hphase _ | readNotText hphase _ _
  | upsertFile hphase | epochChanged hphase _ _ =>
    exact h.go hphase rfl rfl fun hholds => absurd hholds not_holds_nextFile
  | list hphase _ | staleFile hphase =>
    exact h.go hphase rfl rfl fun hholds => absurd hholds not_holds_nextStale
  | getFile hphase => exact h.go hphase rfl rfl fun hholds => absurd hholds not_holds_afterGetFile
  | getAgain hphase => exact h.go hphase rfl rfl fun hholds => absurd hholds not_holds_afterGetAgain
  | sameStat hphase =>
    refine h.go hphase rfl rfl fun hholds => absurd hholds ?_
    split_ifs
    · exact not_holds_nextFile
    · exact id
  | sameHash hphase =>
    refine h.go hphase rfl rfl fun hholds => absurd hholds ?_
    split_ifs
    · exact id
    · exact not_holds_splitChunks
  | epochAgain hphase _ =>
    exact h.go hphase rfl rfl fun hholds => absurd hholds not_holds_splitChunks
  | @lock _ job _ _ _ hphase hfree _ =>
    by_cases hpath : job.path = path
    · subst hpath
      exact h.take rfl hfree (update_self ..)
    · exact h.go hphase rfl (setLocked_of_ne hpath) hpath
  | «exists» hphase _ => exact h.go hphase rfl rfl id
  | @existsNot _ job _ _ hphase _ | @replace _ job _ _ _ hphase _ =>
    by_cases hpath : job.path = path
    · exact h.release hphase hpath rfl not_holds_nextFile
    · exact h.go hphase rfl (setLocked_of_ne hpath) fun hholds => absurd hholds not_holds_nextFile
  | @remove _ other hphase hfree =>
    by_cases hpath : other = path
    · subst hpath
      exact h.take rfl hfree (update_self ..)
    · exact h.go hphase rfl (setLocked_of_ne hpath) hpath
  | removeChunks hphase => exact h.go hphase rfl rfl id
  | @removeFile _ other hphase =>
    by_cases hpath : other = path
    · exact h.release hphase hpath rfl id
    · exact h.go hphase rfl (setLocked_of_ne hpath) nofun
  | change => exact ⟨h.locked, h.one⟩

end Locks

end Chelix.Memory
