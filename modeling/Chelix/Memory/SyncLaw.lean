import Chelix.Memory.SyncTasks

/-!
# The memory index in step with a file

From the moment a sync of a file starts, some task that has seen the file as it is is still to
write its rows; or the rows are those of the file, and no task that has seen anything else can
still get through.  Where there is no file, a removal is still to delete the rows; or there are
none, and no task can store any.

* **`memory_converges`**: the rows when all tasks have finished.
-/

namespace Chelix.Memory

open Chelix.Library SyncState TaskPhase Function

variable {Content Hash Row : Type}

/-! ## The schedule -/

/-- The stored rows are those of the file. -/
def Matches (ix : MemoryIndexer Content Hash Row) (path : String)
    (e : PathEntry Content Hash Row) : Prop :=
  match e.file with
  | some file =>
    e.row = some (ix.fileRow file.content file.stat) ∧
    ix.chunkRows path file.content = some e.chunks
  | none => e.row = none ∧ e.chunks = []

/-- A full sync has discovered the path. -/
def SyncJob.Lists (path : String) (job : SyncJob) : Prop :=
  ∀ discovered, job.discovered = some discovered → path ∈ discovered

namespace TaskPhase

/-- If the task has looked at the epoch, this was it. -/
def InEpoch (epoch : ℕ) : TaskPhase Content → Prop
  | .reading _ _ seen | .getAgain _ _ seen _ | .sameHash _ _ seen _ | .embedding _ _ seen _ =>
    seen = epoch
  | _ => True

/-- The task embeds its chunks and has seen another epoch, so that it will not store them. -/
def Refused (epoch : ℕ) : TaskPhase Content → Prop
  | .embedding _ _ seen _ => seen ≠ epoch
  | _ => False

/-- The task removes the rows of the path, or is a full sync that has not discovered it. -/
def RemovesRows (path : String) : TaskPhase Content → Prop
  | .listing discovered => path ∉ discovered
  | .staleChunks other stale | .staleFile other stale => path = other ∨ path ∈ stale
  | .removeChunks other | .removeFile other => other = path
  | _ => False

/-- The task has seen the file as it is, or will look at it, and is to write its rows. -/
def Owes (path : String) (file : MarkdownFile Content) (epoch : ℕ)
    (phase : TaskPhase Content) : Prop :=
  match phase.job with
  | some job => job.Lists path ∧
      (path ∈ job.todo ∨ job.path = path ∧ phase.Sees file ∧ phase.InEpoch epoch)
  | none => False

/-- The task has seen something else than the file as it is, and may still write or delete rows. -/
def Outdated (path : String) (file : MarkdownFile Content) (epoch : ℕ)
    (phase : TaskPhase Content) : Prop :=
  match phase.job with
  | some job => ¬ job.Lists path ∨ job.path = path ∧ ¬ (phase.Sees file ∨ phase.Refused epoch)
  | none => phase.RemovesRows path

end TaskPhase

section Turns

variable (path : String) (s : SyncState Content Hash Row)

/-- Another task that has seen the file as it is follows, or no other that has not can still get
through. -/
def LastBut (n : ℕ) (file : MarkdownFile Content) : Prop :=
  (∃ k, k ≠ n ∧ (s.phase k).Owes path file (s.epochs path)) ∨
  ∀ k, k ≠ n → ¬ (s.phase k).Outdated path file (s.epochs path)

/-- The file does not change.  A task that has seen the file as it is finishes with it only as the
last one; and the epoch is counted up only while such a task has not looked at it yet. -/
def InTurn (ix : MemoryIndexer Content Hash Row) : SyncEvent Content → Prop
  | .begin _ _ => True
  | .change other _ => other ≠ path
  | .step n => ∀ file, s.files path = some file →
      match s.phase n with
      | .getFile job stat => job.path = path → stat = file.stat →
          (s.rows path).map (·.stat) = some stat → ix.hasEmbedder = false → LastBut path s n file
      | .sameStat job stat => job.path = path → stat = file.stat →
          ix.fileEmbeddingsCurrent (s.chunks path) = true → LastBut path s n file
      | .upsertFile job stat content | .replacing job stat content => job.path = path →
          ⟨content, stat⟩ = file → LastBut path s n file
      | .bumping job _ _ => job.path = path →
          ∃ k, (s.phase k).Owes path file (s.epochs path + 1)
      | .removing other => other = path →
          ∃ k, (s.phase k).Owes path file (s.epochs path + 1)
      | _ => True

end Turns

/-! ## Tasks that have seen the file -/

variable {path : String} {file : MarkdownFile Content} {epoch epoch' : ℕ}
  {old new : TaskPhase Content} {job : SyncJob}

namespace TaskPhase

theorem owes_iff (hjob : old.job = some job) : old.Owes path file epoch ↔
    job.Lists path ∧
      (path ∈ job.todo ∨ job.path = path ∧ old.Sees file ∧ old.InEpoch epoch) := by
  rw [Owes, hjob]

theorem outdated_iff (hjob : old.job = some job) : old.Outdated path file epoch ↔
    ¬ job.Lists path ∨ job.path = path ∧ ¬ (old.Sees file ∨ old.Refused epoch) := by
  rw [Outdated, hjob]

theorem Owes.imp (hold : old.job = some job) (hnew : new.job = some job)
    (h : job.path = path → old.Sees file → old.InEpoch epoch →
      new.Sees file ∧ new.InEpoch epoch') :
    old.Owes path file epoch → new.Owes path file epoch' := by
  rw [owes_iff hold, owes_iff hnew]
  rintro ⟨hlists, htodo | ⟨hpath, hsees, hepoch⟩⟩
  · exact ⟨hlists, .inl htodo⟩
  · exact ⟨hlists, .inr ⟨hpath, h hpath hsees hepoch⟩⟩

theorem Outdated.imp (hold : old.job = some job) (hnew : new.job = some job)
    (h : job.path = path → old.Sees file ∨ old.Refused epoch →
      new.Sees file ∨ new.Refused epoch) :
    new.Outdated path file epoch → old.Outdated path file epoch := by
  rw [outdated_iff hold, outdated_iff hnew]
  rintro (hlists | ⟨hpath, hnot⟩)
  · exact .inl hlists
  · exact .inr ⟨hpath, fun hsees => hnot (h hpath hsees)⟩

theorem owes_nextFile (hlists : job.Lists path) (htodo : path ∈ job.todo) :
    (job.next : TaskPhase Content).Owes path file epoch := by
  rw [SyncJob.next]
  obtain ⟨_, discovered, todo⟩ := job
  cases todo with
  | nil => cases htodo
  | cons next rest =>
    refine ⟨hlists, (List.mem_cons.mp htodo).symm.imp_right fun heq => ?_⟩
    exact ⟨heq.symm, trivial, trivial⟩

theorem Owes.next (hold : old.job = some job)
    (h : job.path = path → old.Sees file → old.InEpoch epoch → False) :
    old.Owes path file epoch → (job.next : TaskPhase Content).Owes path file epoch' := by
  rw [owes_iff hold]
  rintro ⟨hlists, htodo | ⟨hpath, hsees, hepoch⟩⟩
  · exact owes_nextFile hlists htodo
  · exact (h hpath hsees hepoch).elim

theorem Outdated.lists_of_next (h : (job.next : TaskPhase Content).Outdated path file epoch) :
    ¬ job.Lists path := by
  rw [SyncJob.next] at h
  obtain ⟨_, discovered, todo⟩ := job
  cases todo with
  | cons _ _ => exact h.elim id fun h => absurd (.inl trivial) h.2
  | nil =>
    cases discovered with
    | some discovered => exact fun hlists => h (hlists discovered rfl)
    | none => cases h

theorem Outdated.next (hold : old.job = some job)
    (h : (job.next : TaskPhase Content).Outdated path file epoch) :
    old.Outdated path file epoch :=
  (outdated_iff hold).mpr (.inl h.lists_of_next)

theorem outdated_nextStale {stale : List String}
    (h : (nextStale stale : TaskPhase Content).Outdated path file epoch) : path ∈ stale := by
  cases stale with
  | nil => cases h
  | cons other rest => exact List.mem_cons.mpr h

theorem owes_or_outdated (hjob : old.job = some job) (hpath : job.path = path)
    (hepoch : old.InEpoch epoch) (hrefused : ¬ old.Refused epoch) :
    old.Owes path file epoch ∨ old.Outdated path file epoch := by
  rw [owes_iff hjob, outdated_iff hjob]
  by_cases hlists : job.Lists path
  · by_cases hsees : old.Sees file
    · exact .inl ⟨hlists, .inr ⟨hpath, hsees, hepoch⟩⟩
    · exact .inr (.inr ⟨hpath, fun h => h.elim hsees hrefused⟩)
  · exact .inr (.inl hlists)

end TaskPhase

/-! ## A file that exists -/

variable {stat : FileStat} {content : Content} {e : SyncEvent Content}

section Exists

variable {ix : MemoryIndexer Content Hash Row} {s t : SyncState Content Hash Row} {n : ℕ}

/-- A task that has seen the file as it is is to write its rows; or the rows are those of the file,
and no task that has seen anything else can still get through. -/
def Current (ix : MemoryIndexer Content Hash Row) (path : String) (file : MarkdownFile Content)
    (s : SyncState Content Hash Row) : Prop :=
  (∃ m, (s.phase m).Owes path file (s.epochs path)) ∨
  Matches ix path (s.entry path) ∧ ∀ m, ¬ (s.phase m).Outdated path file (s.epochs path)

namespace Current

theorem of_owes (hnext : t.phase = update s.phase n new) (hepoch : t.epochs path = epoch)
    (h : new.Owes path file epoch) : Current ix path file t :=
  .inl ⟨n, by rw [hnext, hepoch, update_self]; exact h⟩

theorem of_other (hnext : t.phase = update s.phase n new) (hepoch : t.epochs path = epoch)
    (h : ∃ k, k ≠ n ∧ (s.phase k).Owes path file epoch) : Current ix path file t := by
  obtain ⟨k, hne, howes⟩ := h
  refine .inl ⟨k, ?_⟩
  rw [hnext, hepoch, update_of_ne hne]
  exact howes

theorem go (h : Current ix path file s) (hphase : s.phase n = old)
    (hnext : t.phase = update s.phase n new) (hentry : t.entry path = s.entry path)
    (hepoch : t.epochs path = s.epochs path)
    (howes : old.Owes path file (s.epochs path) → new.Owes path file (s.epochs path))
    (houtdated : new.Outdated path file (s.epochs path) → old.Outdated path file (s.epochs path)) :
    Current ix path file t := by
  rcases h with ⟨m, hm⟩ | ⟨hmatches, hnone⟩
  · by_cases heq : m = n
    · rw [heq, hphase] at hm
      exact of_owes hnext hepoch (howes hm)
    · exact of_other hnext hepoch ⟨m, heq, hm⟩
  · refine .inr ⟨hentry ▸ hmatches, fun m hm => ?_⟩
    rw [hnext, hepoch] at hm
    by_cases heq : m = n
    · rw [heq, update_self] at hm
      exact hnone n (hphase ▸ houtdated hm)
    · rw [update_of_ne heq] at hm
      exact hnone m hm

theorem write (h : Current ix path file s) (hphase : s.phase n = old)
    (hnext : t.phase = update s.phase n new) (hepoch : t.epochs path = s.epochs path)
    (hold : old.Owes path file (s.epochs path) ∨ old.Outdated path file (s.epochs path))
    (howes : old.Owes path file (s.epochs path) → new.Owes path file (s.epochs path)) :
    Current ix path file t := by
  rcases h with ⟨m, hm⟩ | ⟨-, hnone⟩
  · by_cases heq : m = n
    · rw [heq, hphase] at hm
      exact of_owes hnext hepoch (howes hm)
    · exact of_other hnext hepoch ⟨m, heq, hm⟩
  · rcases hold with hold | hold
    · exact of_owes hnext hepoch (howes hold)
    · exact absurd (hphase ▸ hold) (hnone n)

theorem finish (hnext : t.phase = update s.phase n job.next)
    (hepoch : t.epochs path = s.epochs path) (hlists : job.Lists path)
    (hlast : LastBut path s n file)
    (hmatches : (∀ m, m ≠ n → ¬ (s.phase m).Owes path file (s.epochs path)) →
      (∀ m, m ≠ n → ¬ (s.phase m).Outdated path file (s.epochs path)) →
      Matches ix path (t.entry path)) : Current ix path file t := by
  by_cases hother : ∃ k, k ≠ n ∧ (s.phase k).Owes path file (s.epochs path)
  · exact of_other hnext hepoch hother
  · have hnone := hlast.resolve_left hother
    refine .inr ⟨hmatches (fun m hne howes => hother ⟨m, hne, howes⟩) hnone, fun m hm => ?_⟩
    rw [hnext, hepoch] at hm
    by_cases heq : m = n
    · rw [heq, update_self] at hm
      exact hm.lists_of_next hlists
    · rw [update_of_ne heq] at hm
      exact hnone m heq hm

/-- A task that stands on the path finishes with it: it has seen the file and is the last one, or
another one follows. -/
theorem finishing (h : Current ix path file s) (hphase : s.phase n = old)
    (hjob : old.job = some job) (hpath : job.path = path) (hin : old.InEpoch (s.epochs path))
    (hrefused : ¬ old.Refused (s.epochs path))
    (hnext : t.phase = update s.phase n job.next)
    (hepoch : t.epochs path = s.epochs path) (hlast : old.Sees file → LastBut path s n file)
    (hmatches : old.Sees file → (∀ m, m ≠ n → ¬ (s.phase m).Owes path file (s.epochs path)) →
      (∀ m, m ≠ n → ¬ (s.phase m).Outdated path file (s.epochs path)) →
      Matches ix path (t.entry path)) : Current ix path file t := by
  by_cases hfinishes : old.Sees file ∧ job.Lists path
  · obtain ⟨hsees, hlists⟩ := hfinishes
    exact finish hnext hepoch hlists (hlast hsees) (hmatches hsees)
  · refine h.write hphase hnext hepoch (owes_or_outdated hjob hpath hin hrefused) fun howes => ?_
    have hlists := ((owes_iff hjob).mp howes).1
    exact howes.next hjob fun _ hsees _ => hfinishes ⟨hsees, hlists⟩

theorem split (h : Current ix path file s) {seen : ℕ}
    (hphase : s.phase n = old) (hjob : old.job = some job)
    (hsplits : (ix.chunkRows path file.content).isSome = true)
    (hsees : old.Sees file → ⟨content, stat⟩ = file) (hrefused : ¬ old.Refused (s.epochs path))
    (hseen : job.path = path → old.InEpoch (s.epochs path) → seen = s.epochs path) :
    Current ix path file (s.setPhase n (splitChunks ix job stat seen content)) := by
  rw [splitChunks]
  split_ifs with hchunks
  · refine h.go hphase rfl rfl rfl (Owes.imp hjob rfl fun hpath hfile hin => ?_)
      (Outdated.imp hjob rfl fun hpath hfile => ?_)
    · exact ⟨hsees hfile, hseen hpath hin⟩
    · exact .inl (hsees (hfile.resolve_right hrefused))
  · refine h.go hphase rfl rfl rfl (Owes.next hjob fun hpath hfile _ => hchunks ?_)
      (Outdated.next hjob)
    have hcontent : content = file.content := congrArg MarkdownFile.content (hsees hfile)
    rw [hpath, hcontent]
    exact hsplits

end Current

theorem TaskPhase.DeletesRow.owes_or_outdated (h : old.DeletesRow path) :
    old.Owes path file epoch ∨ old.Outdated path file epoch := by
  cases old with
  | deletingFile job _ _ => exact TaskPhase.owes_or_outdated rfl h trivial id
  | staleFile _ _ => exact .inr (.inl (Eq.symm h))
  | removeFile _ => exact .inr h
  | _ => cases h

theorem SyncSound.chunks_eq (hhash : Function.Injective ix.hash) (h : SyncSound ix path s)
    {row : FileRow Hash} (hrow : s.rows path = some row) (hsame : row.hash = ix.hash file.content)
    (hdeletes : ∀ m, ¬ (s.phase m).DeletesRow path) :
    ix.chunkRows path file.content = some (s.chunks path) := by
  rcases h.chunks row hrow with ⟨content, hcontent, hchunks⟩ | ⟨m, hm⟩
  · rw [hhash (hsame.symm.trans hcontent)]
    exact hchunks
  · exact absurd hm (hdeletes m)

theorem not_deletesRow (hphase : s.phase n = old) (hold : ¬ old.DeletesRow path)
    (howes : ∀ m, m ≠ n → ¬ (s.phase m).Owes path file (s.epochs path))
    (houtdated : ∀ m, m ≠ n → ¬ (s.phase m).Outdated path file (s.epochs path)) (m : ℕ) :
    ¬ (s.phase m).DeletesRow path := by
  intro hm
  by_cases heq : m = n
  · rw [heq, hphase] at hm
    exact hold hm
  · exact Or.elim hm.owes_or_outdated (howes m heq) (houtdated m heq)

theorem matches_of_row (hfile : s.files path = some file)
    (hrow : s.rows path = some (ix.fileRow file.content file.stat))
    (hchunks : ix.chunkRows path file.content = some (s.chunks path)) :
    Matches ix path (s.entry path) := by
  rw [Matches, show (s.entry path).file = some file from hfile]
  exact ⟨hrow, hchunks⟩

theorem matches_of_stat (hhash : Function.Injective ix.hash) (hsound : SyncSound ix path s)
    (hfile : s.files path = some file) {row : FileRow Hash} (hrow : s.rows path = some row)
    (hstat : row.stat = file.stat) (hdeletes : ∀ m, ¬ (s.phase m).DeletesRow path) :
    Matches ix path (s.entry path) := by
  have hsame : row.hash = ix.hash file.content := hsound.stat row file hrow hfile hstat
  refine matches_of_row hfile ?_ (hsound.chunks_eq hhash hrow hsame hdeletes)
  rw [hrow, MemoryIndexer.fileRow, ← hsame, ← hstat]

theorem Current.getFile (hhash : Function.Injective ix.hash) (hsound : SyncSound ix path s)
    (hfile : s.files path = some file) (h : Current ix path file s)
    (hphase : s.phase n = .getFile job stat) (hturn : InTurn path s ix (.step n)) :
    Current ix path file (s.setPhase n (afterGetFile ix (s.rows job.path) job stat)) := by
  have hturn := hturn file hfile
  rw [hphase] at hturn
  cases hrow : s.rows job.path with
  | none =>
    exact h.go hphase rfl rfl rfl (Owes.imp rfl rfl fun _ hsees _ => ⟨hsees, trivial⟩)
      (Outdated.imp rfl rfl fun _ => id)
  | some existing =>
    rw [afterGetFile]
    split_ifs with hstat hembedder
    · exact h.go hphase rfl rfl rfl (Owes.imp rfl rfl fun _ hsees _ => ⟨hsees, trivial⟩)
        (Outdated.imp rfl rfl fun _ => id)
    · by_cases hpath : job.path = path
      · subst hpath
        refine h.finishing hphase rfl rfl trivial id rfl rfl (fun hsees => ?_)
          fun hsees howes houtdated => ?_
        · refine hturn rfl hsees ?_ (Bool.not_eq_true _ ▸ hembedder)
          rw [hrow, Option.map_some, hstat]
        · have hmatches : Matches ix job.path (s.entry job.path) :=
            matches_of_stat hhash hsound hfile hrow (hstat.trans hsees)
              (not_deletesRow hphase id howes houtdated)
          exact hmatches
      · exact h.go hphase rfl rfl rfl (Owes.next rfl fun hat => absurd hat hpath)
          (Outdated.next rfl)
    · exact h.go hphase rfl rfl rfl (Owes.imp rfl rfl fun _ hsees _ => ⟨hsees, trivial⟩)
        (Outdated.imp rfl rfl fun _ => id)

variable [DecidableEq Hash]

theorem Current.getAgain (hsplits : (ix.chunkRows path file.content).isSome = true)
    (h : Current ix path file s) {seen : ℕ}
    (hphase : s.phase n = .getAgain job stat seen content) :
    Current ix path file
      (s.setPhase n (afterGetAgain ix (s.rows job.path) job stat seen content)) := by
  cases s.rows job.path with
  | none => exact h.split hphase rfl hsplits id id fun _ hin => hin
  | some existing =>
    rw [afterGetAgain]
    split_ifs
    · exact h.go hphase rfl rfl rfl (Owes.imp rfl rfl fun _ hsees hin => ⟨hsees, hin⟩)
        (Outdated.imp rfl rfl fun _ => id)
    · exact h.go hphase rfl rfl rfl (Owes.imp rfl rfl fun _ hsees _ => ⟨hsees, trivial⟩)
        (Outdated.imp rfl rfl fun _ => id)
    · exact h.go hphase rfl rfl rfl (Owes.imp rfl rfl fun _ hsees _ => ⟨hsees, trivial⟩)
        (Outdated.imp rfl rfl fun _ => id)

/-- **One step**, of a task in its turn. -/
theorem Current.step (hhash : Function.Injective ix.hash) (hindexable : ix.indexable path = true)
    (hfile : s.files path = some file) (htext : ix.isText file.content = true)
    (hsplits : (ix.chunkRows path file.content).isSome = true) (hsound : SyncSound ix path s)
    (h : Current ix path file s) (hstep : SyncStep ix s e t)
    (hturn : InTurn path s ix e) : Current ix path file t := by
  have hsame {job : SyncJob} {found : MarkdownFile Content} (hfound : s.files job.path = some found)
      (hpath : job.path = path) : found = file :=
    Option.some.inj (hfound.symm.trans (hpath ▸ hfile))
  cases hstep with
  | @beginSyncPath n other hphase _ =>
    refine h.go hphase rfl rfl rfl nofun fun houtdated => ?_
    exact houtdated.elim (fun hlists => absurd nofun hlists)
      fun hpath => absurd (.inl trivial) hpath.2
  | beginSyncOther hphase _ | beginRemovePath hphase => exact h.go hphase rfl rfl rfl nofun nofun
  | @beginSync n discovered hphase hdiscovered =>
    refine h.go hphase rfl rfl rfl nofun fun houtdated => ?_
    have hnext : ((⟨path, some discovered, discovered⟩ : SyncJob).next :
        TaskPhase Content).Outdated path file (s.epochs path) := houtdated
    refine absurd (fun all hall => ?_) hnext.lists_of_next
    rw [← Option.some.inj hall]
    exact (hdiscovered path).mpr ⟨hindexable, hfile ▸ Option.some_ne_none file⟩
  | @metadata n job found hphase hfound =>
    exact h.go hphase rfl rfl rfl
      (Owes.imp rfl rfl fun hpath _ _ => ⟨congrArg _ (hsame hfound hpath), trivial⟩)
      (Outdated.imp rfl rfl fun hpath _ => .inl (congrArg _ (hsame hfound hpath)))
  | metadataNone hphase hnone | readNone hphase hnone | existsNot hphase hnone =>
    refine h.go hphase rfl rfl rfl (Owes.next rfl fun hpath _ _ => ?_) (Outdated.next rfl)
    rw [hpath, hfile] at hnone
    cases hnone
  | getFile hphase => exact h.getFile hhash hsound hfile hphase hturn
  | @sameStat n job stat hphase =>
    have hturn := hturn file hfile
    rw [hphase] at hturn
    split_ifs with hcurrent
    · by_cases hpath : job.path = path
      · subst hpath
        refine h.finishing hphase rfl rfl trivial id rfl rfl (fun hsees => hturn rfl hsees hcurrent)
          fun hsees howes houtdated => ?_
        have hseen : (s.files job.path).map (·.stat) = some stat := by
          rw [hfile, Option.map_some, show stat = file.stat from hsees]
        obtain ⟨row, hrow, hstat⟩ := (hphase ▸ hsound.known n).2 ⟨rfl, hseen⟩
        have hmatches : Matches ix job.path (s.entry job.path) :=
          matches_of_stat hhash hsound hfile hrow (Eq.trans hstat hsees)
            (not_deletesRow hphase id howes houtdated)
        exact hmatches
      · exact h.go hphase rfl rfl rfl (Owes.next rfl fun hat => absurd hat hpath)
          (Outdated.next rfl)
    · exact h.go hphase rfl rfl rfl (Owes.imp rfl rfl fun _ hsees _ => ⟨hsees, trivial⟩)
        (Outdated.imp rfl rfl fun _ => id)
  | startEpoch hphase _ =>
    exact h.go hphase rfl rfl rfl
      (Owes.imp rfl rfl fun hpath hsees _ => ⟨hsees, congrArg s.epochs hpath⟩)
      (Outdated.imp rfl rfl fun _ => id)
  | @read n job stat seen found hphase hfound _ =>
    have hread (hpath : job.path = path) (hsees : stat = file.stat) :
        (⟨found.content, stat⟩ : MarkdownFile Content) = file := by
      rw [hsame hfound hpath, hsees]
    exact h.go hphase rfl rfl rfl
      (Owes.imp rfl rfl fun hpath hsees hin => ⟨hread hpath hsees, hin⟩)
      (Outdated.imp rfl rfl fun hpath hsees => .inl (hread hpath (hsees.resolve_right id)))
  | readNotText hphase hfound hnot =>
    refine h.go hphase rfl rfl rfl (Owes.next rfl fun hpath _ _ => ?_) (Outdated.next rfl)
    rw [hsame hfound hpath, htext] at hnot
    cases hnot
  | getAgain hphase => exact h.getAgain hsplits hphase
  | sameHash hphase =>
    split_ifs
    · exact h.go hphase rfl rfl rfl (Owes.imp rfl rfl fun _ hsees _ => ⟨hsees, trivial⟩)
        (Outdated.imp rfl rfl fun _ => id)
    · exact h.split hphase rfl hsplits id id fun _ hin => hin
  | @upsertFile n job stat content hphase =>
    have hturn := hturn file hfile
    rw [hphase] at hturn
    by_cases hpath : job.path = path
    · subst hpath
      refine h.finishing hphase rfl rfl trivial id rfl rfl (hturn rfl) fun hsees howes houtdated => ?_
      obtain ⟨row, hrow, hstored⟩ := (hphase ▸ hsound.known n).2 rfl
      obtain rfl : ⟨content, stat⟩ = file := hsees
      have hsameHash : row.hash = ix.hash (⟨content, stat⟩ : MarkdownFile Content).content := hstored
      have hchunks := hsound.chunks_eq hhash hrow hsameHash
        (not_deletesRow hphase id howes houtdated)
      exact matches_of_row hfile (update_self ..) hchunks
    · exact h.go hphase rfl (entry_setPhase.trans (entry_setRow_of_ne hpath)) rfl
        (Owes.next rfl fun hat => absurd hat hpath) (Outdated.next rfl)
  | @bump n job stat content hphase _ =>
    by_cases hpath : job.path = path
    · have hturn := hturn file hfile
      rw [hphase] at hturn
      obtain ⟨k, howes⟩ := hturn hpath
      have hepoch : update s.epochs job.path (s.epochs job.path + 1) path =
          s.epochs path + 1 := by rw [hpath, update_self]
      by_cases heq : k = n
      · rw [heq, hphase] at howes
        have hgoes : (bumping job stat content).Owes path file (s.epochs path + 1) →
            (deletingChunks job stat content).Owes path file (s.epochs path + 1) :=
          Owes.imp rfl rfl fun _ hsees _ => ⟨hsees, trivial⟩
        exact of_owes rfl hepoch (hgoes howes)
      · exact of_other rfl hepoch ⟨k, heq, howes⟩
    · exact h.go hphase rfl rfl (update_of_ne (Ne.symm hpath) ..)
        (Owes.imp rfl rfl fun _ hsees _ => ⟨hsees, trivial⟩) (Outdated.imp rfl rfl fun _ => id)
  | @deleteChunks n job stat content hphase =>
    by_cases hpath : job.path = path
    · exact h.write hphase rfl rfl (owes_or_outdated rfl hpath trivial id)
        (Owes.imp rfl rfl fun _ hsees _ => ⟨hsees, trivial⟩)
    · exact h.go hphase rfl (entry_setPhase.trans (entry_setChunks_of_ne hpath)) rfl
        (Owes.imp rfl rfl fun _ hsees _ => ⟨hsees, trivial⟩) (Outdated.imp rfl rfl fun _ => id)
  | @deleteFile n job stat content hphase =>
    by_cases hpath : job.path = path
    · exact h.write hphase rfl rfl (owes_or_outdated rfl hpath trivial id)
        (Owes.imp rfl rfl fun _ hsees _ => ⟨hsees, trivial⟩)
    · exact h.go hphase rfl (entry_setPhase.trans (entry_setRow_of_ne hpath)) rfl
        (Owes.imp rfl rfl fun _ hsees _ => ⟨hsees, trivial⟩) (Outdated.imp rfl rfl fun _ => id)
  | epochAgain hphase _ =>
    exact h.split hphase rfl hsplits id id fun hpath _ => congrArg s.epochs hpath
  | @lock n job stat seen content hphase _ hseen =>
    refine h.go hphase rfl rfl rfl (Owes.imp rfl rfl fun _ hsees _ => ⟨hsees, trivial⟩)
      (Outdated.imp rfl rfl fun hpath hsees => .inl (hsees.resolve_right fun hrefused => ?_))
    exact hrefused (hseen.symm.trans (congrArg s.epochs hpath))
  | @epochChanged n job stat seen content hphase _ hseen =>
    refine h.go hphase rfl rfl rfl (Owes.next rfl fun hpath _ hin => hseen ?_) (Outdated.next rfl)
    rw [hpath]
    exact Eq.symm hin
  | «exists» hphase _ =>
    exact h.go hphase rfl rfl rfl (Owes.imp rfl rfl fun _ hsees _ => ⟨hsees, trivial⟩)
      (Outdated.imp rfl rfl fun _ => id)
  | @replace n job stat content rows hphase hrows =>
    have hturn := hturn file hfile
    rw [hphase] at hturn
    by_cases hpath : job.path = path
    · subst hpath
      refine h.finishing hphase rfl rfl trivial id rfl rfl (hturn rfl) fun hsees _ _ => ?_
      obtain rfl : ⟨content, stat⟩ = file := hsees
      have hstored : update s.chunks job.path rows job.path = rows :=
        update_self ..
      exact matches_of_row hfile (update_self ..)
        (hrows.trans (congrArg some hstored.symm))
    · refine h.go hphase rfl ?_ rfl (Owes.next rfl fun hat => absurd hat hpath) (Outdated.next rfl)
      rw [entry_setPhase, entry_setLocked, entry_setChunks_of_ne hpath, entry_setRow_of_ne hpath]
  | @list n discovered stale hphase hstale =>
    refine h.go hphase rfl rfl rfl nofun fun houtdated => ?_
    exact ((hstale path).mp (outdated_nextStale houtdated)).2
  | @staleChunks n other stale hphase =>
    by_cases hpath : other = path
    · exact h.write hphase rfl rfl (.inr (.inl hpath.symm)) nofun
    · exact h.go hphase rfl (entry_setPhase.trans (entry_setChunks_of_ne hpath)) rfl nofun id
  | @staleFile n other stale hphase =>
    by_cases hpath : other = path
    · exact h.write hphase rfl rfl (.inr (.inl hpath.symm)) nofun
    · exact h.go hphase rfl (entry_setPhase.trans (entry_setRow_of_ne hpath)) rfl nofun
        fun houtdated => .inr (outdated_nextStale houtdated)
  | @remove n other hphase _ =>
    by_cases hpath : other = path
    · have hturn := hturn file hfile
      rw [hphase] at hturn
      obtain ⟨k, howes⟩ := hturn hpath
      have hepoch : update s.epochs other (s.epochs other + 1) path =
          s.epochs path + 1 := by rw [hpath, update_self]
      refine of_other rfl hepoch ⟨k, ?_, howes⟩
      rintro rfl
      rw [hphase] at howes
      exact howes
    · exact h.go hphase rfl rfl (update_of_ne (Ne.symm hpath) ..) nofun hpath
  | @removeChunks n other hphase =>
    by_cases hpath : other = path
    · exact h.write hphase rfl rfl (.inr hpath) nofun
    · exact h.go hphase rfl (entry_setPhase.trans (entry_setChunks_of_ne hpath)) rfl nofun id
  | @removeFile n other hphase =>
    by_cases hpath : other = path
    · exact h.write hphase rfl rfl (.inr hpath) nofun
    · refine h.go hphase rfl ?_ rfl nofun nofun
      rw [entry_setPhase, entry_setLocked, entry_setRow_of_ne hpath]
  | @change other new =>
    have hentry : SyncState.entry { s with files := update s.files other new } path =
        s.entry path := by
      rw [entry]
      dsimp only
      rw [update_of_ne (Ne.symm hturn)]
      rfl
    rw [Current, hentry]
    exact h

end Exists

/-! ## A file that does not exist -/

section Removed

variable {ix : MemoryIndexer Content Hash Row} {s t : SyncState Content Hash Row} {n : ℕ}

/-- The task is to store rows of the path without another look at the file. -/
def TaskPhase.Stores (path : String) : TaskPhase Content → Prop
  | .sameHash job _ _ _ | .upsertFile job _ _ | .replacing job _ _ => job.path = path
  | _ => False

/-- The task is removing the path. -/
def TaskPhase.Removes (path : String) : TaskPhase Content → Prop
  | .removing other | .removeChunks other | .removeFile other => other = path
  | _ => False

/-- A removal is to delete the chunks and the row, or the row; or there are none, and no task is to
store any. -/
def Removed (path : String) (s : SyncState Content Hash Row) : Prop :=
  (∃ m, s.phase m = .removing path ∨ s.phase m = .removeChunks path) ∨
  (∃ m, s.phase m = .removeFile path ∧ s.chunks path = []) ∨
  s.rows path = none ∧ s.chunks path = [] ∧ ∀ m, ¬ (s.phase m).Stores path

namespace Removed

theorem of_removing (hnext : t.phase = update s.phase n new)
    (h : new = .removing path ∨ new = .removeChunks path) : Removed path t :=
  .inl ⟨n, by rw [hnext, update_self]; exact h⟩

/-- Another removal is to delete the chunks, and still is. -/
theorem of_other (hnext : t.phase = update s.phase n new) {m : ℕ} (hne : m ≠ n)
    (h : s.phase m = .removing path ∨ s.phase m = .removeChunks path) : Removed path t :=
  .inl ⟨m, by rw [hnext, update_of_ne hne]; exact h⟩

/-- A task that does not remove the path goes on, and stores nothing that it was not to store. -/
theorem go (h : Removed path s) (hphase : s.phase n = old)
    (hnext : t.phase = update s.phase n new) (hold : ¬ old.Removes path)
    (hrow : old.Stores path ∨ t.rows path = none ∨ t.rows path = s.rows path)
    (hchunks : t.chunks path = [] ∨ t.chunks path = s.chunks path)
    (hstores : s.rows path = none → new.Stores path → old.Stores path) : Removed path t := by
  have hempty (hnil : s.chunks path = []) : t.chunks path = [] :=
    hchunks.elim id fun heq => heq.trans hnil
  have hne (m : ℕ) (hm : (s.phase m).Removes path) : m ≠ n := by
    rintro rfl
    exact hold (hphase ▸ hm)
  rcases h with ⟨m, hm⟩ | ⟨m, hm, hnil⟩ | ⟨hnone, hnil, hno⟩
  · refine of_other hnext (hne m ?_) hm
    rcases hm with hm | hm <;> exact hm ▸ rfl
  · refine .inr (.inl ⟨m, ?_, hempty hnil⟩)
    rw [hnext, update_of_ne (hne m (hm ▸ rfl))]
    exact hm
  · have hnot := hno n
    rw [hphase] at hnot
    refine .inr (.inr ⟨(hrow.resolve_left hnot).elim id fun heq => heq.trans hnone, hempty hnil,
      fun m hm => ?_⟩)
    rw [hnext] at hm
    by_cases heq : m = n
    · rw [heq, update_self] at hm
      exact hnot (hstores hnone hm)
    · rw [update_of_ne heq] at hm
      exact hno m hm

theorem keep (h : Removed path s) (hphase : s.phase n = old)
    (hnext : t.phase = update s.phase n new) (hentry : t.entry path = s.entry path)
    (hold : ¬ old.Removes path)
    (hstores : s.rows path = none → new.Stores path → old.Stores path) : Removed path t :=
  h.go hphase hnext hold (.inr (.inr (congrArg PathEntry.row hentry)))
    (.inr (congrArg PathEntry.chunks hentry)) hstores

theorem not_stores_nextFile {discovered : Option (List String)} {todo : List String} :
    ¬ (nextFile discovered todo : TaskPhase Content).Stores path := by
  rcases @nextFile_cases Content discovered todo with
    ⟨_, _, -, h⟩ | ⟨_, -, h⟩ | h <;> rw [h] <;> exact id

theorem not_stores_nextStale {stale : List String} :
    ¬ (nextStale stale : TaskPhase Content).Stores path := by
  rcases @nextStale_cases Content stale with ⟨_, _, -, h⟩ | h <;> rw [h] <;> exact id

theorem not_stores_splitChunks {seen : ℕ} :
    ¬ (splitChunks ix job stat seen content).Stores path := by
  rw [splitChunks]
  split_ifs
  · exact id
  · exact not_stores_nextFile

theorem not_stores_afterGetFile {row : Option (FileRow Hash)} :
    ¬ (afterGetFile ix row job stat).Stores path := by
  cases row with
  | none => exact id
  | some existing =>
    rw [afterGetFile]
    split_ifs
    · exact id
    · exact not_stores_nextFile
    · exact id

theorem update_cases {α : Type} (f : String → α) (other : String) (value : α) :
    update f other value path = value ∨ update f other value path = f path := by
  by_cases hpath : other = path
  · rw [hpath]
    exact .inl (update_self ..)
  · exact .inr (update_of_ne (Ne.symm hpath) ..)

theorem removeFile (hlocks : Locks path s) (h : Removed path s)
    (hphase : s.phase n = .removeFile path) (hnext : t.phase = update s.phase n .done)
    (hrow : t.rows path = none) (hchunks : t.chunks path = s.chunks path)
    (hapart : ∀ m, m ≠ n → ¬ (s.phase m).Found path (s.files path)) : Removed path t := by
  by_cases hother : ∃ m, s.phase m = .removing path ∨ s.phase m = .removeChunks path
  · obtain ⟨m, hm⟩ := hother
    refine of_other hnext ?_ hm
    rintro rfl
    rw [hphase] at hm
    rcases hm with hm | hm <;> cases hm
  · have hnil : s.chunks path = [] := by
      rcases h with hm | ⟨_, -, hnil⟩ | ⟨-, hnil, -⟩
      · exact absurd hm hother
      · exact hnil
      · exact hnil
    refine .inr (.inr ⟨hrow, hchunks.trans hnil, fun m hm => ?_⟩)
    rw [hnext] at hm
    by_cases heq : m = n
    · rw [heq, update_self] at hm
      exact hm
    · rw [update_of_ne heq] at hm
      have hfound := hapart m heq
      have hlock := hlocks.one m n
      rw [hphase] at hlock
      cases hm' : s.phase m with
      | sameHash job _ _ _ | upsertFile job _ _ =>
        rw [hm'] at hm hfound
        exact hfound hm
      | replacing job _ _ =>
        rw [hm'] at hm hlock
        exact heq (hlock hm rfl)
      | _ =>
        rw [hm'] at hm
        exact hm

variable [DecidableEq Hash]

theorem stores_afterGetAgain {row : Option (FileRow Hash)} {seen : ℕ}
    (h : (afterGetAgain ix row job stat seen content).Stores path) :
    job.path = path ∧ row ≠ none := by
  cases row with
  | none => exact absurd h not_stores_splitChunks
  | some existing =>
    rw [afterGetAgain] at h
    split_ifs at h
    · exact ⟨h, Option.some_ne_none _⟩
    · exact ⟨h, Option.some_ne_none _⟩
    · cases h

/-- **One step**, while the file does not exist. -/
theorem step (hfile : s.files path = none) (hlocks : Locks path s) (h : Removed path s)
    (hstep : SyncStep ix s e t) (hapart : Apart ix path s e)
    (hturn : InTurn path s ix e) : Removed path t := by
  cases hstep with
  | beginSyncPath hphase _ | beginSyncOther hphase _ | beginRemovePath hphase | metadata hphase _
  | startEpoch hphase _ | read hphase _ _ | lock hphase _ _ | bump hphase _ =>
    exact h.keep hphase rfl rfl id fun _ => False.elim
  | beginSync hphase _ | metadataNone hphase _ | readNone hphase _ | readNotText hphase _ _
  | epochChanged hphase _ _ | existsNot hphase _ =>
    exact h.keep hphase rfl rfl id fun _ hstores => absurd hstores not_stores_nextFile
  | list hphase _ =>
    exact h.keep hphase rfl rfl id fun _ hstores => absurd hstores not_stores_nextStale
  | getFile hphase =>
    exact h.keep hphase rfl rfl id fun _ hstores => absurd hstores not_stores_afterGetFile
  | epochAgain hphase _ =>
    exact h.keep hphase rfl rfl id fun _ hstores => absurd hstores not_stores_splitChunks
  | sameStat hphase =>
    refine h.keep hphase rfl rfl id fun _ hstores => absurd hstores ?_
    split_ifs
    · exact not_stores_nextFile
    · exact id
  | @getAgain n job stat seen content hphase =>
    refine h.keep hphase rfl rfl id fun hnone hstores => ?_
    obtain ⟨hpath, hsome⟩ := stores_afterGetAgain hstores
    exact absurd hnone (hpath ▸ hsome)
  | @sameHash n job stat seen content hphase =>
    refine h.keep hphase rfl rfl id fun _ hstores => ?_
    split_ifs at hstores
    · exact hstores
    · exact absurd hstores not_stores_splitChunks
  | @«exists» n job stat content hphase hfound =>
    refine h.keep hphase rfl rfl id fun _ hstores => hfound ?_
    rw [show job.path = path from hstores, hfile]
  | @upsertFile n job stat content hphase =>
    refine h.go hphase rfl id ?_ (.inr rfl) fun _ hstores => absurd hstores not_stores_nextFile
    by_cases hpath : job.path = path
    · exact .inl hpath
    · exact .inr (.inr (update_of_ne (Ne.symm hpath) ..))
  | @deleteChunks n job stat content hphase =>
    exact h.go hphase rfl id (.inr (.inr rfl)) (update_cases s.chunks job.path []) fun _ => False.elim
  | @deleteFile n job stat content hphase =>
    exact h.go hphase rfl id (.inr (update_cases s.rows job.path none)) (.inr rfl) fun _ => False.elim
  | @staleChunks n other stale hphase =>
    exact h.go hphase rfl id (.inr (.inr rfl)) (update_cases s.chunks other []) fun _ => False.elim
  | @staleFile n other stale hphase =>
    exact h.go hphase rfl id (.inr (update_cases s.rows other none)) (.inr rfl)
      fun _ hstores => absurd hstores not_stores_nextStale
  | @replace n job stat content rows hphase _ =>
    by_cases hpath : job.path = path
    · have hholds : (s.phase n).Holds path := hphase ▸ hpath
      rcases h with ⟨m, hm⟩ | ⟨m, hm, -⟩ | ⟨-, -, hno⟩
      · refine of_other rfl ?_ hm
        rintro rfl
        rw [hphase] at hm
        rcases hm with hm | hm <;> cases hm
      · -- the removal holds the lock
        obtain rfl := hlocks.one m n (hm ▸ rfl) hholds
        cases hphase.symm.trans hm
      · exact absurd (hphase ▸ hpath) (hno n)
    · refine h.keep hphase rfl ?_ id fun _ hstores => absurd hstores not_stores_nextFile
      rw [entry_setPhase, entry_setLocked, entry_setChunks_of_ne hpath, entry_setRow_of_ne hpath]
  | @remove n other hphase _ =>
    by_cases hpath : other = path
    · exact of_removing rfl (.inr (congrArg _ hpath))
    · exact h.keep hphase rfl rfl hpath fun _ => False.elim
  | @removeChunks n other hphase =>
    by_cases hpath : other = path
    · subst hpath
      refine .inr (.inl ⟨n, update_self .., update_self ..⟩)
    · exact h.keep hphase rfl (entry_setPhase.trans (entry_setChunks_of_ne hpath)) hpath
        fun _ => False.elim
  | @removeFile n other hphase =>
    by_cases hpath : other = path
    · rw [Apart, hphase] at hapart
      subst hpath
      exact h.removeFile hlocks hphase rfl (update_self ..) rfl (hapart rfl)
    · refine h.keep hphase rfl ?_ hpath fun _ => False.elim
      rw [entry_setPhase, entry_setLocked, entry_setRow_of_ne hpath]
  | change => exact h

end Removed

end Removed

/-! ## Runs -/

section Runs

variable {ix : MemoryIndexer Content Hash Row} {s t u : SyncState Content Hash Row}

def TaskPhase.Finished : TaskPhase Content → Prop
  | .idle => True
  | .done => True
  | _ => False

theorem TaskPhase.Finished.not_owes (h : old.Finished) : ¬ old.Owes path file epoch := by
  match old, h with
  | .idle, _ | .done, _ => exact id

/-- The stored row of the path, if there is one, is that of a content whose chunks are stored; and
if it has the time and size of the file, it has its hash. -/
structure StoreSound (ix : MemoryIndexer Content Hash Row) (path : String)
    (e : PathEntry Content Hash Row) : Prop where
  chunks : ∀ row, e.row = some row → ChunksOf ix path e.chunks row.hash
  stat : ∀ row file, e.row = some row → e.file = some file → row.stat = file.stat →
    row.hash = ix.hash file.content

theorem StoreSound.start {files : String → Option (MarkdownFile Content)} :
    StoreSound ix path ((SyncState.start files).entry path) where
  chunks := nofun
  stat := nofun

variable [DecidableEq Hash]

/-- The files of the path do not change while steps are in turn. -/
theorem files_eq (hstep : SyncStep ix s e t) (hturn : InTurn path s ix e) :
    t.files path = s.files path := by
  cases hstep with
  | change => exact update_of_ne (Ne.symm hturn) ..
  | _ => rfl

/-- **The memory index converges to the file**, over every run that starts without a task and with
a sound store, and whose steps are apart: once a sync of a file that exists and can be read and
split, or a removal of one that does not exist, has started, and the steps are in turn, the stored
rows are those of the file when all tasks have finished. -/
theorem memory_converges (hhash : Function.Injective ix.hash) {start : SyncState Content Hash Row}
    (hidle : ∀ m, start.phase m = .idle) (hstore : StoreSound ix path (start.entry path))
    {es es' : List (SyncEvent Content)} {n : ℕ} {call : TaskCall}
    (hbefore : Run (fun s e t => SyncStep ix s e t ∧ Apart ix path s e) start es s)
    (hcall : (call = .syncPath path ∧ ix.indexable path = true ∧ ∃ file, s.files path = some file ∧
        ix.isText file.content = true ∧ (ix.chunkRows path file.content).isSome = true) ∨
      call = .removePath path ∧ s.files path = none)
    (hbegin : SyncStep ix s (.begin n call) u)
    (hrun : Run (fun s e t => SyncStep ix s e t ∧ Apart ix path s e ∧ InTurn path s ix e) u es' t)
    (hfinished : ∀ m, (t.phase m).Finished) : Matches ix path (t.entry path) := by
  have hs : SyncSound ix path s ∧ Locks path s := by
    refine hbefore.invariant (P := fun s => SyncSound ix path s ∧ Locks path s)
      (fun _ _ _ h hstep => ⟨h.1.step hstep.1 hstep.2, h.2.step hstep.1⟩) ?_
    exact ⟨.start hidle hstore.stat hstore.chunks, .start hidle⟩
  have hu : SyncSound ix path u ∧ Locks path u := ⟨hs.1.step hbegin trivial, hs.2.step hbegin⟩
  rcases hcall with ⟨rfl, hindexable, file, hfile, htext, hsplits⟩ | ⟨rfl, hfile⟩
  · have hstart : u.files path = some file ∧ Current ix path file u := by
      cases hbegin with
      | beginSyncPath hphase _ =>
        refine ⟨hfile, Current.of_owes rfl rfl ?_⟩
        exact ⟨nofun, .inr ⟨rfl, trivial, trivial⟩⟩
      | beginSyncOther hphase hpath => exact absurd (hpath.symm.trans hindexable) nofun
    obtain ⟨-, -, hfile, hcurrent⟩ := hrun.invariant
      (P := fun s => SyncSound ix path s ∧ Locks path s ∧ s.files path = some file ∧
        Current ix path file s)
      (fun _ _ _ h hstep => ⟨h.1.step hstep.1 hstep.2.1, h.2.1.step hstep.1,
        (files_eq hstep.1 hstep.2.2).trans h.2.2.1,
        h.2.2.2.step hhash hindexable h.2.2.1 htext hsplits h.1 hstep.1 hstep.2.2⟩)
      ⟨hu.1, hu.2, hstart⟩
    rcases hcurrent with ⟨m, hm⟩ | ⟨hmatches, -⟩
    · exact absurd hm (hfinished m).not_owes
    · exact hmatches
  · have hstart : u.files path = none ∧ Removed path u := by
      cases hbegin with
      | beginRemovePath hphase => exact ⟨hfile, Removed.of_removing rfl (.inl rfl)⟩
    obtain ⟨-, -, hfile, hremoved⟩ := hrun.invariant
      (P := fun s => SyncSound ix path s ∧ Locks path s ∧ s.files path = none ∧ Removed path s)
      (fun _ _ _ h hstep => ⟨h.1.step hstep.1 hstep.2.1, h.2.1.step hstep.1,
        (files_eq hstep.1 hstep.2.2).trans h.2.2.1,
        h.2.2.2.step h.2.2.1 h.2.1 hstep.1 hstep.2.1 hstep.2.2⟩)
      ⟨hu.1, hu.2, hstart⟩
    rw [Matches, show (t.entry path).file = none from hfile]
    rcases hremoved with ⟨m, hm⟩ | ⟨m, hm, -⟩ | ⟨hrow, hchunks, -⟩
    · have hdone := hfinished m
      rcases hm with hm | hm <;> rw [hm] at hdone <;> cases hdone
    · have hdone := hfinished m
      rw [hm] at hdone
      cases hdone
    · exact ⟨hrow, hchunks⟩

end Runs

/-- The hash of a content is the content, and it is one chunk; there is no embedder. -/
def someIndexer : MemoryIndexer ℕ ℕ ℕ where
  hash := id
  isText _ := true
  chunkRows _ content := some [content]
  hasEmbedder := false
  isCurrent _ := true
  indexable _ := true

def someFiles (content mtime : ℕ) : String → Option (MarkdownFile ℕ) :=
  update (fun _ => none) "a" (some ⟨content, ⟨mtime, 1⟩⟩)

/-- A sync has read the old content and is embedding it; another one stores it.  The file is changed
and synced: the old row is deleted, which counts the epoch up, and so the first sync stores
nothing. -/
def refusedSync : List (SyncEvent ℕ) :=
  [.step 2, .step 2, .step 2, .step 2, .step 2, .step 2, .step 2, .step 2, .step 2, .step 2,
    .step 2,    .step 2, .step 0]

theorem memory_converges_refusedSync : ∃ s u t : SyncState ℕ ℕ ℕ,
    Run (fun s e t => SyncStep someIndexer s e t ∧ Apart someIndexer "a" s e)
      (.start (someFiles 7 0))
      [.begin 0 (.syncPath "a"), .step 0, .step 0, .step 0, .step 0, .step 0,
        .begin 1 (.syncPath "a"), .step 1, .step 1, .step 1, .step 1, .step 1, .step 1, .step 1,
        .step 1, .change "a" (some ⟨8, ⟨1, 1⟩⟩)] s ∧
    SyncStep someIndexer s (.begin 2 (.syncPath "a")) u ∧
    Run (fun s e t => SyncStep someIndexer s e t ∧ Apart someIndexer "a" s e ∧
      InTurn "a" s someIndexer e) u refusedSync t ∧
    Matches someIndexer "a" (t.entry "a") ∧ t.rows "a" = some ⟨8, ⟨1, 1⟩⟩ := by
  have htasks {P : ℕ → Prop} (h₀ : P 0) (h₁ : P 1) (h₂ : P 2) (h : ∀ n, P (n + 3)) : ∀ n, P n
    | 0 => h₀
    | 1 => h₁
    | 2 => h₂
    | n + 3 => h n
  have hbefore : ∃ s : SyncState ℕ ℕ ℕ,
      Run (fun s e t => SyncStep someIndexer s e t ∧ Apart someIndexer "a" s e)
        (.start (someFiles 7 0))
        [.begin 0 (.syncPath "a"), .step 0, .step 0, .step 0, .step 0, .step 0,
          .begin 1 (.syncPath "a"), .step 1, .step 1, .step 1, .step 1, .step 1, .step 1, .step 1,
          .step 1, .change "a" (some ⟨8, ⟨1, 1⟩⟩)] s ∧
      ∃ u t, SyncStep someIndexer s (.begin 2 (.syncPath "a")) u ∧
        Run (fun s e t => SyncStep someIndexer s e t ∧ Apart someIndexer "a" s e ∧
          InTurn "a" s someIndexer e) u refusedSync t ∧
        s.files "a" = some ⟨8, ⟨1, 1⟩⟩ ∧ (∀ m, (t.phase m).Finished) ∧
        t.rows "a" = some ⟨8, ⟨1, 1⟩⟩ := by
    refine ⟨_, .cons ⟨.beginSyncPath rfl rfl, trivial⟩ <| .cons ⟨.metadata rfl rfl, trivial⟩ <|
      .cons ⟨.getFile rfl, trivial⟩ <| .cons ⟨.startEpoch rfl rfl, trivial⟩ <|
      .cons ⟨.read rfl rfl rfl, trivial⟩ <| .cons ⟨.getAgain rfl, trivial⟩ <|
      .cons ⟨.beginSyncPath rfl rfl, trivial⟩ <| .cons ⟨.metadata rfl rfl, trivial⟩ <|
      .cons ⟨.getFile rfl, trivial⟩ <| .cons ⟨.startEpoch rfl rfl, trivial⟩ <|
      .cons ⟨.read rfl rfl rfl, trivial⟩ <| .cons ⟨.getAgain rfl, trivial⟩ <|
      .cons ⟨.lock rfl rfl rfl, trivial⟩ <|
      .cons ⟨.exists rfl (Option.some_ne_none _), trivial⟩ <| .cons ⟨.replace rfl rfl, ?_⟩ <|
      .cons ⟨.change, ?_⟩ <| .nil _, _, _, .beginSyncPath rfl rfl,
      .cons ⟨.metadata rfl rfl, trivial, fun _ _ => trivial⟩ <|
      .cons ⟨.getFile rfl, trivial, ?_⟩ <|
      .cons ⟨.startEpoch rfl rfl, trivial, fun _ _ => trivial⟩ <|
      .cons ⟨.read rfl rfl rfl, trivial, fun _ _ => trivial⟩ <|
      .cons ⟨.getAgain rfl, trivial, fun _ _ => trivial⟩ <|
      .cons ⟨.bump rfl rfl, trivial, ?_⟩ <|
      .cons ⟨.deleteChunks rfl, trivial, fun _ _ => trivial⟩ <|
      .cons ⟨.deleteFile rfl, ?_, fun _ _ => trivial⟩ <|
      .cons ⟨.epochAgain rfl rfl, trivial, fun _ _ => trivial⟩ <|
      .cons ⟨.lock rfl rfl rfl, trivial, fun _ _ => trivial⟩ <|
      .cons ⟨.exists rfl (Option.some_ne_none _), trivial, fun _ _ => trivial⟩ <|
      .cons ⟨.replace rfl rfl, ?_, ?_⟩ <|
      .cons ⟨.epochChanged rfl rfl (by decide), trivial, fun _ _ => trivial⟩ <|
      .nil _, rfl, ?_, rfl⟩
    · exact fun _ =>
        htasks (fun _ => nofun) (fun h => absurd rfl h) (fun _ => nofun) fun _ _ => nofun
    · rintro - new hnew
      cases hnew
      refine ⟨fun row hrow hstat => ?_, htasks (fun _ => ?_) nofun nofun fun _ => nofun⟩
      · cases Option.some.inj hrow
        cases hstat
      · exact nofun
    · rintro file hfile - - hrow
      cases hrow
    · rintro file hfile -
      cases Option.some.inj hfile
      exact ⟨2, nofun, .inr ⟨rfl, rfl, trivial⟩⟩
    · exact fun _ => htasks (fun _ => id) (fun _ => id) (fun h => absurd rfl h) fun _ _ => id
    · exact fun _ =>
        htasks (fun _ => nofun) (fun _ => nofun) (fun h => absurd rfl h) fun _ _ => nofun
    · rintro file hfile - -
      cases Option.some.inj hfile
      refine .inr (htasks (fun _ => ?_) (fun _ => nofun) (fun h => absurd rfl h) fun _ _ => nofun)
      rintro (hlists | ⟨-, hnot⟩)
      · exact hlists nofun
      · exact hnot (.inr (show 0 ≠ 1 by decide))
    · exact htasks trivial trivial trivial fun _ => trivial
  obtain ⟨s, hbefore, u, t, hbegin, hrun, hfile, hfinished, hrow⟩ := hbefore
  refine ⟨s, u, t, hbefore, hbegin, hrun, ?_, hrow⟩
  exact memory_converges injective_id (fun _ => rfl) .start hbefore
    (.inl ⟨rfl, rfl, _, hfile, rfl, rfl⟩) hbegin hrun hfinished

/-- The stored rows are wrong when all tasks have finished.  A sync that has read the old content
writes last; a full sync removes a file that it had not discovered; a sync that finds the same hash
stores the row of a file that has been deleted and removed. -/
theorem memory_diverges :
    (∃ s, Run (SyncStep someIndexer) (.start (someFiles 7 0))
      [.begin 0 (.syncPath "a"), .step 0, .step 0, .step 0, .step 0, .step 0,
        .change "a" (some ⟨8, ⟨1, 1⟩⟩), .begin 1 (.syncPath "a"), .step 1, .step 1, .step 1,
        .step 1, .step 1, .step 1, .step 1, .step 1, .step 0, .step 0, .step 0] s ∧
      (∀ m, (s.phase m).Finished) ∧ s.files "a" = some ⟨8, ⟨1, 1⟩⟩ ∧
      s.rows "a" = some ⟨7, ⟨0, 1⟩⟩) ∧
    (∃ s, Run (SyncStep someIndexer) (.start fun _ => none)
      [.begin 0 .sync, .change "a" (some ⟨8, ⟨1, 1⟩⟩), .begin 1 (.syncPath "a"), .step 1, .step 1,
        .step 1, .step 1, .step 1, .step 1, .step 1, .step 1, .step 0, .step 0, .step 0] s ∧
      (∀ m, (s.phase m).Finished) ∧ s.files "a" = some ⟨8, ⟨1, 1⟩⟩ ∧ s.rows "a" = none) ∧
    ∃ s, Run (SyncStep someIndexer) (.start (someFiles 7 0))
      [.begin 0 (.syncPath "a"), .step 0, .step 0, .step 0, .step 0, .step 0, .step 0, .step 0,
        .step 0, .change "a" (some ⟨7, ⟨1, 1⟩⟩), .begin 1 (.syncPath "a"), .step 1, .step 1,
        .step 1, .step 1, .step 1, .change "a" none, .begin 2 (.removePath "a"), .step 2, .step 2,
        .step 2, .step 1] s ∧
      (∀ m, (s.phase m).Finished) ∧ s.files "a" = none ∧ s.rows "a" = some ⟨7, ⟨1, 1⟩⟩ := by
  have hdiscovered : ∀ path, path ∈ ([] : List String) ↔
      someIndexer.indexable path = true ∧ (none : Option (MarkdownFile ℕ)) ≠ none :=
    fun _ => ⟨nofun, fun h => absurd rfl h.2⟩
  have hstale : ∀ path, path ∈ ["a"] ↔
      update (fun _ => none) "a" (some (⟨8, ⟨1, 1⟩⟩ : FileRow ℕ)) path ≠ none ∧
        path ∉ ([] : List String) := by
    intro path
    rw [List.mem_singleton, and_iff_left List.not_mem_nil]
    by_cases heq : path = "a"
    · rw [heq, update_self]
      exact iff_of_true rfl (Option.some_ne_none _)
    · rw [update_of_ne heq]
      exact iff_of_false heq fun hne => hne rfl
  refine ⟨?_, ?_, ?_⟩
  · refine ⟨_, .cons (.beginSyncPath rfl rfl) <| .cons (.metadata rfl rfl) <|
      .cons (.getFile rfl) <| .cons (.startEpoch rfl rfl) <| .cons (.read rfl rfl rfl) <|
      .cons (.getAgain rfl) <| .cons .change <| .cons (.beginSyncPath rfl rfl) <|
      .cons (.metadata rfl rfl) <| .cons (.getFile rfl) <| .cons (.startEpoch rfl rfl) <|
      .cons (.read rfl rfl rfl) <| .cons (.getAgain rfl) <| .cons (.lock rfl rfl rfl) <|
      .cons (.exists rfl (Option.some_ne_none _)) <| .cons (.replace rfl rfl) <|
      .cons (.lock rfl rfl rfl) <| .cons (.exists rfl (Option.some_ne_none _)) <|
      .cons (.replace rfl rfl) <| .nil _, fun m => ?_, rfl, rfl⟩
    match m with
    | 0 | 1 | m + 2 => trivial
  · refine ⟨_, .cons (.beginSync rfl hdiscovered) <| .cons .change <|
      .cons (.beginSyncPath rfl rfl) <|
      .cons (.metadata rfl rfl) <| .cons (.getFile rfl) <| .cons (.startEpoch rfl rfl) <|
      .cons (.read rfl rfl rfl) <| .cons (.getAgain rfl) <| .cons (.lock rfl rfl rfl) <|
      .cons (.exists rfl (Option.some_ne_none _)) <| .cons (.replace rfl rfl) <|
      .cons (.list rfl hstale) <| .cons (.staleChunks rfl) <| .cons (.staleFile rfl) <|
      .nil _, fun m => ?_, rfl, rfl⟩
    match m with
    | 0 | 1 | m + 2 => trivial
  · refine ⟨_, .cons (.beginSyncPath rfl rfl) <| .cons (.metadata rfl rfl) <|
      .cons (.getFile rfl) <| .cons (.startEpoch rfl rfl) <| .cons (.read rfl rfl rfl) <|
      .cons (.getAgain rfl) <| .cons (.lock rfl rfl rfl) <|
      .cons (.exists rfl (Option.some_ne_none _)) <| .cons (.replace rfl rfl) <| .cons .change <|
      .cons (.beginSyncPath rfl rfl) <| .cons (.metadata rfl rfl) <| .cons (.getFile rfl) <|
      .cons (.startEpoch rfl rfl) <| .cons (.read rfl rfl rfl) <| .cons (.getAgain rfl) <|
      .cons .change <| .cons (.beginRemovePath rfl) <| .cons (.remove rfl rfl) <|
      .cons (.removeChunks rfl) <| .cons (.removeFile rfl) <| .cons (.upsertFile rfl) <| .nil _,
      fun m => ?_, rfl, rfl⟩
    match m with
    | 0 | 1 | 2 | m + 3 => trivial

end Chelix.Memory
