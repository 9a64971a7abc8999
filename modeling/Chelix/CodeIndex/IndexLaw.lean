import Chelix.CodeIndex.Indexing

/-!
# Rows and records of the code index

A later run goes by the records of the snapshot: a file that its record does not describe is due,
and is dealt with.  So the rows of a file that is not due have to be its own: those of the saved
record, or of the one that a run in progress is going to save.

* **`index_exact`**: the rows after a run that nothing fails in.
-/

namespace Chelix.CodeIndex

open Function

open Chelix.Library List RunPhase

variable {Content Hash Row : Type} (ix : Indexer Content Hash Row)

/-! ## Rows that fit a record -/

/-- A run takes the file for the recorded one: by its time and size, or by its hash. -/
def Indexer.Agrees (entry : FileMeta Hash) (file : SourceFile Content) : Prop :=
  (entry.modifiedTime = file.modifiedTime ∧ entry.size = file.size) ∨
    entry.contentHash = ix.contentHash file.content

/-- A later run deals with the path: the file is not as it is recorded, or not recorded. -/
def Indexer.Due (path : String) (state : PathState Content) : Option (FileMeta Hash) → Prop
  | some entry => ∀ file, ix.filtered path state = some file → ¬ ix.Agrees entry file
  | none => ix.filtered path state ≠ none

/-- A later run deals with the path, or the rows are those that a full run writes. -/
def Indexer.Fits (path : String) (state : PathState Content) (rows : List Row)
    (recorded : Option (FileMeta Hash)) : Prop :=
  ix.Due path state recorded ∨ rows = ix.expectedRows path state

/-- The record is one of the file as it is. -/
def Indexer.Recorded (path : String) (state : PathState Content)
    (recorded : Option (FileMeta Hash)) : Prop :=
  match ix.filtered path state with
  | some file => ∃ entry, recorded = some entry ∧ ix.Agrees entry file
  | none => recorded = none

/-- The rows of the file, whether it passes the filter or not. -/
def Indexer.rowsOf (path : String) : Option (SourceFile Content) → List Row
  | some file => ix.chunk path file.content
  | none => []

/-- The content is that of the file, which passes the filter. -/
def Indexer.Holds (path : String) (state : PathState Content) (content : Content) : Prop :=
  ∃ file, ix.filtered path state = some file ∧ file.content = content

variable {path : String} {state : PathState Content} {rows : List Row}
  {recorded : Option (FileMeta Hash)}

theorem expectedRows_of_filtered {file : SourceFile Content}
    (h : ix.filtered path state = some file) :
    ix.expectedRows path state = ix.chunk path file.content := by
  rw [Indexer.expectedRows, h]

theorem expectedRows_of_none (h : ix.filtered path state = none) :
    ix.expectedRows path state = [] := by
  rw [Indexer.expectedRows, h]

theorem rows_eq_expected (hfits : ix.Fits path state rows recorded)
    (hrecorded : ix.Recorded path state recorded) : rows = ix.expectedRows path state := by
  refine hfits.resolve_left fun hdue => ?_
  rw [Indexer.Recorded] at hrecorded
  cases hfile : ix.filtered path state with
  | none =>
    rw [hfile] at hrecorded
    subst hrecorded
    exact hdue hfile
  | some file =>
    rw [hfile] at hrecorded
    obtain ⟨entry, rfl, hagrees⟩ := hrecorded
    exact hdue file hfile hagrees

theorem fits_nil : ix.Fits path state [] none := by
  by_cases hfile : ix.filtered path state = none
  · exact .inr (expectedRows_of_none ix hfile).symm
  · exact .inl hfile

/-- The rows of the file fit every record of it; without one the file has to be due, or gone. -/
theorem fits_rowsOf (hrows : rows = ix.rowsOf path state.file)
    (hnone : recorded = none → state.file ≠ none → ix.filtered path state ≠ none) :
    ix.Fits path state rows recorded := by
  cases hfiltered : ix.filtered path state with
  | some file =>
    refine .inr ?_
    rw [hrows, ix.file_of_filtered hfiltered, expectedRows_of_filtered ix hfiltered]
    rfl
  | none =>
    cases recorded with
    | some entry => exact .inl fun file hfile => nomatch hfiltered.symm.trans hfile
    | none =>
      refine .inr ?_
      have hgone : state.file = none := by
        by_contra hne
        exact hnone rfl hne hfiltered
      rw [hrows, hgone, expectedRows_of_none ix hfiltered]
      rfl

variable {content : Content}

/-- The rows that are written for a content with chunks, or without any over none. -/
theorem rowsAfter_eq (h : ix.chunk path content = [] → rows = []) :
    ix.rowsAfter path content rows = ix.chunk path content := by
  rw [Indexer.rowsAfter]
  split
  · rename_i hnil
    rw [hnil]
    exact h hnil
  · rfl

theorem rowsAfter_expected (hholds : ix.Holds path state content)
    (h : ix.chunk path content = [] → rows = []) :
    ix.rowsAfter path content rows = ix.expectedRows path state := by
  obtain ⟨file, hfiltered, rfl⟩ := hholds
  rw [rowsAfter_eq ix h, expectedRows_of_filtered ix hfiltered]

/-! ## Runs in progress -/

namespace RunPhase

/-- The phase is one of a run that saves a snapshot in the end. -/
def Indexes : RunPhase Content Hash → Prop
  | .idle => False
  | .indexing .watch _ => False
  | .holding .watch _ _ _ => False
  | _ => True

/-- What the run still deals with does not matter; the rest fits what the run has recorded.  A full
run has written the rows of the files that it has not recorded yet. -/
def Fits (path : String) (state : PathState Content) (rows : List Row) (saved : Snapshot Hash) :
    RunPhase Content Hash → Prop
  | .scanning previous _ current added modified
  | .hashing previous _ _ _ _ current added modified =>
    ix.Fits path state rows (previous path) ∧
    ∀ entry, current path = some entry →
      path ∈ added ∨ path ∈ modified ∨ ix.Fits path state rows (some entry)
  | .clearing _ => (∃ other, saved other ≠ none) → ix.Fits path state rows (saved path)
  | .indexing (.incremental removed next) todo =>
    path ∈ todo ∨ path ∈ removed ∨ ix.Fits path state rows (next path)
  | .holding (.incremental removed next) file _ todo =>
    path ∈ file :: todo ∨ path ∈ removed ∨ ix.Fits path state rows (next path)
  | .indexing (.full files) todo =>
    path ∈ todo ∨ path ∈ files ∧ rows = ix.rowsOf path state.file ∨
    path ∉ files ∧ ix.Fits path state rows none
  | .holding (.full files) file _ todo =>
    path ∈ file :: todo ∨ path ∈ files ∧ rows = ix.rowsOf path state.file ∨
    path ∉ files ∧ ix.Fits path state rows none
  | .deleting removed next => path ∈ removed ∨ ix.Fits path state rows (next path)
  | .building todo next =>
    path ∈ todo ∧ rows = ix.rowsOf path state.file ∨
    path ∉ todo ∧ ix.Fits path state rows (next path)
  | .buildingHash file _ _ todo next =>
    path ∈ file :: todo ∧ rows = ix.rowsOf path state.file ∨
    path ∉ file :: todo ∧ ix.Fits path state rows (next path)
  | _ => True

/-- The lists of a run fit together. -/
def WellFormed (saved : Snapshot Hash) : RunPhase Content Hash → Prop
  | .scanning previous _ _ _ _ => previous = saved
  | .hashing previous _ _ _ _ _ _ _ => previous = saved
  | .indexing (.incremental removed next) _ =>
    ∀ path ∈ removed, next path = none ∧ saved path ≠ none
  | .holding (.incremental removed next) _ _ _ =>
    ∀ path ∈ removed, next path = none ∧ saved path ≠ none
  | .deleting removed next => ∀ path ∈ removed, next path = none ∧ saved path ≠ none
  | .indexing (.full files) todo => ∀ path ∈ todo, path ∈ files
  | .holding (.full files) file _ todo => ∀ path ∈ file :: todo, path ∈ files
  | _ => True

variable {ix} {phase : RunPhase Content Hash} {saved : Snapshot Hash}

theorem fits_of_not_indexes (h : ¬ phase.Indexes) : phase.Fits ix path state rows saved := by
  match phase, h with
  | .idle, _ => trivial
  | .indexing .watch _, _ => trivial
  | .holding .watch _ _ _, _ => trivial
  | .scanning .., h | .hashing .., h | .clearing _, h | .indexing (.incremental ..) _, h
  | .indexing (.full _) _, h | .holding (.incremental ..) _ _ _, h | .holding (.full _) _ _ _, h
  | .deleting .., h | .building .., h | .buildingHash .., h => exact absurd trivial h

theorem wellFormed_of_not_indexes (h : ¬ phase.Indexes) : phase.WellFormed saved := by
  match phase, h with
  | .idle, _ => trivial
  | .indexing .watch _, _ => trivial
  | .holding .watch _ _ _, _ => trivial
  | .scanning .., h | .hashing .., h | .clearing _, h | .indexing (.incremental ..) _, h
  | .indexing (.full _) _, h | .holding (.incremental ..) _ _ _, h | .holding (.full _) _ _ _, h
  | .deleting .., h | .building .., h | .buildingHash .., h => exact absurd trivial h

theorem Fits.rewrite {rows' : List Row} (h : phase.Fits ix path state rows saved)
    (hexpected : rows' = ix.expectedRows path state) (hrows : rows' = ix.rowsOf path state.file) :
    phase.Fits ix path state rows' saved := by
  have hfits (recorded : Option (FileMeta Hash)) : ix.Fits path state rows' recorded :=
    .inr hexpected
  match phase, h with
  | .scanning .., h | .hashing .., h => exact ⟨hfits _, fun entry _ => .inr (.inr (hfits _))⟩
  | .clearing _, _ => exact fun _ => hfits _
  | .indexing (.incremental ..) _, _ | .holding (.incremental ..) _ _ _, _ =>
    exact .inr (.inr (hfits _))
  | .indexing (.full files) _, _ | .holding (.full files) _ _ _, _ =>
    by_cases hin : path ∈ files
    · exact .inr (.inl ⟨hin, hrows⟩)
    · exact .inr (.inr ⟨hin, hfits _⟩)
  | .deleting .., _ => exact .inr (hfits _)
  | .building todo _, _ =>
    by_cases hin : path ∈ todo
    · exact .inl ⟨hin, hrows⟩
    · exact .inr ⟨hin, hfits _⟩
  | .buildingHash file _ _ todo _, _ =>
    by_cases hin : path ∈ file :: todo
    · exact .inl ⟨hin, hrows⟩
    · exact .inr ⟨hin, hfits _⟩
  | .idle, _ | .indexing .watch _, _ | .holding .watch _ _ _, _ => trivial

end RunPhase

/-! ## The schedule -/

/-- The snapshot is not empty, so that the next run is not a full one. -/
def Records (saved : Snapshot Hash) : Prop := ∃ path, saved path ≠ none

/-- The rows of the path fit what the run in progress has recorded; if there is none, they fit the
snapshot, where that matters. -/
def FitsWith (matters : Snapshot Hash → Prop) (s : IndexState Content Hash Row) (path : String)
    (state : PathState Content) (rows : List Row) : Prop :=
  (∀ n, (s.phase n).Fits ix path state rows s.snapshot) ∧
  ((∀ n, ¬ (s.phase n).Indexes) → matters s.snapshot → ix.Fits path state rows (s.snapshot path))

/-- A run that is to save a snapshot starts only when no other is in progress.  A run writes what it
has read only while that is the content of the file (or the file is due for a later run), and a
content without chunks only where no rows are stored.  A listed file is not read only where it is
due, in a full run where it is gone.  A run ends early only where the files that it has listed or
recorded anew are due by the saved records, a full run that has cleared the rows only where there is
no saved record.  A file is changed only to one that is due, or whose rows are stored. -/
def Undisturbed (s : IndexState Content Hash Row) : IndexEvent Content → Prop
  | .begin _ .watch _ => True
  | .begin _ _ _ => ∀ n, ¬ (s.phase n).Indexes
  | .step n =>
    match s.phase n with
    | .holding .watch path content _ => ix.Holds path (s.disk path) content
    | .holding (.incremental _ next) path content _ => ix.Due path (s.disk path) (next path) ∨
        ix.Holds path (s.disk path) content ∧ (ix.chunk path content = [] → s.rows path = [])
    | .holding (.full _) path content _ => (s.disk path).file.map (·.content) = some content ∧
        (ix.chunk path content = [] → s.rows path = [])
    | _ => True
  | .fail n =>
    match s.phase n with
    | .indexing (.incremental _ next) (path :: _) => ix.Due path (s.disk path) (next path)
    | .indexing (.full _) (path :: _) => (s.disk path).file = none ∧ s.rows path = []
    | .building (path :: _) _ | .buildingHash path _ _ _ _ =>
      (s.disk path).file ≠ none → ix.filtered path (s.disk path) ≠ none
    | _ => True
  | .abort n =>
    match s.phase n with
    | .indexing (.incremental _ next) todo => ∀ path, path ∈ todo ∨ next path ≠ s.snapshot path →
        ix.Due path (s.disk path) (s.snapshot path)
    | .holding (.incremental _ next) file _ todo => ∀ path,
        path ∈ file :: todo ∨ next path ≠ s.snapshot path →
        ix.Due path (s.disk path) (s.snapshot path)
    | .deleting _ next => ∀ path, next path ≠ s.snapshot path →
        ix.Due path (s.disk path) (s.snapshot path)
    | .indexing (.full _) _ | .holding (.full _) _ _ _ | .building _ _ | .buildingHash _ _ _ _ _ =>
      ∀ path, s.snapshot path = none
    | _ => True
  | .change path state => FitsWith ix Records s path state (s.rows path)

/-- At most one run is to save a snapshot, and the rows fit the records. -/
structure Kept (matters : Snapshot Hash → Prop) (s : IndexState Content Hash Row) : Prop where
  one : ∀ n m, (s.phase n).Indexes → (s.phase m).Indexes → n = m
  formed : ∀ n, (s.phase n).WellFormed s.snapshot
  fits : ∀ path, FitsWith ix matters s path (s.disk path) (s.rows path)

variable {new : RunPhase Content Hash} {other : String} {todo files : List String}
  {file : SourceFile Content}

namespace Kept

variable {ix} {matters : Snapshot Hash → Prop} {s t : IndexState Content Hash Row}

theorem of_quiet (hquiet : ∀ n, ¬ (s.phase n).Indexes)
    (hfits : matters s.snapshot →
      ∀ path, ix.Fits path (s.disk path) (s.rows path) (s.snapshot path)) : Kept ix matters s where
  one n _ hn _ := absurd hn (hquiet n)
  formed n := wellFormed_of_not_indexes (hquiet n)
  fits path := ⟨fun n => fits_of_not_indexes (hquiet n), fun _ hsome => hfits hsome path⟩

variable {n : ℕ}

theorem of_run (hothers : ∀ m, m ≠ n → ¬ (s.phase m).Indexes) (hindexes : (s.phase n).Indexes)
    (hformed : (s.phase n).WellFormed s.snapshot)
    (hfits : ∀ path, (s.phase n).Fits ix path (s.disk path) (s.rows path) s.snapshot) :
    Kept ix matters s where
  one k m hk hm := by
    have hkn : k = n := by_contra fun hne => hothers k hne hk
    have hmn : m = n := by_contra fun hne => hothers m hne hm
    rw [hkn, hmn]
  formed m := by
    by_cases heq : m = n
    · rw [heq]
      exact hformed
    · exact wellFormed_of_not_indexes (hothers m heq)
  fits path := by
    refine ⟨fun m => ?_, fun hquiet => absurd hindexes (hquiet n)⟩
    by_cases heq : m = n
    · rw [heq]
      exact hfits path
    · exact fits_of_not_indexes (hothers m heq)

theorem start (disk : String → PathState Content) : Kept ix matters (IndexState.start disk) := by
  exact of_quiet (fun _ => not_false) fun _ _ => fits_nil ix

theorem of_indexes (h : Kept ix matters s) (hindexes : (s.phase n).Indexes)
    (matters' : Snapshot Hash → Prop) : Kept ix matters' s where
  __ := h
  fits path := ⟨(h.fits path).1, fun hquiet => absurd hindexes (hquiet n)⟩

variable {phase : RunPhase Content Hash}

theorem fits_phase (h : Kept ix matters s) (hphase : s.phase n = phase) (path : String) :
    phase.Fits ix path (s.disk path) (s.rows path) s.snapshot :=
  hphase ▸ (h.fits path).1 n

theorem wellFormed_phase (h : Kept ix matters s) (hphase : s.phase n = phase) :
    phase.WellFormed s.snapshot :=
  hphase ▸ h.formed n

theorem not_indexes (h : Kept ix matters s) (hphase : s.phase n = phase)
    (hindexes : phase.Indexes) (m : ℕ)
    (hne : m ≠ n) : ¬ (s.phase m).Indexes :=
  fun hm => hne (h.one m n hm (hphase ▸ hindexes))

theorem advance (h : Kept ix matters s) {old : RunPhase Content Hash} {rows : String → List Row}
    (hphase : s.phase n = old) (hold : old.Indexes) (hnew : new.Indexes)
    (hformed : new.WellFormed s.snapshot)
    (hfits : ∀ path, new.Fits ix path (s.disk path) (rows path) s.snapshot) :
    Kept ix matters ({ s with rows := rows }.setPhase n new) := by
  have hself : ({ s with rows := rows }.setPhase n new).phase n = new := update_self ..
  refine of_run (n := n) (fun m hne => ?_) ?_ ?_ ?_
  · show ¬ (update s.phase n new m).Indexes
    rw [update_of_ne hne]
    exact h.not_indexes hphase hold m hne
  · rw [hself]
    exact hnew
  · rw [hself]
    exact hformed
  · rw [hself]
    exact hfits

theorem begin_run (hquiet : ∀ m, ¬ (s.phase m).Indexes) (hnew : new.Indexes)
    (hformed : new.WellFormed s.snapshot)
    (hfits : ∀ path, new.Fits ix path (s.disk path) (s.rows path) s.snapshot) :
    Kept ix matters (s.setPhase n new) := by
  have hself : (s.setPhase n new).phase n = new := update_self ..
  refine of_run (n := n) (fun m hne => ?_) ?_ ?_ ?_
  · show ¬ (update s.phase n new m).Indexes
    rw [update_of_ne hne]
    exact hquiet m
  · rw [hself]
    exact hnew
  · rw [hself]
    exact hformed
  · rw [hself]
    exact hfits

theorem finish (h : Kept ix matters s) (hindexes : (s.phase n).Indexes) {saved : Snapshot Hash}
    (hfits : matters saved →
      ∀ path, ix.Fits path (s.disk path) (s.rows path) (saved path)) :
    Kept ix matters ({ s with snapshot := saved }.setPhase n .idle) := by
  refine of_quiet (fun m => ?_) hfits
  show ¬ (update s.phase n .idle m : RunPhase Content Hash).Indexes
  by_cases heq : m = n
  · rw [heq, update_self]
    exact not_false
  · rw [update_of_ne heq]
    exact h.not_indexes rfl hindexes m heq

theorem watch (h : Kept ix matters s) (hold : ¬ (s.phase n).Indexes) (hnew : ¬ new.Indexes) :
    Kept ix matters (s.setPhase n new) := by
  have hphase : ∀ m, ((s.setPhase n new).phase m).Indexes →
      (s.setPhase n new).phase m = s.phase m := by
    intro m hm
    by_cases heq : m = n
    · subst heq
      exact absurd ((update_self m new s.phase) ▸ hm) hnew
    · exact update_of_ne heq ..
  refine ⟨fun k m hk hm => ?_, fun m => ?_, fun path => ⟨fun m => ?_, fun hquiet => ?_⟩⟩
  · exact h.one k m (hphase k hk ▸ hk) (hphase m hm ▸ hm)
  · by_cases hm : ((s.setPhase n new).phase m).Indexes
    · rw [hphase m hm]
      exact h.formed m
    · exact wellFormed_of_not_indexes hm
  · by_cases hm : ((s.setPhase n new).phase m).Indexes
    · rw [hphase m hm]
      exact (h.fits path).1 m
    · exact fits_of_not_indexes hm
  · refine (h.fits path).2 fun m hm => ?_
    by_cases heq : m = n
    · exact hold (heq ▸ hm)
    · refine hquiet m ?_
      show (update s.phase n new m).Indexes
      rw [update_of_ne heq]
      exact hm

theorem at_path (h : Kept ix matters s) (hfits : FitsWith ix matters s path state rows) :
    Kept ix matters { s with
      disk := update s.disk path state
      rows := update s.rows path rows } where
  __ := h
  fits other := by
    show FitsWith ix matters s other (update s.disk path state other)
      (update s.rows path rows other)
    by_cases heq : other = path
    · rw [heq, update_self, update_self]
      exact hfits
    · rw [update_of_ne heq, update_of_ne heq]
      exact h.fits other

variable {added modified : List String}

theorem scan {previous current saved : Snapshot Hash} {added' modified' : List String}
    (h : ix.Fits other state rows (previous other) ∧ ∀ entry, current other = some entry →
      other ∈ added ∨ other ∈ modified ∨ ix.Fits other state rows (some entry))
    (hadded : added ⊆ added') (hmodified : modified ⊆ modified')
    (hrecorded : other = path → ix.Fits path state rows (previous path) → ∀ entry,
      recorded = some entry →
        path ∈ added' ∨ path ∈ modified' ∨ ix.Fits path state rows (some entry)) :
    (scanning previous todo (update current path recorded) added'
      modified').Fits ix other state rows saved := by
  obtain ⟨hprevious, hcurrent⟩ := h
  refine ⟨hprevious, fun entry hentry => ?_⟩
  by_cases heq : other = path
  · subst heq
    rw [update_self] at hentry
    exact hrecorded rfl hprevious entry hentry
  · rw [update_of_ne heq] at hentry
    exact (hcurrent entry hentry).imp (fun hin => hadded hin)
      (Or.imp_left fun hin => hmodified hin)

theorem mem_of_mem_cons (h : other ∈ path :: todo) (hne : other ≠ path) : other ∈ todo :=
  (mem_cons.mp h).resolve_left hne

theorem added_subset : added ⊆ addedAfter recorded path added := by
  cases recorded with
  | none => exact subset_append_left ..
  | some _ => exact List.Subset.refl _

theorem write_rows (h : Kept ix matters s) (hholds : ix.Holds path (s.disk path) content) :
    Kept ix matters (s.setRows path (ix.rowsAfter path content (s.rows path))) := by
  have hfits : FitsWith ix matters s path (s.disk path) (ix.rowsAfter path content (s.rows path)) := by
    cases hchunk : ix.chunk path content with
    | nil =>
      rw [Indexer.rowsAfter, hchunk]
      exact h.fits path
    | cons row rest =>
      have hexpected : ix.rowsAfter path content (s.rows path) =
          ix.expectedRows path (s.disk path) :=
        rowsAfter_expected ix hholds fun hnil => nomatch hchunk.symm.trans hnil
      have hrows : ix.expectedRows path (s.disk path) = ix.rowsOf path (s.disk path).file := by
        obtain ⟨file, hfiltered, -⟩ := hholds
        rw [expectedRows_of_filtered ix hfiltered, ix.file_of_filtered hfiltered]
        rfl
      rw [hexpected]
      exact ⟨fun n => ((h.fits path).1 n).rewrite rfl hrows, fun _ _ => .inr rfl⟩
  have hpath := h.at_path hfits
  rw [update_eq_self] at hpath
  exact hpath

theorem upsert (h : Kept ix matters s) {mode : IndexMode Hash}
    (hphase : s.phase n = .holding mode path content todo)
    (hschedule : Undisturbed ix s (.step n)) :
    Kept ix matters ((s.setRows path (ix.rowsAfter path content (s.rows path))).setPhase n
      (.indexing mode todo)) := by
  rw [Undisturbed, hphase] at hschedule
  cases mode with
  | watch =>
    refine (h.write_rows hschedule).watch ?_ not_false
    show ¬ (s.phase n).Indexes
    rw [hphase]
    exact not_false
  | incremental removed next =>
    have hformed := h.wellFormed_phase hphase
    refine h.advance hphase trivial trivial hformed fun other => ?_
    by_cases heq : other = path
    · refine .inr (.inr ?_)
      rw [heq, update_self]
      refine hschedule.imp id fun ⟨hholds, hempty⟩ => ?_
      exact rowsAfter_expected ix hholds hempty
    · rw [update_of_ne heq]
      rcases h.fits_phase hphase other with hin | hfits
      · exact .inl (mem_of_mem_cons hin heq)
      · exact .inr hfits
  | full files =>
    have hformed : ∀ other ∈ path :: todo, other ∈ files := h.wellFormed_phase hphase
    obtain ⟨hholds, hempty⟩ := hschedule
    refine h.advance hphase trivial trivial ?_ fun other => ?_
    · exact fun other hin => hformed other (mem_cons_of_mem path hin)
    · by_cases heq : other = path
      · refine .inr (.inl ⟨heq ▸ hformed path mem_cons_self, ?_⟩)
        obtain ⟨file, hfile, rfl⟩ := Option.map_eq_some_iff.mp hholds
        rw [heq, update_self, rowsAfter_eq ix hempty, hfile]
        rfl
      · rw [update_of_ne heq]
        exact (h.fits_phase hphase other).imp_left fun hin => mem_of_mem_cons hin heq

variable [DecidableEq Hash]

/-- The content that is hashed is the one that is there: the new record fits as the old one does,
or the path goes to the lists. -/
theorem hash_recorded {previous : Snapshot Hash} {modifiedTime size : ℕ}
    (hfile : state.file = some file) (hfits : ix.Fits path state rows (previous path))
    (entry : FileMeta Hash)
    (hentry : some ⟨ix.contentHash file.content, modifiedTime, size⟩ = some entry) :
    path ∈ addedAfter (previous path) path added ∨
    path ∈ modifiedAfter (previous path) (ix.contentHash file.content) path modified ∨
    ix.Fits path state rows (some entry) := by
  cases hprevious : previous path with
  | none => exact .inl (mem_append_right _ (mem_singleton_self path))
  | some old =>
    by_cases hhash : old.contentHash = ix.contentHash file.content
    · rw [hprevious] at hfits
      refine .inr (.inr (hfits.imp_left fun hdue found hfound => ?_))
      obtain rfl : found = file := by
        have hsame := ix.file_of_filtered hfound
        rw [hfile] at hsame
        exact (Option.some.inj hsame).symm
      exact absurd (.inr hhash) (hdue found hfound)
    · refine .inr (.inl ?_)
      rw [modifiedAfter, if_neg hhash]
      exact mem_append_right _ (mem_singleton_self path)

theorem modified_subset {hash : Hash} : modified ⊆ modifiedAfter recorded hash path modified := by
  cases recorded with
  | none => exact List.Subset.refl _
  | some entry =>
    rw [modifiedAfter]
    split
    · exact List.Subset.refl _
    · exact subset_append_left ..

theorem step_begin (hmatters : ∀ saved, Records saved → matters saved) (h : Kept ix matters s)
    {kind : IndexKind} (hstep : IndexStep ix s (.begin n kind files) t)
    (hschedule : Undisturbed ix s (.begin n kind files)) :
    Kept ix matters t := by
  cases hstep with
  | beginIncremental hphase hfiles hsnapshot =>
    refine begin_run hschedule trivial rfl fun path => ⟨?_, nofun⟩
    exact (h.fits path).2 hschedule (hmatters _ hsnapshot)
  | beginFirst hphase hfiles hsnapshot | beginFull hphase hfiles =>
    refine begin_run hschedule trivial trivial fun path hsaved => ?_
    exact (h.fits path).2 hschedule (hmatters _ hsaved)
  | beginWatch hphase hfiles =>
    refine h.watch ?_ not_false
    rw [hphase]
    exact not_false

theorem step_fail (h : Kept ix matters s) (hstep : IndexStep ix s (.fail n) t)
    (hschedule : Undisturbed ix s (.fail n)) : Kept ix matters t := by
  cases hstep with
  | lookFail hphase | hashFail hphase =>
    have hformed := h.wellFormed_phase hphase
    refine h.advance hphase trivial trivial hformed fun path => ?_
    refine scan (h.fits_phase hphase path) (List.Subset.refl _) (List.Subset.refl _) ?_
    intro heq hfits entry hentry
    rw [hentry] at hfits
    exact .inr (.inr (heq ▸ hfits))
  | @readFail _ mode path todo hphase =>
    cases mode with
    | watch =>
      refine h.watch ?_ not_false
      rw [hphase]
      exact not_false
    | incremental removed next =>
      rw [Undisturbed, hphase] at hschedule
      have hformed := h.wellFormed_phase hphase
      refine h.advance hphase trivial trivial hformed fun other => ?_
      rcases h.fits_phase hphase other with hin | hfits
      · by_cases heq : other = path
        · exact .inr (.inr (heq ▸ .inl hschedule))
        · exact .inl (mem_of_mem_cons hin heq)
      · exact .inr hfits
    | full files =>
      rw [Undisturbed, hphase] at hschedule
      obtain ⟨hgone, hempty⟩ := hschedule
      have hformed : ∀ other ∈ path :: todo, other ∈ files := h.wellFormed_phase hphase
      refine h.advance hphase trivial trivial ?_ fun other => ?_
      · exact fun other hin => hformed other (mem_cons_of_mem path hin)
      · by_cases heq : other = path
        · refine .inr (.inl ⟨heq ▸ hformed path mem_cons_self, ?_⟩)
          rw [heq, hgone, hempty]
          rfl
        · exact (h.fits_phase hphase other).imp_left fun hin => mem_of_mem_cons hin heq
  | @buildLookFail _ path todo next hphase | @buildHashFail _ path _ _ todo next hphase =>
    rw [Undisturbed, hphase] at hschedule
    refine h.advance hphase trivial trivial trivial fun other => ?_
    rcases h.fits_phase hphase other with ⟨hin, hrows⟩ | ⟨hnot, hfits⟩
    · by_cases hlater : other ∈ todo
      · exact .inl ⟨hlater, hrows⟩
      · refine .inr ⟨hlater, fits_rowsOf ix hrows fun _ => ?_⟩
        obtain rfl : other = path := by_contra fun hne => hlater (mem_of_mem_cons hin hne)
        exact hschedule
    · exact .inr ⟨fun hin => hnot (mem_cons_of_mem path hin), hfits⟩

theorem step_step (h : Kept ix matters s) (hstep : IndexStep ix s (.step n) t)
    (hschedule : Undisturbed ix s (.step n)) : Kept ix matters t := by
  cases hstep with
  | @lookSame _ path file entry previous current todo added modified hphase hfile hentry hsame =>
    have hformed := h.wellFormed_phase hphase
    refine h.advance hphase trivial trivial hformed fun other => ?_
    refine scan (h.fits_phase hphase other) (List.Subset.refl _) (List.Subset.refl _) ?_
    intro heq hfits entry' hentry'
    rw [hentry, hentry'] at hfits
    exact .inr (.inr (heq ▸ hfits))
  | look hphase hfile hchanged =>
    have hformed := h.wellFormed_phase hphase
    have hfits := h.fits_phase hphase
    exact h.advance hphase trivial trivial hformed hfits
  | hash hphase hfile =>
    have hformed := h.wellFormed_phase hphase
    refine h.advance hphase trivial trivial hformed fun other => ?_
    refine scan (h.fits_phase hphase other) added_subset modified_subset ?_
    rintro rfl hfits
    exact hash_recorded hfile hfits
  | @delta _ previous current added modified removed hphase hremoved =>
    have hsaved : previous = s.snapshot := h.wellFormed_phase hphase
    refine h.advance hphase trivial trivial (fun path hin => ?_) fun path => ?_
    · obtain ⟨hprevious, hcurrent⟩ := (hremoved path).mp hin
      exact ⟨hcurrent, hsaved ▸ hprevious⟩
    obtain ⟨hprevious, hcurrent⟩ := h.fits_phase hphase path
    cases hentry : current path with
    | some entry =>
      rcases hcurrent entry hentry with hin | hin | hfits
      · exact .inl (mem_append_left _ hin)
      · exact .inl (mem_append_right _ hin)
      · refine .inr (.inr ?_)
        rw [hentry]
        exact hfits
    | none =>
      by_cases hnone : previous path = none
      · refine .inr (.inr ?_)
        rw [hentry, ← hnone]
        exact hprevious
      · exact .inr (.inl ((hremoved path).mpr ⟨hnone, hentry⟩))
  | @clear _ files hphase =>
    refine h.advance hphase trivial trivial (fun _ hin => hin) fun path => ?_
    by_cases hin : path ∈ files
    · exact .inl hin
    · exact .inr (.inr ⟨hin, fits_nil ix⟩)
  | @read _ mode path file todo hphase hfile =>
    cases mode with
    | watch =>
      refine h.watch ?_ not_false
      rw [hphase]
      exact not_false
    | incremental removed next | full files =>
      have hformed := h.wellFormed_phase hphase
      have hfits := h.fits_phase hphase
      exact h.advance hphase trivial trivial hformed hfits
  | upsert hphase => exact h.upsert hphase hschedule
  | endWatch hphase =>
    refine h.watch ?_ not_false
    rw [hphase]
    exact not_false
  | endIncremental hphase =>
    have hformed := h.wellFormed_phase hphase
    refine h.advance hphase trivial trivial hformed fun path => ?_
    exact (h.fits_phase hphase path).resolve_left not_mem_nil
  | endFull hphase =>
    refine h.advance hphase trivial trivial trivial fun path => ?_
    exact (h.fits_phase hphase path).resolve_left not_mem_nil
  | buildLook hphase hfile =>
    have hfits := h.fits_phase hphase
    exact h.advance hphase trivial trivial trivial hfits
  | @delete _ path removed next hphase =>
    have hformed : ∀ other ∈ path :: removed, next other = none ∧ s.snapshot other ≠ none :=
      h.wellFormed_phase hphase
    refine h.advance hphase trivial trivial ?_ fun other => ?_
    · exact fun other hin => hformed other (mem_cons_of_mem path hin)
    · by_cases heq : other = path
      · refine .inr ?_
        rw [heq, update_self, (hformed path mem_cons_self).1]
        exact fits_nil ix
      · rw [update_of_ne heq]
        exact (h.fits_phase hphase other).imp_left fun hin => mem_of_mem_cons hin heq
  | @buildHash _ path modifiedTime size file todo next hphase hfile =>
    refine h.advance hphase trivial trivial trivial fun other => ?_
    rcases h.fits_phase hphase other with ⟨hin, hrows⟩ | ⟨hnot, hfits⟩
    · by_cases hlater : other ∈ todo
      · exact .inl ⟨hlater, hrows⟩
      · obtain rfl : other = path := by_contra fun hne => hlater (mem_of_mem_cons hin hne)
        refine .inr ⟨hlater, ?_⟩
        rw [update_self]
        exact fits_rowsOf ix hrows nofun
    · refine .inr ⟨fun hin => hnot (mem_cons_of_mem path hin), ?_⟩
      have hne : other ≠ path := by
        rintro rfl
        exact hnot mem_cons_self
      rw [update_of_ne hne]
      exact hfits
  | save hphase =>
    rcases hphase with hphase | hphase
    · refine h.finish (by rw [hphase]; trivial) fun _ path => ?_
      exact (h.fits_phase hphase path).resolve_left not_mem_nil
    · refine h.finish (by rw [hphase]; trivial) fun _ path => ?_
      exact ((h.fits_phase hphase path).resolve_left fun hin => not_mem_nil hin.1).2

theorem abort_fits (h : Kept ix matters s) (hindexes : (s.phase n).Indexes)
    (hschedule : Undisturbed ix s (.abort n)) (hsaved : Records s.snapshot) (path : String) :
    ix.Fits path (s.disk path) (s.rows path) (s.snapshot path) := by
  have hfull (hnone : ∀ path, s.snapshot path = none) :
      ix.Fits path (s.disk path) (s.rows path) (s.snapshot path) := by
    obtain ⟨other, hsome⟩ := hsaved
    exact absurd (hnone other) hsome
  have hlisted {removed listed : List String} {next : Snapshot Hash}
      (hformed : ∀ path ∈ removed, next path = none ∧ s.snapshot path ≠ none)
      (hfits : path ∈ listed ∨ path ∈ removed ∨
        ix.Fits path (s.disk path) (s.rows path) (next path))
      (hdue : path ∈ listed ∨ next path ≠ s.snapshot path →
        ix.Due path (s.disk path) (s.snapshot path)) :
      ix.Fits path (s.disk path) (s.rows path) (s.snapshot path) := by
    by_cases hsame : next path = s.snapshot path
    · rcases hfits with hin | hin | hfits
      · exact .inl (hdue (.inl hin))
      · obtain ⟨hnone, hsome⟩ := hformed path hin
        exact absurd (hsame.symm.trans hnone) hsome
      · exact hsame ▸ hfits
    · exact .inl (hdue (.inr hsame))
  rw [Undisturbed] at hschedule
  cases hphase : s.phase n with
  | idle =>
    rw [hphase] at hindexes
    cases hindexes
  | scanning previous todo current added modified
  | hashing previous file modifiedTime size todo current added modified =>
    have hprevious : previous = s.snapshot := h.wellFormed_phase hphase
    exact hprevious ▸ (h.fits_phase hphase path).1
  | clearing files => exact h.fits_phase hphase path hsaved
  | deleting removed next =>
    rw [hphase] at hschedule
    have hfits : path ∈ [] ∨ path ∈ removed ∨
        ix.Fits path (s.disk path) (s.rows path) (next path) := .inr (h.fits_phase hphase path)
    refine hlisted (h.wellFormed_phase hphase) hfits fun hdue => ?_
    exact hschedule path (hdue.resolve_left not_mem_nil)
  | building todo next | buildingHash file modifiedTime size todo next =>
    rw [hphase] at hschedule
    exact hfull hschedule
  | indexing mode todo =>
    rw [hphase] at hschedule hindexes
    cases mode with
    | watch => cases hindexes
    | incremental removed next =>
      exact hlisted (h.wellFormed_phase hphase) (h.fits_phase hphase path) (hschedule path)
    | full files => exact hfull hschedule
  | holding mode file content todo =>
    rw [hphase] at hschedule hindexes
    cases mode with
    | watch => cases hindexes
    | incremental removed next =>
      exact hlisted (h.wellFormed_phase hphase) (h.fits_phase hphase path) (hschedule path)
    | full files => exact hfull hschedule

/-- **One step** keeps the rows in step with the records, if nothing disturbs it. -/
theorem step (hmatters : ∀ saved, Records saved → matters saved) (h : Kept ix matters s)
    {e : IndexEvent Content} (hstep : IndexStep ix s e t) (hschedule : Undisturbed ix s e)
    (hends : (∀ saved, matters saved → Records saved) ∨
      (∀ n, e = .abort n → ¬ (s.phase n).Indexes) ∧ ∀ path state, e ≠ .change path state) :
    Kept ix matters t := by
  cases e with
  | «begin» n kind files => exact h.step_begin hmatters hstep hschedule
  | step n => exact h.step_step hstep hschedule
  | fail n => exact h.step_fail hstep hschedule
  | abort n =>
    cases hstep
    by_cases hindexes : (s.phase n).Indexes
    · have hrecords := hends.resolve_right fun hnot => hnot.1 n rfl hindexes
      exact h.finish hindexes fun hsaved path =>
        h.abort_fits hindexes hschedule (hrecords _ hsaved) path
    · exact h.watch hindexes not_false
  | change path state =>
    cases hstep
    have hrecords := hends.resolve_right fun hnot => hnot.2 path state rfl
    have hfits : FitsWith ix matters s path state (s.rows path) :=
      ⟨hschedule.1, fun hquiet hsaved => hschedule.2 hquiet (hrecords _ hsaved)⟩
    have hpath := h.at_path hfits
    rw [update_eq_self] at hpath
    exact hpath

end Kept

/-! ## A run that nothing fails in -/

/-- The files still to be recorded are there, and the others are recorded as they are. -/
def Indexer.Pending (path : String) (state : PathState Content) (todo : List String)
    (current : Snapshot Hash) : Prop :=
  (path ∈ todo → ix.filtered path state ≠ none) ∧
  (path ∈ todo ∨ ix.Recorded path state (current path))

/-- The run is going to record the file as it is, or has done so. -/
def RunPhase.Tracks (path : String) (state : PathState Content) (saved : Snapshot Hash) :
    RunPhase Content Hash → Prop
  | .scanning _ todo current _ _ => ix.Pending path state todo current
  | .hashing _ file _ _ todo current _ _ => ix.Pending path state (file :: todo) current
  | .clearing files => path ∈ files ↔ ix.filtered path state ≠ none
  | .indexing (.full files) _ => path ∈ files ↔ ix.filtered path state ≠ none
  | .holding (.full files) _ _ _ => path ∈ files ↔ ix.filtered path state ≠ none
  | .indexing (.incremental _ next) _ => ix.Recorded path state (next path)
  | .holding (.incremental _ next) _ _ _ => ix.Recorded path state (next path)
  | .deleting _ next => ix.Recorded path state (next path)
  | .building todo next => ix.Pending path state todo next
  | .buildingHash file _ _ todo next => ix.Pending path state (file :: todo) next
  | _ => ix.Recorded path state (saved path)

/-- The files do not change, nothing fails in the run or ends it, and no other run than one of a
watcher starts. -/
def Steady (n : ℕ) : IndexEvent Content → Prop
  | .begin _ kind _ => kind = .watch
  | .step _ => True
  | .fail m => m ≠ n
  | .abort m => m ≠ n
  | .change _ _ => False

/-- The run is the only one that is to save a snapshot, and it records the files as they are. -/
structure Fresh (n : ℕ) (s : IndexState Content Hash Row) : Prop where
  others : ∀ m, m ≠ n → ¬ (s.phase m).Indexes
  tracks : ∀ path, (s.phase n).Tracks ix path (s.disk path) s.snapshot

namespace Fresh

variable {ix} {s t : IndexState Content Hash Row} {n : ℕ}

variable {m : ℕ}

theorem of_setPhase {old : RunPhase Content Hash} (h : Fresh ix n s) (hphase : s.phase m = old)
    (hindexes : new.Indexes → old.Indexes)
    (htracks : m = n → (∀ path, old.Tracks ix path (s.disk path) s.snapshot) →
      ∀ path, new.Tracks ix path (s.disk path) s.snapshot) : Fresh ix n (s.setPhase m new) := by
  constructor
  · intro k hne
    show ¬ (update s.phase m new k).Indexes
    by_cases heq : k = m
    · rw [heq, update_self]
      intro hnew
      refine h.others k hne ?_
      rw [heq, hphase]
      exact hindexes hnew
    · rw [update_of_ne heq]
      exact h.others k hne
  · intro path
    show (update s.phase m new n).Tracks ix path (s.disk path) s.snapshot
    by_cases heq : n = m
    · subst heq
      rw [update_self]
      exact htracks rfl (fun other => hphase ▸ h.tracks other) path
    · rw [update_of_ne heq]
      exact h.tracks path

theorem of_rows (h : Fresh ix n s) (rows : String → List Row) :
    Fresh ix n { s with rows := rows } where
  __ := h

theorem filtered_eq_some (hfiltered : ix.filtered path state ≠ none)
    (hfile : state.file = some file) : ix.filtered path state = some file := by
  obtain ⟨found, hfound⟩ := Option.ne_none_iff_exists'.mp hfiltered
  have hsame := ix.file_of_filtered hfound
  rw [hfile] at hsame
  rw [hfound, hsame]

theorem pending_update {current : Snapshot Hash} {entry : FileMeta Hash}
    (h : ix.Pending other state (path :: todo) current)
    (hagrees : other = path → state.file = some file ∧ ix.Agrees entry file) :
    ix.Pending other state todo (update current path (some entry)) := by
  refine ⟨fun hin => h.1 (mem_cons_of_mem path hin), ?_⟩
  by_cases heq : other = path
  · refine .inr ?_
    subst heq
    obtain ⟨hfile, hentry⟩ := hagrees rfl
    rw [update_self, Indexer.Recorded, filtered_eq_some (h.1 mem_cons_self) hfile]
    exact ⟨entry, rfl, hentry⟩
  · rw [update_of_ne heq]
    exact h.2.imp_left fun hin => Kept.mem_of_mem_cons hin heq

theorem pending_files (h : path ∈ files ↔ ix.filtered path state ≠ none) :
    ix.Pending path state files (fun _ => none) := by
  refine ⟨h.mp, ?_⟩
  by_cases hin : path ∈ files
  · exact .inl hin
  · refine .inr ?_
    have hnone : ix.filtered path state = none := by
      by_contra hne
      exact hin (h.mpr hne)
    rw [Indexer.Recorded, hnone]

theorem save (h : Fresh ix n s) {next : Snapshot Hash}
    (hphase : s.phase m = .deleting [] next ∨ s.phase m = .building [] next) :
    Fresh ix n ({ s with snapshot := next }.setPhase m .idle) := by
  obtain rfl : m = n := by
    by_contra hne
    refine h.others m hne ?_
    rcases hphase with hphase | hphase <;> rw [hphase] <;> trivial
  constructor
  · intro k hne
    show ¬ (update s.phase m .idle k : RunPhase Content Hash).Indexes
    rw [update_of_ne hne]
    exact h.others k hne
  · intro path
    show (update s.phase m .idle m : RunPhase Content Hash).Tracks ix path
      (s.disk path) next
    rw [update_self]
    have htracks := h.tracks path
    rcases hphase with hphase | hphase
    · rw [hphase] at htracks
      exact htracks
    · rw [hphase] at htracks
      exact htracks.2.resolve_left not_mem_nil

variable [DecidableEq Hash]

theorem step_step (h : Fresh ix n s) (hstep : IndexStep ix s (.step m) t) : Fresh ix n t := by
  cases hstep with
  | lookSame hphase hfile hentry hsame =>
    refine h.of_setPhase hphase (fun _ => trivial) fun _ htracks other => ?_
    exact pending_update (htracks other) fun heq => ⟨heq ▸ hfile, .inl hsame⟩
  | look hphase hfile hchanged | endIncremental hphase | buildLook hphase hfile =>
    exact h.of_setPhase hphase (fun _ => trivial) fun _ htracks => htracks
  | hash hphase hfile | buildHash hphase hfile =>
    refine h.of_setPhase hphase (fun _ => trivial) fun _ htracks other => ?_
    exact pending_update (htracks other) fun heq => ⟨heq ▸ hfile, .inr rfl⟩
  | delta hphase hremoved =>
    refine h.of_setPhase hphase (fun _ => trivial) fun _ htracks other => ?_
    exact (htracks other).2.resolve_left not_mem_nil
  | clear hphase | delete hphase =>
    exact (h.of_rows _).of_setPhase hphase (fun _ => trivial) fun _ htracks => htracks
  | @read _ mode path file todo hphase hfile =>
    cases mode with
    | watch => exact h.of_setPhase hphase id fun _ htracks => htracks
    | incremental removed next =>
      exact h.of_setPhase hphase (fun _ => trivial) fun _ htracks => htracks
    | full files => exact h.of_setPhase hphase (fun _ => trivial) fun _ htracks => htracks
  | @upsert _ mode path content todo hphase =>
    have hrows := h.of_rows
      (update s.rows path (ix.rowsAfter path content (s.rows path)))
    cases mode with
    | watch => exact hrows.of_setPhase hphase id fun _ htracks => htracks
    | incremental removed next =>
      exact hrows.of_setPhase hphase (fun _ => trivial) fun _ htracks => htracks
    | full files => exact hrows.of_setPhase hphase (fun _ => trivial) fun _ htracks => htracks
  | endWatch hphase => exact h.of_setPhase hphase id fun _ htracks => htracks
  | endFull hphase =>
    exact h.of_setPhase hphase (fun _ => trivial) fun _ htracks other =>
      pending_files (htracks other)
  | @save _ next hphase => exact h.save hphase

theorem start_run {kind : IndexKind} (hkind : kind ≠ .watch) (hquiet : ∀ m, ¬ (s.phase m).Indexes)
    (hcomplete : ∀ path, ix.filtered path (s.disk path) ≠ none → path ∈ files)
    (hstep : IndexStep ix s (.begin n kind files) t) : Fresh ix n t := by
  have hothers : ∀ new : RunPhase Content Hash, ∀ m, m ≠ n →
      ¬ (update s.phase n new m).Indexes := by
    intro new m hne
    rw [update_of_ne hne]
    exact hquiet m
  have htracks : ∀ new : RunPhase Content Hash, ∀ path,
      new.Tracks ix path (s.disk path) s.snapshot →
        (update s.phase n new n).Tracks ix path (s.disk path) s.snapshot := by
    intro new path hnew
    rw [update_self]
    exact hnew
  cases hstep with
  | beginIncremental hphase hfiles hsnapshot =>
    exact ⟨hothers _, fun path => htracks _ path
      (pending_files ⟨hfiles path, hcomplete path⟩)⟩
  | beginFirst hphase hfiles hsnapshot | beginFull hphase hfiles =>
    exact ⟨hothers _, fun path => htracks _ path ⟨hfiles path, hcomplete path⟩⟩
  | beginWatch hphase hfiles => exact absurd rfl hkind

theorem step (h : Fresh ix n s) {e : IndexEvent Content} (hstep : IndexStep ix s e t)
    (hsteady : Steady n e) : Fresh ix n t := by
  cases e with
  | «begin» m kind files =>
    obtain rfl : kind = .watch := hsteady
    cases hstep with
    | beginWatch hphase hfiles => exact h.of_setPhase hphase id fun _ htracks => htracks
  | step m => exact h.step_step hstep
  | fail m =>
    have hnot := h.others m hsteady
    cases hstep with
    | lookFail hphase | hashFail hphase | buildLookFail hphase | buildHashFail hphase =>
      rw [hphase] at hnot
      exact absurd trivial hnot
    | @readFail _ mode path todo hphase =>
      refine h.of_setPhase hphase ?_ fun heq => absurd heq hsteady
      cases mode <;> exact id
  | abort m =>
    cases hstep
    exact h.of_setPhase rfl False.elim fun heq => absurd heq hsteady
  | change path state => exact hsteady.elim

end Fresh

/-- **Incremental indexing is exact**, over every run that nothing disturbs: once the files do not
change any more, a run that goes through all of them without a failure leaves for every path the
rows that a full run writes. -/
theorem index_exact [DecidableEq Hash] {disk : String → PathState Content}
    {s u t : IndexState Content Hash Row} {es es' : List (IndexEvent Content)} {n : ℕ}
    {kind : IndexKind} {files : List String}
    (hrun : Run (fun s e t => IndexStep ix s e t ∧ Undisturbed ix s e) (.start disk) es s)
    (hkind : kind ≠ .watch)
    (hcomplete : ∀ path, ix.filtered path (s.disk path) ≠ none → path ∈ files)
    (hbegin : IndexStep ix s (.begin n kind files) u ∧ Undisturbed ix s (.begin n kind files))
    (hlast : Run (fun s e t => (IndexStep ix s e t ∧ Undisturbed ix s e) ∧ Steady n e) u es' t)
    (hdone : t.phase n = .idle) (path : String) :
    t.rows path = ix.expectedRows path (t.disk path) := by
  have hquiet : ∀ m, ¬ (s.phase m).Indexes := by
    cases kind with
    | watch => exact absurd rfl hkind
    | incremental => exact hbegin.2
    | full => exact hbegin.2
  have hkept : Kept ix Records u := by
    have hs : Kept ix Records s :=
      hrun.invariant (P := Kept ix Records)
        (fun _ _ _ hs hstep => hs.step (fun _ => id) hstep.1 hstep.2 (.inl fun _ => id))
        (Kept.start disk)
    exact hs.step (fun _ => id) hbegin.1 hbegin.2 (.inl fun _ => id)
  have hindexes : (u.phase n).Indexes := by
    have hself {new : RunPhase Content Hash} (hnew : new.Indexes) :
        (update s.phase n new n).Indexes := by
      rw [update_self]
      exact hnew
    cases hbegin.1 with
    | beginIncremental _ _ _ | beginFirst _ _ _ | beginFull _ _ => exact hself trivial
    | beginWatch _ _ => exact absurd rfl hkind
  have hend : Kept ix (fun _ => True) t ∧ Fresh ix n t := by
    refine hlast.invariant (P := fun s => Kept ix (fun _ => True) s ∧ Fresh ix n s)
      (fun s e t hs hstep => ?_)
      ⟨hkept.of_indexes hindexes _, Fresh.start_run hkind hquiet hcomplete hbegin.1⟩
    refine ⟨hs.1.step (fun _ _ => trivial) hstep.1.1 hstep.1.2 (.inr ⟨?_, ?_⟩),
      hs.2.step hstep.1.1 hstep.2⟩
    · rintro m rfl
      exact hs.2.others m hstep.2
    · rintro other state rfl
      exact hstep.2
  obtain ⟨hkept, hfresh⟩ := hend
  refine rows_eq_expected ix ((hkept.fits path).2 (fun m => ?_) trivial) ?_
  · by_cases heq : m = n
    · rw [heq, hdone]
      exact not_false
    · exact hfresh.others m heq
  · have htracks := hfresh.tracks path
    rw [hdone] at htracks
    exact htracks

/-! ## Runs -/

/-- The hash of a content is the content, and it is one chunk unless it is empty. -/
def someIndexer : Indexer (List ℕ) (List ℕ) (List ℕ) where
  contentHash := id
  accepts _ _ := true
  chunk _ content := if content = [] then [] else [content]

def someDisk (content : List ℕ) (modifiedTime : ℕ) : String → PathState (List ℕ) :=
  update (fun _ => ⟨none, false⟩) "a"
    ⟨some ⟨content, modifiedTime, content.length⟩, true⟩

theorem nothing_removed {old new : FileMeta Hash} (path : String) :
    path ∈ [] ↔ update (fun _ => none) "a" (some old) path ≠ none ∧
      update (fun _ => none) "a" (some new) path = none := by
  refine iff_of_false not_mem_nil fun ⟨hold, hnew⟩ => ?_
  by_cases heq : path = "a"
  · rw [heq, update_self] at hnew
    cases hnew
  · rw [update_of_ne heq] at hold
    exact hold rfl

/-- The file is indexed and changes; a run that writes its new rows ends early; it changes once more,
and a watcher writes its rows; and it changes again. -/
def editedAndAborted : List (IndexEvent (List ℕ)) :=
  [.begin 0 .incremental ["a"], .step 0, .step 0, .step 0, .step 0, .step 0, .step 0, .step 0,
    .change "a" ⟨some ⟨[2], 1, 1⟩, true⟩, .begin 1 .incremental ["a"], .step 1, .step 1, .step 1,
    .step 1, .step 1, .abort 1, .change "a" ⟨some ⟨[3], 2, 1⟩, true⟩, .begin 2 .watch ["a"],
    .step 2, .step 2, .step 2, .change "a" ⟨some ⟨[4], 3, 1⟩, true⟩]

theorem index_exact_editedAndAborted : ∃ s u t,
    Run (fun s e t => IndexStep someIndexer s e t ∧ Undisturbed someIndexer s e)
      (.start (someDisk [1] 0)) editedAndAborted s ∧
    IndexStep someIndexer s (.begin 3 .incremental ["a"]) u ∧
    Run (fun s e t => (IndexStep someIndexer s e t ∧ Undisturbed someIndexer s e) ∧ Steady 3 e) u
      [.step 3, .step 3, .step 3, .step 3, .step 3, .step 3, .step 3] t ∧
    s.rows "a" = [[3]] ∧ t.rows "a" = someIndexer.expectedRows "a" (t.disk "a") ∧
    t.rows "a" = [[4]] := by
  have hruns {P : ℕ → Prop} (h₀ : P 0) (h₁ : P 1) (h₂ : P 2) (h : ∀ n, P (n + 3)) : ∀ n, P n
    | 0 => h₀
    | 1 => h₁
    | 2 => h₂
    | n + 3 => h n
  have hdue {state : PathState (List ℕ)} {entry : FileMeta (List ℕ)}
      (htime : ∀ file, state.file = some file → entry.modifiedTime ≠ file.modifiedTime)
      (hhash : ∀ file, state.file = some file → entry.contentHash ≠ file.content) :
      someIndexer.Due "a" state (some entry) := by
    rintro file hfiltered (⟨hsame, -⟩ | hsame)
    · exact htime file (someIndexer.file_of_filtered hfiltered) hsame
    · exact hhash file (someIndexer.file_of_filtered hfiltered) hsame
  have hbefore : ∃ s u t,
      Run (fun s e t => IndexStep someIndexer s e t ∧ Undisturbed someIndexer s e)
        (.start (someDisk [1] 0)) editedAndAborted s ∧
      IndexStep someIndexer s (.begin 3 .incremental ["a"]) u ∧
      Run (fun s e t => (IndexStep someIndexer s e t ∧ Undisturbed someIndexer s e) ∧ Steady 3 e) u
        [.step 3, .step 3, .step 3, .step 3, .step 3, .step 3, .step 3] t ∧
      Undisturbed someIndexer s (.begin 3 .incremental ["a"]) ∧
      (∀ path, path ≠ "a" → s.disk path = ⟨none, false⟩) ∧ t.phase 3 = .idle ∧
      s.rows "a" = [[3]] ∧ t.rows "a" = [[4]] := by
    refine ⟨_, _, _, .cons ⟨.beginFirst rfl (forall_mem_singleton.mpr (Option.some_ne_none _))
        fun _ => rfl, ?_⟩ <|
      .cons ⟨.clear rfl, trivial⟩ <| .cons ⟨.read rfl rfl, trivial⟩ <|
      .cons ⟨.upsert rfl, ?_⟩ <| .cons ⟨.endFull rfl, trivial⟩ <|
      .cons ⟨.buildLook rfl rfl, trivial⟩ <| .cons ⟨.buildHash rfl rfl, trivial⟩ <|
      .cons ⟨.save (.inr rfl), trivial⟩ <| .cons ⟨.change, ?_⟩ <|
      .cons ⟨.beginIncremental rfl (forall_mem_singleton.mpr (Option.some_ne_none _))
        ⟨"a", Option.some_ne_none _⟩, ?_⟩ <|
      .cons ⟨.look rfl rfl ?_, trivial⟩ <| .cons ⟨.hash rfl rfl, trivial⟩ <|
      .cons ⟨.delta rfl nothing_removed, trivial⟩ <| .cons ⟨.read rfl rfl, trivial⟩ <|
      .cons ⟨.upsert rfl, ?_⟩ <| .cons ⟨.abort, ?_⟩ <| .cons ⟨.change, ?_⟩ <|
      .cons ⟨.beginWatch rfl (forall_mem_singleton.mpr (Option.some_ne_none _)), trivial⟩ <|
      .cons ⟨.read rfl rfl, trivial⟩ <| .cons ⟨.upsert rfl, ?_⟩ <|
      .cons ⟨.endWatch rfl, trivial⟩ <| .cons ⟨.change, ?_⟩ <| .nil _,
      .beginIncremental rfl (forall_mem_singleton.mpr (Option.some_ne_none _))
        ⟨"a", Option.some_ne_none _⟩,
      .cons ⟨⟨.look rfl rfl ?_, trivial⟩, trivial⟩ <|
      .cons ⟨⟨.hash rfl rfl, trivial⟩, trivial⟩ <|
      .cons ⟨⟨.delta rfl nothing_removed, trivial⟩, trivial⟩ <|
      .cons ⟨⟨.read rfl rfl, trivial⟩, trivial⟩ <| .cons ⟨⟨.upsert rfl, ?_⟩, trivial⟩ <|
      .cons ⟨⟨.endIncremental rfl, trivial⟩, trivial⟩ <|
      .cons ⟨⟨.save (.inl rfl), trivial⟩, trivial⟩ <| .nil _, ?_, ?_, rfl, rfl, rfl⟩
    · exact fun _ => id
    · exact ⟨rfl, nofun⟩
    · exact ⟨hruns trivial trivial trivial fun _ => trivial, fun _ _ => .inl (hdue nofun nofun)⟩
    · exact hruns id id id fun _ => id
    · rintro _ ⟨⟩ ⟨htime, -⟩
      cases htime
    · exact .inr ⟨⟨_, rfl, rfl⟩, nofun⟩
    · rintro path (hin | hne)
      · cases hin
      · by_cases heq : path = "a"
        · subst heq
          exact hdue nofun nofun
        · exact absurd ((update_of_ne heq ..).trans (update_of_ne heq ..).symm) hne
    · exact ⟨hruns trivial trivial trivial fun _ => trivial, fun _ _ => .inl (hdue nofun nofun)⟩
    · exact ⟨_, rfl, rfl⟩
    · exact ⟨hruns trivial trivial trivial fun _ => trivial, fun _ _ => .inl (hdue nofun nofun)⟩
    · rintro _ ⟨⟩ ⟨htime, -⟩
      cases htime
    · exact .inr ⟨⟨_, rfl, rfl⟩, nofun⟩
    · exact hruns id id id fun _ => id
    · intro path hne
      change update (update (update (someDisk [1] 0) "a" _) "a" _) "a" _ path = _
      rw [update_of_ne hne, update_of_ne hne, update_of_ne hne, someDisk, update_of_ne hne]
  obtain ⟨s, u, t, hbefore, hbegin, hlast, hschedule, hdisk, hdone, hrows, hlastRows⟩ := hbefore
  have hcomplete : ∀ path, someIndexer.filtered path (s.disk path) ≠ none → path ∈ ["a"] := by
    intro path hfiltered
    by_contra hne
    rw [hdisk path fun heq => hne (heq ▸ List.mem_singleton_self _)] at hfiltered
    exact hfiltered rfl
  have hkind : IndexKind.incremental ≠ .watch := nofun
  have hexact := index_exact someIndexer hbefore hkind hcomplete ⟨hbegin, hschedule⟩ hlast hdone "a"
  exact ⟨s, u, t, hbefore, hbegin, hlast, hrows, hexact, hlastRows⟩

/-- A file is emptied, or it cannot be read when it is to be indexed: a later run that nothing
fails in leaves the rows as they are. -/
theorem rows_are_stale :
    (∃ s, Run (IndexStep someIndexer) (.start (someDisk [1] 0))
      [.begin 0 .incremental ["a"], .step 0, .step 0, .step 0, .step 0, .step 0, .step 0, .step 0,
        .change "a" ⟨some ⟨[], 1, 0⟩, true⟩, .begin 1 .incremental ["a"], .step 1, .step 1, .step 1,
        .step 1, .step 1, .step 1, .step 1] s ∧
      s.phase 1 = .idle ∧ s.rows "a" = [[1]] ∧
      someIndexer.expectedRows "a" (s.disk "a") = []) ∧
    ∃ s, Run (IndexStep someIndexer) (.start (someDisk [1] 0))
      [.begin 0 .incremental ["a"], .step 0, .fail 0, .step 0, .step 0, .step 0, .step 0,
        .begin 1 .incremental ["a"], .step 1, .step 1, .step 1, .step 1] s ∧
      s.phase 1 = .idle ∧ s.rows "a" = [] ∧
      someIndexer.expectedRows "a" (s.disk "a") = [[1]] := by
  constructor
  · refine ⟨_, .cons (.beginFirst rfl (List.forall_mem_singleton.mpr (Option.some_ne_none _))
        fun _ => rfl) <| .cons (.clear rfl) <| .cons (.read rfl rfl) <| .cons (.upsert rfl) <|
      .cons (.endFull rfl) <|
      .cons (.buildLook rfl rfl) <| .cons (.buildHash rfl rfl) <| .cons (.save (.inr rfl)) <|
      .cons .change <|
      .cons (.beginIncremental rfl (List.forall_mem_singleton.mpr (Option.some_ne_none _))
        ⟨"a", Option.some_ne_none _⟩) <|
      .cons (.look rfl rfl ?_) <| .cons (.hash rfl rfl) <| .cons (.delta rfl nothing_removed) <|
      .cons (.read rfl rfl) <| .cons (.upsert rfl) <| .cons (.endIncremental rfl) <|
      .cons (.save (.inl rfl)) <| .nil _, rfl, rfl, rfl⟩
    rintro _ ⟨⟩ ⟨htime, -⟩
    cases htime
  · refine ⟨_, .cons (.beginFirst rfl (List.forall_mem_singleton.mpr (Option.some_ne_none _))
        fun _ => rfl) <| .cons (.clear rfl) <| .cons (.readFail rfl) <| .cons (.endFull rfl) <|
      .cons (.buildLook rfl rfl) <| .cons (.buildHash rfl rfl) <| .cons (.save (.inr rfl)) <|
      .cons (.beginIncremental rfl (List.forall_mem_singleton.mpr (Option.some_ne_none _))
        ⟨"a", Option.some_ne_none _⟩) <|
      .cons (.lookSame rfl rfl rfl ⟨rfl, rfl⟩) <| .cons (.delta rfl nothing_removed) <|
      .cons (.endIncremental rfl) <| .cons (.save (.inl rfl)) <| .nil _, rfl, rfl, rfl⟩

end Chelix.CodeIndex
