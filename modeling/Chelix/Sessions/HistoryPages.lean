import Chelix.Sessions.UiHistorySections

/-!
# Pages and updates of a semantic history

What a reader gets is put together from the stored entries and those in memory.  The stored ones
are written by flushes, and a truncation deletes some and starts a new generation.
-/

namespace Chelix.Sessions

open Chelix.Library Chelix.Common CriticalSection UiState

/-! ## Ranges -/

inductive UiHistoryRange where
  | latest
  | before (position : ℕ)
  | after (position : ℕ)
  | window (start : ℕ) (stop : Option ℕ)
  | around (messageId : UiMessageId)
  deriving DecidableEq

/-- The positions of a page lie between the bounds, or near one position. -/
structure PageBounds where
  lower : Option ℕ
  upper : Option ℕ
  newest : Bool
  around : Option ℕ

/-- `checked_sub(1)`. -/
def previousPosition : ℕ → Option ℕ
  | 0 => none
  | position + 1 => some position

theorem all_previousPosition (target position : ℕ) :
    (previousPosition target).all (fun lower => lower < position) = decide (target ≤ position) := by
  cases target with
  | zero => exact (decide_eq_true (Nat.zero_le position)).symm
  | succ target => rfl

/-- The bound of a query as a column. -/
def limitColumn (limit : ℕ) : Except Error Unit :=
  if limit < 2 ^ 63 then .ok ()
  else .error (.message "out of range integral type conversion attempted")

def PageBounds.columns (bounds : PageBounds) : Except Error Unit := do
  bounds.lower.forM integer
  bounds.upper.forM integer

/-- The bounds of a range, given the position of its target. -/
def UiHistoryRange.bounds (target : Option ℕ) : UiHistoryRange → Except Error PageBounds
  | .latest => .ok ⟨none, none, true, none⟩
  | .before position => .ok ⟨none, some position, true, none⟩
  | .after position => .ok ⟨some position, none, false, none⟩
  | .window start stop =>
    if stop.any fun stop => stop ≤ start then .error (.message "invalid UI history window")
    else .ok ⟨previousPosition start, stop, stop.isNone, none⟩
  | .around _ =>
    match target with
    | some position => .ok ⟨none, none, true, some position⟩
    | none => .error (.message "UI history target is missing")

/-! ## Assembly -/

structure UiHistoryPage where
  generation : UiGeneration
  revision : ℕ
  totalMessages : ℕ
  history : List UiSnapshot
  hasOlder : Bool
  hasNewer : Bool
  firstPosition : Option ℕ
  lastPosition : Option ℕ

abbrev EntryMap := OrderedMap UiMessageId UiEntry

/-- The rows between two positions. -/
def storedEntries (stored : EntryMap) (lower upper : Option ℕ) (newestFirst : Bool) (limit : ℕ) :
    List UiEntry :=
  let rows := sortByKey (fun entry : UiEntry => entry.snapshot.position)
    ((stored.toList.map Prod.snd).filter fun entry =>
      lower.all (fun lower => lower < entry.snapshot.position) &&
        upper.all (fun upper => entry.snapshot.position < upper))
  (if newestFirst then rows.reverse else rows).take limit

/-- The rows that a page reads. -/
def storedPage (stored : EntryMap) (bounds : PageBounds) (limit : ℕ) : List UiEntry :=
  match bounds.around with
  | some position =>
    storedEntries stored none (some position) true limit ++
      storedEntries stored (previousPosition position) none false limit
  | none => storedEntries stored bounds.lower bounds.upper bounds.newest limit

/-- The rows with a later revision. -/
def storedSince (stored : EntryMap) (revision limit : ℕ) : List UiEntry :=
  (sortByKey (fun entry : UiEntry => entry.snapshot.position)
    ((stored.toList.map Prod.snd).filter fun entry => revision < entry.snapshot.revision)).take limit

/-- The rows, and over them the entries in memory. -/
def mergeEntries (rows : List UiEntry) (held : List UiEntry) : List UiSnapshot :=
  (((rows ++ held).foldl (fun merged entry => merged.insert entry.snapshot.id entry.snapshot)
    (∅ : OrderedMap UiMessageId UiSnapshot)).toList).map Prod.snd

/-- The snapshots of a page that are shown, by position. -/
def shownSnapshots (bounds : PageBounds) (limit : ℕ) (snapshots : List UiSnapshot) :
    List UiSnapshot :=
  let inside := snapshots.filter fun snapshot =>
    bounds.lower.all (fun lower => lower < snapshot.position) &&
      bounds.upper.all (fun upper => snapshot.position < upper)
  let ordered := sortByKey (fun snapshot : UiSnapshot => snapshot.position) inside
  let history :=
    match bounds.around with
    | some position =>
      (sortByKey (fun snapshot : UiSnapshot =>
        toLex (max snapshot.position position - min snapshot.position position,
          snapshot.position)) inside).take limit
    | none => (if bounds.newest then ordered.reverse else ordered).take limit
  sortByKey (fun snapshot : UiSnapshot => snapshot.position) history

def assemblePage (s : UiState) (bounds : PageBounds) (limit : ℕ) (rows : List UiEntry) :
    UiHistoryPage :=
  let history := shownSnapshots bounds limit (mergeEntries rows (s.entries.toList.map Prod.snd))
  let firstPosition := history.head?.map UiSnapshot.position
  let lastPosition := history.getLast?.map UiSnapshot.position
  { generation := s.generation
    revision := s.revision
    totalMessages := s.totalMessages
    history
    hasOlder := firstPosition.any fun position => 0 < position
    hasNewer := lastPosition.any fun position => position + 1 < s.nextPosition
    firstPosition
    lastPosition }

/-- The snapshots after a revision, unless there are too many. -/
def assembleUpdates (s : UiState) (revision limit : ℕ) (rows : List UiEntry) :
    Option UiHistoryBatch :=
  let held := (s.entries.toList.map Prod.snd).filter fun entry => revision < entry.snapshot.revision
  let history := mergeEntries rows held
  if limit < history.length then none
  else some {
    generation := s.generation
    fromRevision := revision
    revision := s.revision
    totalMessages := s.totalMessages
    history := sortByKey (fun snapshot : UiSnapshot => snapshot.position) history }

/-! ## Changes of a session -/

structure UiHistoryRevision where
  generation : UiGeneration
  revision : ℕ
  totalMessages : ℕ
  failure : Option String
  deriving DecidableEq

def UiState.current (s : UiState) : UiHistoryRevision where
  generation := s.generation
  revision := s.revision
  totalMessages := s.totalMessages
  failure := s.failure

/-- Who holds the lock of the flush progress. -/
inductive Upkeep where
  | idle
  | flushing (generation : UiGeneration) (revision : ℕ) (entries : EntryMap)
  /-- The entries are stored. -/
  | flushed (generation : UiGeneration) (revision : ℕ)
  | truncating (canonicalTail revision : ℕ)
  /-- The rows are deleted. -/
  | truncated (canonicalTail revision : ℕ)

structure HistorySession where
  state : UiState
  stored : EntryMap
  /-- The value of the watch channel, and how often it was sent. -/
  published : UiHistoryRevision
  version : ℕ
  /-- The revision that the last flush or truncation has stored. -/
  progress : ℕ
  upkeep : Upkeep
  /-- The generations so far. -/
  generations : List UiGeneration

def HistorySession.opened (row : UiSessionRow) (canonicalTail : ℕ) (stored : EntryMap) :
    HistorySession where
  state := .opened row canonicalTail
  stored
  published := (UiState.opened row canonicalTail).current
  version := 0
  progress := row.revision
  upkeep := .idle
  generations := [row.generation]

def HistorySession.publish (s : HistorySession) : HistorySession :=
  { s with published := s.state.current, version := s.version + 1 }

/-- The sections that publish what they have changed. -/
inductive Publishes : {α : Type} → Section α → Prop
  | ingest (parseUuid : String → Except String String) (record : UiRecord) (ingress : UiIngress)
      (expected : Option UiGeneration) (uuid : String) :
      Publishes (UiState.ingest parseUuid record ingress expected uuid)
  | stageBatch (generation : UiGeneration) (loaded : EntryMap)
      (identified : List (UiMessageId × UiRecord)) :
      Publishes (UiState.stageBatch generation loaded identified)
  | bind (receipt : UiAppendReceipt) (index : ℕ) : Publishes (UiState.bind receipt index)
  | updatePresentation (target : UiHistoryTarget) (presentation : UiPresentation)
      (stored : Option UiEntry) :
      Publishes (UiState.updatePresentation target presentation stored)
  | mutatePresentation (generation : UiGeneration) (runId : String) (id : UiMessageId)
      (update : UiPresentation → UiPresentation) :
      Publishes (UiState.mutatePresentation generation runId id update)
  | updateRecord (parseUuid : String → Except String String) (expected current : UiRecordUpdate)
      (record : UiRecord) : Publishes (UiState.updateRecord parseUuid expected current record)

/-- The entries that stay in memory when those up to a revision are stored. -/
def UiState.retain (s : UiState) (revision : ℕ) : EntryMap :=
  s.entries.filter fun id entry =>
    s.pendingAppends.contains id || revision < entry.snapshot.revision || active entry ||
      entry.snapshot.content.runId.any fun runId => s.runs.contains runId

/-- The rows that a truncation leaves. -/
def truncateStored (stored : EntryMap) (canonicalTail : ℕ) : EntryMap :=
  if canonicalTail = 0 then ∅
  else
    let cutoff := (((stored.toList.map Prod.snd).filter fun entry =>
      entry.canonical.any fun binding => canonicalTail ≤ binding.start).map
        fun entry => entry.snapshot.position).min?
    stored.filter fun _ entry =>
      !((entry.canonical.any fun binding => canonicalTail < binding.stop) ||
        cutoff.any fun cutoff => cutoff ≤ entry.snapshot.position)

/-- The state after a truncation: nothing is in memory. -/
def UiState.truncated (stored : EntryMap) (generation : UiGeneration)
    (canonicalTail revision : ℕ) : UiState where
  generation
  revision
  committedRevision := revision
  nextPosition :=
    (((stored.toList.map Prod.snd).map fun entry => entry.snapshot.position + 1).max?).getD 0
  totalMessages := stored.size
  canonicalTail
  entries := ∅
  pendingAppends := ∅
  runs := ∅
  toolOwners := ∅
  failure := none

/-- The changes of a session that do not set its failure. -/
inductive SessionStep (s : HistorySession) : HistorySession → Prop
  | change {α : Type} {x : Section α} {a : α} {state : UiState} (hpublishes : Publishes x)
      (hok : x s.state = .ok a state) : SessionStep s { s with state }.publish
  | beginFlush (hupkeep : s.upkeep = .idle) (hrevision : s.state.revision ≠ s.progress) :
      SessionStep s
        { s with
          upkeep := .flushing s.state.generation s.state.revision
            (s.state.entries.filter fun _ entry => s.progress < entry.snapshot.revision) }
  | storeFlush {generation : UiGeneration} {revision : ℕ} {entries : EntryMap}
      (hupkeep : s.upkeep = .flushing generation revision entries) :
      SessionStep s
        { s with
          stored := s.stored ∪ entries
          upkeep := .flushed generation revision }
  | endFlush {generation : UiGeneration} {revision : ℕ}
      (hupkeep : s.upkeep = .flushed generation revision)
      (hgeneration : s.state.generation = generation) :
      SessionStep s
        { s with
          state.committedRevision := revision
          state.entries := s.state.retain revision
          progress := revision
          upkeep := .idle }
  | beginTruncation {canonicalTail : ℕ} (hupkeep : s.upkeep = .idle) :
      SessionStep s
        { s with upkeep := .truncating canonicalTail (s.state.revision + 1) }
  | storeTruncation {canonicalTail revision : ℕ}
      (hupkeep : s.upkeep = .truncating canonicalTail revision) :
      SessionStep s
        { s with
          stored := truncateStored s.stored canonicalTail
          upkeep := .truncated canonicalTail revision }
  /-- The generation is a new one. -/
  | endTruncation {canonicalTail revision : ℕ} {generation : UiGeneration}
      (hupkeep : s.upkeep = .truncated canonicalTail revision)
      (hnew : generation ∉ s.generations) :
      SessionStep s
        { s with
          state := .truncated s.stored generation canonicalTail revision
          progress := revision
          upkeep := .idle
          generations := generation :: s.generations }.publish

/-! ## What a change does to the revision -/

namespace UiState

/-- The generation stays, and the revision does not go back. -/
structure Grows (s t : UiState) : Prop where
  generation : t.generation = s.generation
  revision : s.revision ≤ t.revision
  failure : t.failure = s.failure

theorem Grows.refl (s : UiState) : s.Grows s := ⟨rfl, le_rfl, rfl⟩

theorem Grows.trans {s t u : UiState} (h : s.Grows t) (h' : t.Grows u) : s.Grows u :=
  ⟨h'.generation.trans h.generation, h.revision.trans h'.revision, h'.failure.trans h.failure⟩

variable {s t : UiState}

theorem grows_project {id : UiMessageId} {record : UiRecord} {ingress : UiIngress} {u : Unit}
    (h : project id record ingress s = .ok u t) : s.Grows t := by
  rcases project_ok_iff.mp h with ⟨-, rfl⟩ | ⟨entry, -, -, rfl⟩
  · exact .refl s
  · exact ⟨rfl, Nat.le_succ _, rfl⟩

theorem grows_stageRecords {generation : UiGeneration} {identified : List (UiMessageId × UiRecord)}
    {receipts : List UiAppendReceipt} (h : stageRecords generation identified s = .ok receipts t) :
    s.Grows t := by
  induction identified generalizing s receipts with
  | nil =>
    obtain ⟨-, rfl⟩ := pure_ok_iff.mp h
    exact .refl s
  | cons record identified ih =>
    obtain ⟨receipt, s₁, rest, hreceipt, hrest, -⟩ := stageRecords_cons_ok_iff.mp h
    obtain ⟨-, hproject, -⟩ := stageRecord_ok_iff.mp hreceipt
    exact (grows_project hproject).trans (ih hrest)

theorem grows_commit {entries : EntryMap} {prepared : UiState}
    (h : (s.prepare entries).Grows prepared) : s.Grows (s.commit prepared) :=
  ⟨rfl, h.revision, rfl⟩

end UiState

theorem Publishes.grows {α : Type} {x : Section α} (hpublishes : Publishes x) {a : α}
    {s t : UiState} (h : x s = .ok a t) : s.Grows t := by
  cases hpublishes with
  | ingest parseUuid record ingress expected uuid =>
    obtain ⟨-, own, prepared, -, -, hproject, rfl⟩ := ingest_ok_iff.mp h
    exact grows_commit (grows_project hproject)
  | stageBatch generation loaded identified =>
    obtain ⟨-, -, prepared, hstage, rfl⟩ := stageBatch_ok_iff.mp h
    have hcommit := grows_commit (grows_stageRecords hstage)
    exact ⟨hcommit.generation, hcommit.revision, hcommit.failure⟩
  | bind receipt index =>
    obtain ⟨-, -, -, -, -, entry, -, rfl⟩ := bindReceipt_ok_iff.mp h
    exact ⟨rfl, Nat.le_succ _, rfl⟩
  | updatePresentation target presentation stored =>
    obtain ⟨-, -, -, entry, -, rfl⟩ := updatePresentation_ok_iff.mp h
    exact ⟨rfl, Nat.le_succ _, rfl⟩
  | mutatePresentation generation runId id update =>
    obtain ⟨-, -, -, -, entry, -, -, rfl⟩ := mutatePresentation_ok_iff.mp h
    exact ⟨rfl, Nat.le_succ _, rfl⟩
  | updateRecord parseUuid expected current record =>
    obtain ⟨-, -, -, entry, -, rfl⟩ := updateRecord_ok_iff.mp h
    exact ⟨rfl, Nat.le_succ _, rfl⟩

/-- What a step does to the generation, the revision and what is published. -/
inductive Effect (s t : HistorySession) : Prop
  | quiet (hcurrent : t.state.current = s.state.current) (hpublished : t.published = s.published)
      (hversion : t.version = s.version) (hgenerations : t.generations = s.generations)
  | grown (hgrows : s.state.Grows t.state) (hpublished : t.published = t.state.current)
      (hversion : t.version = s.version + 1) (hgenerations : t.generations = s.generations)
  | renewed (hnew : t.state.generation ∉ s.generations) (hfailure : t.state.failure = none)
      (hpublished : t.published = t.state.current) (hversion : t.version = s.version + 1)
      (hgenerations : t.generations = t.state.generation :: s.generations)

theorem SessionStep.effect {s t : HistorySession} (h : SessionStep s t) : Effect s t := by
  cases h with
  | change hpublishes hok => exact .grown (hpublishes.grows hok) rfl rfl rfl
  | beginFlush | storeFlush | endFlush | beginTruncation | storeTruncation =>
    exact .quiet rfl rfl rfl rfl
  | endTruncation hupkeep hnew => exact .renewed hnew rfl rfl rfl rfl

end Chelix.Sessions
