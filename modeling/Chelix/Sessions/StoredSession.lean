import Chelix.Sessions.HistoryPages

/-!
# A session and its rows

The entries of a session are in its table, in memory, or in both.  Flushes and truncations write
the table under one lock, and take over what they wrote when they hold the mutex of the state
again; a call that is dropped in between leaves what it wrote.
-/

namespace Chelix.Sessions

open Chelix.Library Chelix.Common

/-! ## The state and the rows -/

/-- Who holds the lock of the flush progress. -/
inductive RowWriter where
  | idle
  /-- A flush has taken what it writes from the state. -/
  | flushing (captured : UiSessionRow) (entries : EntryMap)
  | flushed (generation : UiGeneration) (revision : ℕ)
  | truncating (canonicalTail : ℕ) (previous : UiGeneration) (revision : ℕ)
  | truncated (canonicalTail : ℕ)

structure StoredSession where
  state : UiState
  /-- The row of the session, and those of its snapshots. -/
  row : UiSessionRow
  stored : EntryMap
  /-- The revision of the last flush or truncation that was taken over. -/
  progress : ℕ
  writer : RowWriter
  /-- The entries that calls have read, with the generation they are of. -/
  known : List (UiGeneration × UiEntry)
  /-- The generations so far. -/
  generations : List UiGeneration

namespace StoredSession

def new (generation : UiGeneration) : StoredSession where
  state := .opened ⟨generation, 0, 0, 0, none⟩ 0
  row := ⟨generation, 0, 0, 0, none⟩
  stored := ∅
  progress := 0
  writer := .idle
  known := []
  generations := [generation]

/-- The entries of the table, and over them those in memory. -/
def history (s : StoredSession) : EntryMap := s.stored ∪ s.state.entries

/-- No truncation has deleted rows whose entries are still those of the state. -/
def Settled (s : StoredSession) : Prop := s.row.generation = s.state.generation

/-- The row that a flush writes. -/
def captured (s : StoredSession) : UiSessionRow where
  generation := s.state.generation
  revision := s.state.revision
  nextPosition := s.state.nextPosition
  totalMessages := s.state.totalMessages
  failure := s.state.failure

end StoredSession

/-! ## Calls -/

/-- The calls that add a message unless they find it. -/
inductive SessionCall where
  | ingest (record : UiRecord) (ingress : UiIngress) (expected : Option UiGeneration)
      (uuid : String)
  | stage (generation : UiGeneration) (loaded : EntryMap)
      (identified : List (UiMessageId × UiRecord))
  | recordError (error : UiProviderError) (expected : Option UiGeneration) (uuid : String)
  | other

section Steps

variable (parseUuid : String → Except String String)

/-- A call finds the messages that it names: an entry of a live copy is in memory, one of a batch
is in memory or was loaded.  An error is a new message, for which there is room. -/
def Finds (s : StoredSession) : SessionCall → Prop
  | .ingest record _ _ uuid => ∀ own, identity parseUuid record = .ok own →
      s.stored.contains (own.getD uuid) = true → s.state.entries.contains (own.getD uuid) = true
  | .stage _ loaded identified => ∀ id ∈ identified.map Prod.fst,
      s.stored.contains id = true → s.state.entries.contains id = true ∨ loaded.contains id = true
  | .recordError _ _ uuid =>
    s.stored.contains uuid = false ∧ s.state.entries.contains uuid = false ∧
      s.state.nextPosition + 1 < 2 ^ 63 ∧ s.state.totalMessages + 1 < 2 ^ 32 ∧
      s.state.revision + 1 < 2 ^ 63
  | .other => True

/-- The critical sections of a session.  What a call hands to its section besides its arguments
was read before. -/
inductive Enters (s : StoredSession) : SessionCall → {α : Type} → Section α → Prop
  | ingest (record : UiRecord) (ingress : UiIngress) (expected : Option UiGeneration)
      (uuid : String) :
      Enters s (.ingest record ingress expected uuid)
        (UiState.ingest parseUuid record ingress expected uuid)
  | stage (generation : UiGeneration) (loaded : EntryMap)
      (identified : List (UiMessageId × UiRecord))
      (hloaded : ∀ (id : UiMessageId) (entry : UiEntry), loaded[id]? = some entry →
        id ∈ identified.map Prod.fst ∧ entry.snapshot.id = id ∧ (generation, entry) ∈ s.known) :
      Enters s (.stage generation loaded identified)
        (UiState.stageBatch generation loaded identified)
  | recordError (error : UiProviderError) (expected : Option UiGeneration) (uuid : String) :
      Enters s (.recordError error expected uuid) (UiState.insertError error expected uuid)
  | bind (receipt : UiAppendReceipt) (index : ℕ) : Enters s .other (UiState.bind receipt index)
  | updatePresentation (target : UiHistoryTarget) (presentation : UiPresentation)
      (stored : Option UiEntry)
      (hstored : ∀ entry ∈ stored,
        entry.snapshot.id = target.messageId ∧ (target.generation, entry) ∈ s.known) :
      Enters s .other (UiState.updatePresentation target presentation stored)
  | mutatePresentation (generation : UiGeneration) (runId : String) (id : UiMessageId)
      (update : UiPresentation → UiPresentation) :
      Enters s .other (UiState.mutatePresentation generation runId id update)
  /-- The entry is read again after the expected one: in its generation, if that is still the
  one of the session. -/
  | updateRecord (expected current : UiRecordUpdate) (record : UiRecord)
      (hcurrent : s.state.generation = expected.generation →
        (expected.generation, current.entry) ∈ s.known) :
      Enters s .other (UiState.updateRecord parseUuid expected current record)
  | beginRun (metadata : UiRunMetadata) : Enters s .other (UiState.beginRun metadata)
  | startAttempt (generation : UiGeneration) (runId : String)
      (segmentId : Option ProviderSegmentId) :
      Enters s .other (UiState.startAttempt generation runId segmentId)
  | finishRegistered (generation : UiGeneration) (runId : String) :
      Enters s .other (UiState.finishRegistered generation runId)
  | fail (error : String) : Enters s .other (UiState.fail error)

/-! ## Steps -/

/-- The rows of entries of another history. -/
def copiedRows (entries : List UiEntry) : EntryMap :=
  entries.foldl (fun stored entry => stored.insert entry.snapshot.id entry) ∅

def nextPositionOf (stored : EntryMap) : ℕ :=
  (((stored.toList.map Prod.snd).map fun entry => entry.snapshot.position + 1).max?).getD 0

/-- The steps of a session. -/
inductive StoredStep (s : StoredSession) : SessionCall → StoredSession → Prop
  | accept {call : SessionCall} {α : Type} {x : Section α} {a : α} {state : UiState}
      (henters : Enters parseUuid s call x) (hok : x s.state = .ok a state) :
      StoredStep s call { s with state }
  | refuse {call : SessionCall} {α : Type} {x : Section α} {e : Error} {state : UiState}
      (henters : Enters parseUuid s call x) (herror : x s.state = .error e state) :
      StoredStep s call { s with state }
  | read {id : UiMessageId} {entry : UiEntry}
      (hentry : s.state.entries[id]? = some entry ∨ s.stored[id]? = some entry) :
      StoredStep s .other { s with known := (s.state.generation, entry) :: s.known }
  | beginFlush (hwriter : s.writer = .idle) (hrevision : s.state.revision ≠ s.progress) :
      StoredStep s .other
        { s with
          writer := .flushing s.captured
            (s.state.entries.filter fun _ entry => s.progress < entry.snapshot.revision) }
  | storeFlush {captured : UiSessionRow} {entries : EntryMap}
      (hwriter : s.writer = .flushing captured entries)
      (hgeneration : s.row.generation = captured.generation)
      (hrevision : s.row.revision = s.progress) :
      StoredStep s .other
        { s with
          row := captured
          stored := s.stored ∪ entries
          writer := .flushed captured.generation captured.revision }
  | endFlush {generation : UiGeneration} {revision : ℕ}
      (hwriter : s.writer = .flushed generation revision)
      (hgeneration : s.state.generation = generation) :
      StoredStep s .other
        { s with
          state.committedRevision := revision
          state.entries := s.state.retain revision
          progress := revision
          writer := .idle }
  | beginTruncation {canonicalTail : ℕ} (hwriter : s.writer = .idle) :
      StoredStep s .other
        { s with
          writer := .truncating canonicalTail s.state.generation (s.state.revision + 1) }
  /-- The generation is a new one. -/
  | storeTruncation {canonicalTail revision : ℕ} {previous generation : UiGeneration}
      (hwriter : s.writer = .truncating canonicalTail previous revision)
      (hprevious : s.row.generation = previous) (hnew : generation ∉ s.generations) :
      StoredStep s .other
        { s with
          stored := truncateStored s.stored canonicalTail
          row :=
            { generation
              revision
              nextPosition := nextPositionOf (truncateStored s.stored canonicalTail)
              totalMessages := (truncateStored s.stored canonicalTail).size
              failure := none }
          writer := .truncated canonicalTail
          generations := generation :: s.generations }
  | endTruncation {canonicalTail : ℕ} (hwriter : s.writer = .truncated canonicalTail) :
      StoredStep s .other
        { s with
          state := .truncated s.stored s.row.generation canonicalTail s.row.revision
          progress := s.row.revision
          writer := .idle }
  /-- The call that holds the lock fails or is dropped. -/
  | release : StoredStep s .other { s with writer := .idle }
  /-- An empty session becomes a fork; nothing else uses it yet.  The table has one row for each
  position. -/
  | copyPrefix {entries : List UiEntry} {revision canonicalTail : ℕ}
      (hwriter : s.writer = .idle) (hgeneration : s.row.generation = s.state.generation)
      (hempty : s.state.totalMessages = 0)
      (hpositions : (entries.map fun entry => entry.snapshot.position).Nodup) :
      StoredStep s .other
        { s with
          stored := copiedRows entries
          row :=
            { s.row with
              revision
              nextPosition := nextPositionOf (copiedRows entries)
              totalMessages := (copiedRows entries).size }
          state.revision := revision
          state.committedRevision := revision
          state.nextPosition := nextPositionOf (copiedRows entries)
          state.totalMessages := (copiedRows entries).size
          state.canonicalTail := canonicalTail
          progress := revision }
  /-- Nobody held the session any more, and it is opened again. -/
  | reopen {canonicalTail : ℕ} :
      StoredStep s .other
        { s with
          state := .opened s.row canonicalTail
          progress := s.row.revision
          writer := .idle
          known := [] }

/-- The steps whose calls find the messages that they name. -/
def FindingStep (s : StoredSession) (call : SessionCall) (t : StoredSession) : Prop :=
  StoredStep parseUuid s call t ∧ Finds parseUuid s call

end Steps

/-! ## Pages -/

/-- Where the target of a range is. -/
def StoredSession.aroundTarget (s : StoredSession) : UiHistoryRange → Except Error (Option ℕ)
  | .around messageId =>
    match s.state.failure, s.history[messageId]? with
    | some failure, _ => .error (.message failure)
    | none, none => .error (.message "UI history target was removed")
    | none, some entry => .ok (some entry.snapshot.position)
  | _ => .ok none

/-- The page of a range, when its rows are read and shown in the same state. -/
def StoredSession.page (s : StoredSession) (range : UiHistoryRange) (limit : ℕ) :
    Except Error UiHistoryPage := do
  if limit = 0 then throw (.message "UI history page limit must be positive")
  let target ← s.aroundTarget range
  match s.state.failure with
  | some failure => throw (.message failure)
  | none =>
    let bounds ← range.bounds target
    bounds.columns
    limitColumn limit
    return assemblePage s.state bounds limit (storedPage s.stored bounds limit)

/-! ## What a page should show -/

/-- The `limit` snapshots with the greatest positions, by position. -/
def newestSnapshots (limit : ℕ) (snapshots : List UiSnapshot) : List UiSnapshot :=
  let ordered := sortByKey (fun snapshot : UiSnapshot => snapshot.position) snapshots
  ordered.drop (ordered.length - limit)

/-- The `limit` snapshots with the least positions, by position. -/
def oldestSnapshots (limit : ℕ) (snapshots : List UiSnapshot) : List UiSnapshot :=
  (sortByKey (fun snapshot : UiSnapshot => snapshot.position) snapshots).take limit

/-- How far a snapshot is from a position; of two at the same distance, the earlier is nearer. -/
def nearness (target : ℕ) (snapshot : UiSnapshot) : ℕ ×ₗ ℕ :=
  toLex (max snapshot.position target - min snapshot.position target, snapshot.position)

/-- The `limit` snapshots nearest to a position, by position. -/
def nearestSnapshots (target limit : ℕ) (snapshots : List UiSnapshot) : List UiSnapshot :=
  sortByKey (fun snapshot : UiSnapshot => snapshot.position)
    ((sortByKey (nearness target) snapshots).take limit)

/-- The snapshots of the current history. -/
def StoredSession.snapshots (s : StoredSession) : List UiSnapshot :=
  s.history.toList.map fun entry => entry.2.snapshot

/-- What a page of a range should show. -/
def StoredSession.pageSnapshots (s : StoredSession) (limit : ℕ) :
    UiHistoryRange → List UiSnapshot
  | .latest => newestSnapshots limit s.snapshots
  | .before position =>
    newestSnapshots limit (s.snapshots.filter fun snapshot => snapshot.position < position)
  | .after position =>
    oldestSnapshots limit (s.snapshots.filter fun snapshot => position < snapshot.position)
  | .window start none =>
    newestSnapshots limit (s.snapshots.filter fun snapshot => start ≤ snapshot.position)
  | .window start (some stop) =>
    oldestSnapshots limit (s.snapshots.filter fun snapshot =>
      start ≤ snapshot.position && snapshot.position < stop)
  | .around messageId =>
    nearestSnapshots ((s.history[messageId]?.map fun entry => entry.snapshot.position).getD 0)
      limit s.snapshots

/-- A page shows what it should, and knows whether the history goes on behind it. -/
structure PageOf (s : StoredSession) (range : UiHistoryRange) (limit : ℕ)
    (page : UiHistoryPage) : Prop where
  history : page.history = s.pageSnapshots limit range
  increasing : page.history.Pairwise fun a b => a.position < b.position
  lastPosition : page.lastPosition = page.history.getLast?.map UiSnapshot.position
  hasNewer : page.hasNewer = true ↔
    ∃ last ∈ page.lastPosition, ∃ snapshot ∈ s.snapshots, last < snapshot.position

/-- The ranges and limits that are answered. -/
def Answers (s : StoredSession) (limit : ℕ) : UiHistoryRange → Prop
  | .latest => limit < 2 ^ 63
  | .before position => position < 2 ^ 63 ∧ limit < 2 ^ 63
  | .after position => position < 2 ^ 63 ∧ limit < 2 ^ 63
  | .window start stop =>
    (∀ stop' ∈ stop, start < stop' ∧ stop' < 2 ^ 63) ∧ start ≤ 2 ^ 63 ∧ limit < 2 ^ 63
  | .around messageId => s.history.contains messageId = true ∧ limit < 2 ^ 63

end Chelix.Sessions
