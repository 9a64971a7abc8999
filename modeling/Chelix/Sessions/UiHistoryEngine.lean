import Chelix.Library.Sections
import Chelix.Sessions.UiHistoryProjection

/-!
# The state of a semantic history session

The entries that a session holds in memory, and the critical sections of the mutex that guards
them.  Texts of new identities are arguments of the sections that need them.
-/

namespace Chelix.Sessions

open Chelix.Library Chelix.Common

structure UiRegisteredRun where
  metadata : UiRunMetadata
  segmentId : Option ProviderSegmentId
  lastError : Option (UiMessageId × String)

structure UiState where
  generation : UiGeneration
  revision : ℕ
  committedRevision : ℕ
  nextPosition : ℕ
  totalMessages : ℕ
  canonicalTail : ℕ
  entries : OrderedMap UiMessageId UiEntry
  pendingAppends : OrderedMap UiMessageId ℕ
  runs : OrderedMap String UiRegisteredRun
  toolOwners : OrderedMap UiMessageId UiMessageId
  failure : Option String

/-- A session as it is opened: nothing is in memory. -/
def UiState.opened (row : UiSessionRow) (canonicalTail : ℕ) : UiState where
  generation := row.generation
  revision := row.revision
  committedRevision := row.revision
  nextPosition := row.nextPosition
  totalMessages := row.totalMessages
  canonicalTail := canonicalTail
  entries := ∅
  pendingAppends := ∅
  runs := ∅
  toolOwners := ∅
  failure := row.failure

/-- The receipt of a staged record. -/
structure UiAppendReceipt where
  id : UiMessageId
  commitsSnapshot : Bool
  semanticRecord : Bool
  generation : UiGeneration
  contentVersion : ℕ
  deriving DecidableEq

/-- The target of an update of a record. -/
structure UiRecordUpdate where
  generation : UiGeneration
  entry : UiEntry

/-- A critical section of the state. -/
abbrev Section (α : Type) := CriticalSection Error UiState α

/-- The conversion of a counter to a column. -/
def integer (value : ℕ) : Except Error Unit :=
  if value < 2 ^ 63 then .ok ()
  else .error (.message
    "UI history integer overflow: out of range integral type conversion attempted")

/-- An addition that must fit into a given width. -/
def checkedAdd (bits : ℕ) (value : ℕ) (overflow : String) : Except Error ℕ :=
  if value + 1 < 2 ^ bits then .ok (value + 1) else .error (.message overflow)

namespace UiState

/-- A copy to project records onto, with the given entries only. -/
def prepare (s : UiState) (entries : OrderedMap UiMessageId UiEntry) : UiState :=
  { s with entries, pendingAppends := ∅ }

def check : Section Unit := do
  match (← get).failure with
  | some failure => throw (.message failure)
  | none => return ()

def advance : Section ℕ := do
  let revision ← CriticalSection.lift
    (checkedAdd 64 (← get).revision "UI history revision overflow")
  modify fun s => { s with revision }
  CriticalSection.lift (integer revision)
  return revision

def allocate : Section ℕ := do
  let position := (← get).nextPosition
  let nextPosition ← CriticalSection.lift
    (checkedAdd 64 position "UI history position overflow")
  modify fun s => { s with nextPosition }
  CriticalSection.lift (integer nextPosition)
  let totalMessages ← CriticalSection.lift
    (checkedAdd 32 (← get).totalMessages "UI history count overflow")
  modify fun s => { s with totalMessages }
  return position

end UiState

/-- The tools that a displayed assistant record calls, if its run is known. -/
def ownedTools (entry : UiEntry) : List UiMessageId :=
  match entry.assistant with
  | some (_, message) =>
    match message.toolCalls, message.runId with
    | some calls, some runId => calls.map fun call => .tool runId call.id
    | _, _ => []
  | none => []

/-- The attempt of its run that a live record belongs to becomes that of its segment. -/
def followSegment (runs : OrderedMap String UiRegisteredRun) (entry : UiEntry)
    (ingress : UiIngress) : OrderedMap String UiRegisteredRun :=
  match ingress, entry.snapshot.content.runId, entry.materializer with
  | .live, some runId, some materializer =>
    match runs[runId]? with
    | some run =>
      runs.insert runId { run with segmentId := materializer.segment.segmentId }
    | none => runs
  | _, _, _ => runs

namespace UiState

/-- The position of a message: its own, or the next one if it is new. -/
def positionFor (id : UiMessageId) (entry : UiEntry) : Section ℕ := do
  if (← get).entries.contains id then return entry.snapshot.position
  else allocate

/-- Stores a projected entry: a new message takes the next position, and every change the next
revision. -/
def store (id : UiMessageId) (ingress : UiIngress) (entry : UiEntry) : Section Unit := do
  let s ← get
  let position ← positionFor id entry
  let contentVersion ← CriticalSection.lift
    (checkedAdd 64 entry.contentVersion "UI content version overflow")
  let entry : UiEntry :=
    { entry with
      contentVersion
      snapshot :=
        { entry.snapshot with
          position
          canonicalCommitted := false
          assistantId := s.toolOwners[id]?.or entry.snapshot.assistantId } }
  modify fun s =>
    { s with
      toolOwners := (ownedTools entry).foldl (fun owners tool => owners.insert tool id)
        s.toolOwners
      runs := followSegment s.runs entry ingress }
  let revision ← advance
  modify fun s =>
    { s with
      entries := s.entries.insert id
        { entry with snapshot := { entry.snapshot with revision } } }

/-- Projects a record onto the entry of its message, which is created if there is none. -/
def project (id : UiMessageId) (record : UiRecord) (ingress : UiIngress) : Section Unit := do
  let s ← get
  let run := (record.message.runId.bind fun runId => s.runs[runId]?).map
    UiRegisteredRun.metadata
  let entry := s.entries[id]?.getD (initialEntry id s.nextPosition record)
  match ← CriticalSection.lift (Sessions.project entry record ingress run) with
  | none => return ()
  | some entry => store id ingress entry

/-- A tool that has an owner names it; the entry of one that did not yet is stamped with the
revision. -/
def adopt (owners : OrderedMap UiMessageId UiMessageId) (revision : ℕ) (id : UiMessageId)
    (entry : UiEntry) : UiEntry :=
  match owners[id]? with
  | some owner =>
    if entry.snapshot.assistantId = some owner then entry
    else
      { entry with
        snapshot := { entry.snapshot with assistantId := some owner, revision } }
  | none => entry

/-- Takes over what was projected onto a copy. -/
def commit (s prepared : UiState) : UiState :=
  { s with
    revision := prepared.revision
    nextPosition := prepared.nextPosition
    totalMessages := prepared.totalMessages
    entries := (s.entries ∪ prepared.entries).map (adopt prepared.toolOwners prepared.revision)
    toolOwners := prepared.toolOwners
    runs := prepared.runs }

/-- Runs a section on a prepared copy, which is dropped if it fails. -/
def onCopy {α : Type} (copy : UiState) (x : Section α) : Section (α × UiState) :=
  match x copy with
  | .ok a prepared => pure (a, prepared)
  | .error e _ => throw e

/-! ## Runs and live copies -/

def beginRun (metadata : UiRunMetadata) : Section Unit := do
  check
  if (← get).runs.contains metadata.runId then
    throw (.message "UI history run is already registered")
  modify fun s =>
    { s with runs := s.runs.insert metadata.runId { metadata, segmentId := none, lastError := none } }

/-- The entry of one message, if it is in memory. -/
def held (s : UiState) (id : UiMessageId) : OrderedMap UiMessageId UiEntry :=
  match s.entries[id]? with
  | some entry => (∅ : OrderedMap UiMessageId UiEntry).insert id entry
  | none => ∅

/-- Copies a record into the entry of its message; only a registered run may. -/
def ingest (parseUuid : String → Except String String) (record : UiRecord)
    (ingress : UiIngress) (expected : Option UiGeneration) (uuid : String) :
    Section UiMessageId := do
  check
  let s ← get
  if (expected.any fun expected => expected ≠ s.generation) ∨
      ¬(record.message.runId.any fun runId => s.runs.contains runId) then
    throw (.message "copied stream belongs to an inactive UI history run")
  let id := (← CriticalSection.lift (identity parseUuid record)).getD uuid
  let (_, prepared) ← onCopy (s.prepare (s.held id)) (project id record ingress)
  modify fun s => s.commit prepared
  return id

/-- Records an error of a provider as a message of its own. -/
def insertError (error : UiProviderError) (expected : Option UiGeneration) (uuid : String) :
    Section UiMessageId := do
  check
  let s ← get
  if expected.any fun generation =>
      generation ≠ s.generation || !s.runs.contains error.runId then
    throw (.message "obsolete UI history run")
  let id := uuid
  let error := { error with
    segmentId := error.segmentId.or (s.runs[error.runId]?.bind UiRegisteredRun.segmentId) }
  modify fun s =>
    match s.runs[error.runId]? with
    | some run =>
      { s with runs := s.runs.insert error.runId { run with lastError := some (id, error.raw) } }
    | none => s
  let position ← allocate
  let revision ← advance
  modify fun s =>
    { s with
      entries := s.entries.insert id
        { snapshot :=
            { id
              position
              revision
              canonicalCommitted := false
              content := .error error
              presentation := .default
              accumulatedArguments := none
              assistantId := none
              outcome := none }
          canonical := none
          contentVersion := 0
          materializer := none } }
  return id

def startAttempt (generation : UiGeneration) (runId : String)
    (segmentId : Option ProviderSegmentId) : Section Unit := do
  check
  let s ← get
  if s.generation ≠ generation then throw (.message "obsolete UI history run")
  match s.runs[runId]? with
  | none => throw (.message "UI history run is inactive")
  | some run =>
    modify fun s =>
      { s with runs := s.runs.insert runId { run with segmentId, lastError := none } }

/-- Changes the presentation of a message of a run that is in memory. -/
def mutatePresentation (generation : UiGeneration) (runId : String) (id : UiMessageId)
    (update : UiPresentation → UiPresentation) : Section Unit := do
  check
  let s ← get
  if s.generation ≠ generation ∨ ¬s.runs.contains runId then
    throw (.message "obsolete UI history run")
  if (s.entries[id]?.bind fun entry => entry.snapshot.content.runId) ≠ some runId then
    throw (.message "UI presentation target does not belong to this run")
  let revision ← advance
  match (← get).entries[id]? with
  | none => throw (.message "UI presentation target is missing")
  | some entry =>
    modify fun s =>
      { s with
        entries := s.entries.insert id
          { entry with
            snapshot :=
              { entry.snapshot with
                presentation := update entry.snapshot.presentation
                revision } } }

/-- Why a run cannot be finished. -/
def unfinished (s : UiState) (runId : String) : Option String :=
  if s.entries.toList.any fun entry =>
      s.pendingAppends.contains entry.1 && entry.2.snapshot.content.runId = some runId then
    some "UI run still has pending canonical receipts"
  else if s.entries.toList.any fun entry =>
      entry.2.snapshot.content.runId = some runId &&
        (match entry.2.snapshot.content with
          | .record _ => true
          | .error _ => false) &&
        (!entry.2.snapshot.canonicalCommitted || active entry.2) then
    some "UI run contains unfinished canonical content"
  else none

/-- Whether a tool identity is one of a run. -/
def toolOfRun (runId : String) (tool : UiMessageId) : Bool :=
  ("tool:" ++ toString runId.utf8ByteSize ++ ":" ++ runId ++ ":").toList.isPrefixOf tool.toList

def finishRegistered (generation : UiGeneration) (runId : String) : Section Unit := do
  let s ← get
  if s.generation ≠ generation ∨ ¬s.runs.contains runId then
    throw (.message "obsolete UI history run")
  match s.unfinished runId with
  | some failure =>
    modify fun s => { s with failure := some failure }
    let _ ← advance
    throw (.message failure)
  | none =>
    modify fun s =>
      { s with
        runs := s.runs.erase runId
        entries := s.entries.filter fun _ entry =>
          entry.snapshot.revision > s.committedRevision ||
            entry.snapshot.content.runId ≠ some runId
        toolOwners := OrderedMap.filterKeys (fun tool => !toolOfRun runId tool) s.toolOwners }
    check

/-- A failure of the session, which only the first one sets. -/
def fail (error : String) : Section Unit := do
  if (← get).failure = none then
    modify fun s => { s with failure := some error }
    -- An overflow of the revision is only logged.
    try
      let _ ← advance
    catch _ => pure ()

/-! ## Receipts -/

/-- Whether a record displays itself, rather than a part of its segment. -/
def isSemantic (message : PersistedMessage) : Bool :=
  message.role ≠ .providerUpdate && message.role ≠ .providerSegmentClose

/-- Whether the snapshot shows what it will once a record is in the journal.  The record of a
lifecycle event does not if a later event was copied. -/
def commits (entries : OrderedMap UiMessageId UiEntry) (id : UiMessageId)
    (message : PersistedMessage) : Bool :=
  match message, entries[id]?.bind UiEntry.lifecycle with
  | .toolLifecycle lifecycle, some previous => previous.sequence ≤ lifecycle.sequence
  | .providerUpdate _ _ _ _, _ => false
  | _, _ => true

/-- Stages one record on a copy. -/
def stageRecord (generation : UiGeneration) (id : UiMessageId) (record : UiRecord) :
    Section UiAppendReceipt := do
  let prepared ← get
  if record.message.role = .user ∧ prepared.entries.contains id then
    throw (.message "clientMessageId already exists in this session")
  let commitsSnapshot := commits prepared.entries id record.message
  project id record .journal
  match (← get).entries[id]? with
  | none => throw (.message "staged UI entry is missing")
  | some entry =>
    return {
      id
      commitsSnapshot
      semanticRecord := isSemantic record.message
      generation
      contentVersion := entry.contentVersion }

def stageRecords (generation : UiGeneration) :
    List (UiMessageId × UiRecord) → Section (List UiAppendReceipt)
  | [] => return []
  | (id, record) :: identified => do
      let receipt ← stageRecord generation id record
      return receipt :: (← stageRecords generation identified)

/-- The entries that a batch is staged on: what is in memory, and what was loaded besides. -/
def staged (s : UiState) (loaded : OrderedMap UiMessageId UiEntry)
    (identified : List (UiMessageId × UiRecord)) : OrderedMap UiMessageId UiEntry :=
  identified.foldl (fun entries record =>
    match s.entries[record.1]? with
    | some entry => entries.insert record.1 entry
    | none => entries) loaded

def addPending (pending : OrderedMap UiMessageId ℕ) (receipt : UiAppendReceipt) :
    OrderedMap UiMessageId ℕ :=
  pending.insert receipt.id (pending[receipt.id]?.getD 0 + 1)

/-- The messages of the records of a batch; a record that does not determine its message gets a
new identity. -/
def identifyAll (parseUuid : String → Except String String) (records : List (UiRecord × String)) :
    Except Error (List (UiMessageId × UiRecord)) :=
  records.mapM fun entry => (identity parseUuid entry.1).map fun id =>
    (id.getD entry.2, entry.1)

/-- The entries of the messages of a batch, as they are read one after another. -/
def loadEntries (read : UiMessageId → Option UiEntry)
    (identified : List (UiMessageId × UiRecord)) : OrderedMap UiMessageId UiEntry :=
  identified.foldl (fun loaded record =>
    match read record.1 with
    | some entry => loaded.insert record.1 entry
    | none => loaded) ∅

/-- The section that stages a batch whose entries have been loaded. -/
def stageBatch (generation : UiGeneration) (loaded : OrderedMap UiMessageId UiEntry)
    (identified : List (UiMessageId × UiRecord)) : Section (List UiAppendReceipt) := do
  check
  let s ← get
  if s.generation ≠ generation then throw (.message "UI history changed during staging")
  let (receipts, prepared) ← onCopy (s.prepare (s.staged loaded identified))
    (stageRecords generation identified)
  modify fun s => s.commit prepared
  modify fun s => { s with pendingAppends := receipts.foldl addPending s.pendingAppends }
  return receipts

def bindCanonical (canonical : Option UiCanonicalBinding) (semanticRecord : Bool)
    (index stop : ℕ) : UiCanonicalBinding :=
  match canonical with
  | some binding =>
    { start := min binding.start index
      stop := max binding.stop stop
      recordIndex := if semanticRecord then some index else binding.recordIndex }
  | none =>
    { start := index
      stop := stop
      recordIndex := if semanticRecord then some index else none }

/-- Binds the snapshot of a receipt to the index of its record. -/
def bind (receipt : UiAppendReceipt) (index : ℕ) : Section Unit := do
  check
  let s ← get
  if s.generation ≠ receipt.generation ∨ ¬s.pendingAppends.contains receipt.id then
    throw (.message "obsolete or duplicate UI append receipt")
  let stop ← CriticalSection.lift (checkedAdd 64 index "canonical history index overflow")
  let revision ← advance
  match (← get).entries[receipt.id]? with
  | none => throw (.message "UI append receipt has no snapshot")
  | some entry =>
    let entry : UiEntry :=
      { entry with
        canonical := some (bindCanonical entry.canonical receipt.semanticRecord index stop)
        snapshot :=
          { entry.snapshot with
            canonicalCommitted := entry.snapshot.canonicalCommitted ||
              (receipt.commitsSnapshot && entry.contentVersion = receipt.contentVersion)
            revision } }
    modify fun s =>
      { s with
        entries := s.entries.insert receipt.id entry
        canonicalTail := max s.canonicalTail stop
        pendingAppends :=
          match s.pendingAppends[receipt.id]? with
          | some pending =>
            if pending - 1 = 0 then s.pendingAppends.erase receipt.id
            else s.pendingAppends.insert receipt.id (pending - 1)
          | none => s.pendingAppends }

/-! ## Presentations and record updates -/

/-- The section that changes a presentation, after the entry has been loaded. -/
def updatePresentation (target : UiHistoryTarget) (presentation : UiPresentation)
    (stored : Option UiEntry) : Section Unit := do
  check
  let s ← get
  if s.generation ≠ target.generation then throw (.message "obsolete UI history generation")
  match s.entries[target.messageId]?.or stored with
  | none => throw (.message "UI message was removed")
  | some entry =>
    let revision ← advance
    modify fun s =>
      { s with
        entries := s.entries.insert target.messageId
          { entry with snapshot := { entry.snapshot with presentation, revision } } }

end UiState

/-- The entry that shows an updated record. -/
def validateRecordUpdate (parseUuid : String → Except String String) (entry : UiEntry)
    (record : UiRecord) : Except Error UiEntry := do
  if !entry.snapshot.canonicalCommitted || active entry then
    throw (.message "only confirmed inactive records can be updated")
  match entry.snapshot.content with
  | .error _ => throw (.message "canonical update requires a semantic record")
  | .record existing => do
      if existing.message.role ≠ record.message.role ∨
          existing.message.runId ≠ record.message.runId ∨
          existing.clientMessageId ≠ record.clientMessageId then
        throw (.message "canonical update cannot change message identity")
      let before ← identity parseUuid existing
      let after ← identity parseUuid record
      if before ≠ after then
        throw (.message "canonical update cannot change message identity")
      match ← Sessions.project entry record .journal none with
      | none => throw (.message "canonical update did not advance its semantic record")
      | some updated =>
        let contentVersion ←
          checkedAdd 64 updated.contentVersion "UI content version overflow"
        return { updated with contentVersion }

namespace UiState

/-- The section that updates the entry of a record that was replaced in the journal. -/
def updateRecord (parseUuid : String → Except String String) (expected current : UiRecordUpdate)
    (record : UiRecord) : Section Unit := do
  check
  let s ← get
  let entry := s.entries[current.entry.snapshot.id]?.getD current.entry
  if s.generation ≠ expected.generation ∨ entry.snapshot.id ≠ expected.entry.snapshot.id ∨
      entry.canonical ≠ expected.entry.canonical ∨
      entry.contentVersion ≠ expected.entry.contentVersion ∨
      s.pendingAppends.contains entry.snapshot.id then
    throw (.message "canonical update target changed during file write")
  let entry ← CriticalSection.lift (validateRecordUpdate parseUuid entry record)
  let revision ← advance
  modify fun s =>
    { s with
      entries := s.entries.insert entry.snapshot.id
        { entry with snapshot := { entry.snapshot with revision } } }

end UiState

/-! ## Calls of a run -/

/-- A destination for a copied provider stream, bound to a generation. -/
structure UiHistoryRun where
  generation : UiGeneration
  runId : String

namespace UiHistoryRun

/-- A message as one of the run. -/
def stamp (run : UiHistoryRun) : PersistedMessage → PersistedMessage
  | .providerUpdate update createdAt seq _ =>
    .providerUpdate update createdAt seq (some run.runId)
  | .providerSegmentClose segmentId outcome createdAt seq _ =>
    .providerSegmentClose segmentId outcome createdAt seq (some run.runId)
  | .assistant message => .assistant { message with runId := some run.runId }
  | .user message => .user { message with runId := some run.runId }
  | .toolLifecycle lifecycle => .toolLifecycle { lifecycle with runId := some run.runId }
  | message => message

def copy (parseUuid : String → Except String String) (run : UiHistoryRun)
    (message : PersistedMessage) (uuid : String) : Section UiMessageId := do
  if message.runId.any fun runId => runId ≠ run.runId then
    throw (.message "copied provider item has a different run ID")
  UiState.ingest parseUuid (.ofMessage (run.stamp message)) .live (some run.generation) uuid

end UiHistoryRun

namespace UiState

/-- A call that stages a batch, with nothing in between: the entries are read, then the section
runs. -/
def stage (parseUuid : String → Except String String) (records : List (UiRecord × String))
    (read : UiMessageId → Option UiEntry) : Section (List UiAppendReceipt) := do
  let generation := (← get).generation
  let identified ← CriticalSection.lift (identifyAll parseUuid records)
  stageBatch generation (loadEntries read identified) identified

end UiState

end Chelix.Sessions
