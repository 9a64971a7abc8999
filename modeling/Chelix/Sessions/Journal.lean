import Chelix.Common.ToolDisclosure
import Chelix.Library.Paging
import Chelix.Sessions.UiHistoryTypes
import Mathlib.Data.Finset.Basic

/-!
# The canonical journal of a session

The rows of one session in the tables of the journal, beside the rows of its semantic history,
and the statements that read and write them.  An operation returns the rows that its committed
transaction leaves; one that fails is rolled back.

Payloads are kept parsed.  What `json_extract` makes of a value that is not a string, and the
parser of JSON text, are parameters.
-/

namespace Chelix.Sessions

open Chelix.Library Chelix.Common

/-! ## Rows -/

/-- A row of `session_records`: the column of its role and its payload. -/
structure RecordRow where
  role : String
  payload : Json
  deriving DecidableEq

structure JournalPointers where
  canonicalTail : ℕ
  lastCheckpointIndex : Option ℕ
  firstUserIndex : Option ℕ
  deriving DecidableEq

/-- A row of `ui_history_snapshots`.  A conflict leaves the column of the position as it was;
the other columns are those of the entry. -/
structure UiSnapshotRow where
  position : ℕ
  entry : UiEntry

/-- The rows of one session. -/
structure SessionTables where
  journal : Option JournalPointers
  records : OrderedMap ℕ RecordRow
  toolDisclosures : OrderedMap String ℕ
  assistantSegments : OrderedMap ℕ ProviderSegmentId
  disclosureErrors : OrderedMap ℕ Unit
  uiSession : Option UiSessionRow
  snapshots : OrderedMap UiMessageId UiSnapshotRow

namespace SessionTables

def empty : SessionTables where
  journal := none
  records := ∅
  toolDisclosures := ∅
  assistantSegments := ∅
  disclosureErrors := ∅
  uiSession := none
  snapshots := ∅

/-- The payloads of the records, in the order of their indices. -/
def values (t : SessionTables) : List Json := t.records.toList.map fun row => row.2.payload

end SessionTables

/-- The pointers of a journal without records. -/
def JournalPointers.zero : JournalPointers where
  canonicalTail := 0
  lastCheckpointIndex := none
  firstUserIndex := none

/-- The role that a record is stored with. -/
def recordRole (record : Json) : String := ((record.get "role").bind Json.asStr).getD ""

/-! ## Statements -/

/-- The conversion of an index to a column. -/
def toI64 (n : ℕ) : Except Error ℕ :=
  if n < 2 ^ 63 then .ok n
  else .error (.message "out of range integral type conversion attempted")

/-- `INSERT` into a table with this primary key. -/
def insertNew {κ ν : Type} [LinearOrder κ] (constraint : String) (table : OrderedMap κ ν)
    (row : κ × ν) : Except Error (OrderedMap κ ν) :=
  if table.contains row.1 then .error (.sqlx ("UNIQUE constraint failed: " ++ constraint))
  else .ok (table.insert row.1 row.2)

/-- `INSERT … ON CONFLICT DO NOTHING`. -/
def insertOrIgnore {κ ν : Type} [LinearOrder κ] (table : OrderedMap κ ν) (k : κ) (v : ν) :
    OrderedMap κ ν :=
  if table.contains k then table else table.insert k v

/-- `SELECT MAX(record_index)` among the records of a role below an index. -/
def maxRoleIndex (records : OrderedMap ℕ RecordRow) (role : String) (bound : ℕ) : Option ℕ :=
  ((records.toList.filter fun row => row.2.role = role ∧ row.1 < bound).map Prod.fst).max?

/-! ## Writing -/

section Write

variable (fromStr : String → Except String Json)

/-- The rows that a record adds to the tables of its disclosure. -/
def insertDisclosure (t : SessionTables) (index : ℕ) (record : Json) :
    Except Error SessionTables :=
  match recordDisclosure fromStr record with
  | .ok disclosure => do
      let toolDisclosures := disclosure.names.toList.foldl
        (fun table name => insertOrIgnore table name index) t.toolDisclosures
      match disclosure.segmentId with
      | some segmentId =>
        let assistantSegments ← insertNew
          "session_assistant_segments.session_key, session_assistant_segments.record_index"
          t.assistantSegments (index, segmentId)
        return { t with toolDisclosures, assistantSegments }
      | none => return { t with toolDisclosures }
  | .error _ => do
      let disclosureErrors ← insertNew
        "session_disclosure_errors.session_key, session_disclosure_errors.record_index"
        t.disclosureErrors (index, ())
      return { t with disclosureErrors }

def insertRecord (t : SessionTables) (index : ℕ) (record : Json) :
    Except Error SessionTables := do
  let index ← toI64 index
  let records ← insertNew "session_records.session_key, session_records.record_index"
    t.records (index, { role := recordRole record, payload := record })
  insertDisclosure fromStr { t with records } index record

/-- The variables of the loop over an appended batch. -/
structure AppendLoop where
  tables : SessionTables
  next : ℕ
  lastCheckpoint : Option ℕ
  firstUser : Option ℕ

def AppendLoop.step (loop : AppendLoop) (record : Json) : Except Error AppendLoop := do
  let index := loop.next
  if index + 1 ≥ 2 ^ 64 then throw (.message "session message index overflow")
  let tables ← insertRecord fromStr loop.tables index record
  let role := recordRole record
  return {
    tables
    next := index + 1
    lastCheckpoint := if role = "checkpoint" then some index else loop.lastCheckpoint
    firstUser := if role = "user" then loop.firstUser.or (some index) else loop.firstUser }

/-- Appends a batch of records at the expected tail. -/
def append (t : SessionTables) (records : List Json) (expectedTail : ℕ) :
    Except Error SessionTables :=
  if records = [] then .error (.message "session append batch is empty")
  else do
    let expectedTail ← toI64 expectedTail
    let pointers := t.journal.getD .zero
    if t.journal = none ∨ pointers.canonicalTail ≠ expectedTail then
      throw (.message ("expected message index " ++ toString expectedTail ++
        ", found session tail " ++ toString pointers.canonicalTail))
    let loop ← records.foldlM (AppendLoop.step fromStr) ⟨t, expectedTail, none, none⟩
    let tail ← toI64 loop.next
    return { loop.tables with
      journal := some
        { canonicalTail := tail
          lastCheckpointIndex := loop.lastCheckpoint.or pointers.lastCheckpointIndex
          firstUserIndex := pointers.firstUserIndex.or loop.firstUser } }

def requiredPayload (t : SessionTables) (index : ℕ) : Except Error Json :=
  match t.records[index]? with
  | some row => .ok row.payload
  | none => .error
      (.message ("message index " ++ toString index ++ " is outside session history"))

end Write

def clearJournal (t : SessionTables) : SessionTables :=
  { t with
    records := ∅
    toolDisclosures := ∅
    assistantSegments := ∅
    disclosureErrors := ∅
    journal := some .zero }

/-- The rows of a table of records below an index. -/
def below {ν : Type} (boundary : ℕ) (table : OrderedMap ℕ ν) : OrderedMap ℕ ν :=
  OrderedMap.filterKeys (fun index => index < boundary) table

/-- The disclosures of the records below an index. -/
def disclosedBelow (boundary : ℕ) (table : OrderedMap String ℕ) : OrderedMap String ℕ :=
  table.filter fun _ index => index < boundary

/-- Deletes the records from an index on. -/
def truncateJournal (t : SessionTables) (boundary : ℕ) : Except Error SessionTables := do
  let boundary ← toI64 boundary
  let records := below boundary t.records
  return { t with
    records
    toolDisclosures := disclosedBelow boundary t.toolDisclosures
    assistantSegments := below boundary t.assistantSegments
    disclosureErrors := below boundary t.disclosureErrors
    journal := t.journal.map fun pointers =>
      { canonicalTail := boundary
        lastCheckpointIndex := maxRoleIndex records "checkpoint" boundary
        firstUserIndex := pointers.firstUserIndex.filter fun index => index < boundary } }

/-! ## Reading -/

inductive ActiveEvent where
  | start (tail : ℕ) (segmentIds : Finset ProviderSegmentId)
  | row (index : ℕ) (payload : Json)

/-- Where the tail that a checkpoint keeps starts. -/
def tailStart (checkpointIndex : ℕ) (payload : Json) : ℕ :=
  (((payload.get "messagesSummarized").bind Json.asNat).filter fun start =>
    start ≤ checkpointIndex).getD checkpointIndex

section Read

variable {σ : Type} (visit : σ → ActiveEvent → Except Error σ)

/-- Visits the records of a range in pages of 64. -/
def streamRange (t : SessionTables) (start stop : ℕ) (skipCheckpoints : Bool) (s : σ) :
    Except Error σ :=
  if start ≥ stop then .ok s
  else
    let rows := t.records.toList.filter fun row =>
      row.1 < stop ∧ (skipCheckpoints → row.2.role ≠ "checkpoint")
    readPages Prod.fst 64 rows (fun s row => visit s (.row row.1 row.2.payload))
      (rows.length + 1) ((start : ℤ) - 1) s

variable (jsonExtract : Json → Option String)

/-- `json_extract(payload, '$.segmentId')`. -/
def extractSegmentId (payload : Json) : Option String :=
  match payload.get "segmentId" with
  | none => none
  | some (.str segmentId) => some segmentId
  | some value => jsonExtract value

/-- The segments of the assistant records whose index satisfies a test. -/
def segmentsWhere (t : SessionTables) (p : ℕ → String → Prop) [∀ i s, Decidable (p i s)] :
    Finset ProviderSegmentId :=
  ((t.assistantSegments.toList.filter fun row => p row.1 row.2).map Prod.snd).toFinset

/-- The segments that the append-only records of the active window mention. -/
def mentionedInWindow (t : SessionTables) (tail start checkpoint : ℕ) : List String :=
  (t.records.toList.filter fun row =>
    (row.2.role = "provider_update" ∨ row.2.role = "provider_segment_close") ∧ row.1 < tail ∧
      ((row.1 ≥ start ∧ row.1 < checkpoint) ∨ row.1 > checkpoint)).filterMap
    fun row => extractSegmentId jsonExtract row.2.payload

/-- The segments of assistant records that the active window holds or refers back to. -/
def segmentIds (t : SessionTables) (pointers : JournalPointers) :
    Except Error (Finset ProviderSegmentId) :=
  let tail := pointers.canonicalTail
  match pointers.lastCheckpointIndex.filter fun index => index < tail with
  | none => .ok (segmentsWhere t fun index _ => index < tail)
  | some checkpoint => do
      let payload ← requiredPayload t checkpoint
      let start := tailStart checkpoint payload
      let mentioned := mentionedInWindow jsonExtract t tail start checkpoint
      return segmentsWhere t (fun index _ => index ≥ start ∧ index < checkpoint) ∪
        segmentsWhere t (fun index _ => index > checkpoint ∧ index < tail) ∪
        segmentsWhere t fun index segmentId => index < start ∧ segmentId ∈ mentioned

def ensureAbsentJournalIsEmpty (key : String) (t : SessionTables) : Except Error Unit :=
  let totalMessages := (t.uiSession.map UiSessionRow.totalMessages).getD 0
  if totalMessages > 0 ∨ t.snapshots.size > 0 then .error (.historyWithoutJournal key)
  else .ok ()

/-- Visits the records that the latest checkpoint leaves. -/
def visitRecords (t : SessionTables) (pointers : JournalPointers) (s : σ) : Except Error σ :=
  let tail := pointers.canonicalTail
  match pointers.lastCheckpointIndex.filter fun index => index < tail with
  | some checkpoint => do
      let payload ← requiredPayload t checkpoint
      let start := tailStart checkpoint payload
      let s ← visit s (.row checkpoint payload)
      let s ← streamRange visit t start checkpoint true s
      streamRange visit t (checkpoint + 1) tail false s
  | none => streamRange visit t 0 tail false s

/-- Visits the segments that assistant records already carry, then the records. -/
def withActiveRecords (key : String) (t : SessionTables) (s : σ) : Except Error (σ × ℕ) :=
  match t.journal with
  | none => do
      ensureAbsentJournalIsEmpty key t
      let s ← visit s (.start 0 ∅)
      return (s, 0)
  | some pointers => do
      let tail := pointers.canonicalTail
      let segmentIds ← segmentIds jsonExtract t pointers
      let s ← visit s (.start tail segmentIds)
      if tail = 0 then return (s, 0)
      else
        let s ← visitRecords visit t pointers s
        return (s, tail)

end Read

end Chelix.Sessions
