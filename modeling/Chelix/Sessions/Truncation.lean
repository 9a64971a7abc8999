import Chelix.Sessions.HistoryPages
import Chelix.Sessions.JournalSearch

/-!
# Truncation of a session

A truncation from a user message is a sequence of steps that are committed one by one: the
transaction of the journal, the removal of media that nothing refers to any more, the transaction
of the semantic history, and the tail in memory.  What outside makes a step fail is given by
`TruncationEvents`.
-/

namespace Chelix.Sessions

open Chelix.Library Chelix.Common CriticalSection UiState

/-- How to locate the user message that a truncation starts from. -/
inductive UserMessageTarget where
  | messageIndex (index : ℕ)
  | clientSeq (seq : ℕ)
  deriving DecidableEq

structure TruncateTailResult where
  targetIndex : ℕ
  keptCount : ℕ
  removedCount : ℕ
  prunedMediaCount : ℕ
  deriving DecidableEq

/-! ## Media -/

/-- What the listing of a directory yields. -/
inductive MediaEntry where
  | unreadable (error : Error)
  /-- No file, or one whose name is not UTF-8. -/
  | other
  | file (name : String)
  deriving DecidableEq

inductive MediaDir where
  | missing
  | unreadable (error : Error)
  | listed (entries : List MediaEntry)
  deriving DecidableEq

/-- What becomes of the removal of a file. -/
inductive Removal where
  | removed
  | missing
  | failed (error : Error)

/-- A string that names a file in the media directory of a session. -/
def mediaRef (lead : List Char) (text : String) : Option String :=
  (stripPrefix lead text.toList).bind fun rest =>
    if rest = [] ∨ '/' ∈ rest then none else some (String.ofList rest)

mutual

def collectMediaRefs (lead : List Char) : Json → List String
  | .str text => (mediaRef lead text).toList
  | .arr items => collectMediaRefsList lead items
  | .obj fields => collectMediaRefsFields lead fields
  | _ => []

def collectMediaRefsList (lead : List Char) : List Json → List String
  | [] => []
  | item :: items => collectMediaRefs lead item ++ collectMediaRefsList lead items

def collectMediaRefsFields (lead : List Char) : List (String × Json) → List String
  | [] => []
  | (_, value) :: fields => collectMediaRefs lead value ++ collectMediaRefsFields lead fields

end

def keyToFilename (key : String) : String :=
  String.ofList (key.toList.map fun c => if c = ':' then '_' else c)

def collectSessionMediaRefs (messages : List Json) (keyFilename : String) : List String :=
  collectMediaRefsList ("media/" ++ keyFilename ++ "/").toList messages

section Prune

variable (remove : String → Removal) (retained : List String)

/-- Removes the files that are not retained: how many, and what is left. -/
def pruneEntries : List MediaEntry → ℕ → Except Error ℕ × List MediaEntry
  | [], pruned => (.ok pruned, [])
  | .unreadable error :: rest, _ => (.error error, .unreadable error :: rest)
  | .other :: rest, pruned =>
    let (result, left) := pruneEntries rest pruned
    (result, .other :: left)
  | .file name :: rest, pruned =>
    if name ∈ retained then
      let (result, left) := pruneEntries rest pruned
      (result, .file name :: left)
    else
      match remove name with
      | .removed => pruneEntries rest (pruned + 1)
      | .missing => pruneEntries rest pruned
      | .failed error => (.error error, .file name :: rest)

def pruneUnreferencedMedia : MediaDir → Except Error ℕ × MediaDir
  | .missing => (.ok 0, .missing)
  | .unreadable error => (.error error, .unreadable error)
  | .listed entries =>
    let (result, left) := pruneEntries remove retained entries 0
    (result, .listed left)

end Prune

/-! ## The session -/

/-- A session as `session` returns it.  The rows of its semantic history are `stored`. -/
structure OpenSession where
  tables : SessionTables
  /-- The tail that the lock of the journal guards. -/
  canonicalTail : ℕ
  ui : UiState
  stored : EntryMap
  /-- The revision up to which the semantic history is stored. -/
  progress : ℕ
  media : MediaDir

/-- The steps that something outside can make fail. -/
inductive TruncationStage where
  | session
  | pointers
  | target
  | flush
  | cut
  | range
  | journal
  | prune
  | history
  deriving DecidableEq

/-- What comes from outside while a session is truncated. -/
structure TruncationEvents where
  fault : TruncationStage → Option Error
  remove : String → Removal
  /-- The new generation of the semantic history. -/
  generation : UiGeneration
  /-- The text of an error. -/
  display : Error → String
  /-- Whether what `json_extract` makes of a value equals an integer. -/
  jsonEquals : Json → ℕ → Bool

/-- A step in a transaction, which is rolled back when it fails. -/
def attempt : Option Error → Except Error Unit
  | some error => .error error
  | none => .ok ()

/-- A section with what its failure does to the state. -/
def inspectErr {ε σ α : Type} (x : CriticalSection ε σ α) (f : ε → σ → σ) :
    CriticalSection ε σ α := fun s =>
  match x s with
  | .ok a s' => .ok a s'
  | .error e s' => .error e (f e s')

namespace OpenSession

/-- The session when what it has observed is stored. -/
def flushed (s : OpenSession) : OpenSession :=
  { s with
    stored := s.stored ∪ s.ui.entries.filter fun _ entry => s.progress < entry.snapshot.revision
    ui := { s.ui with
      committedRevision := s.ui.revision
      entries := s.ui.retain s.ui.revision }
    progress := s.ui.revision }

/-- A failure that the session refuses further operations with. -/
def fail (display : Error → String) (error : Error) (s : OpenSession) : OpenSession :=
  { s with ui := (UiState.fail (display error)).stateAfter s.ui }

end OpenSession

/-! ## The steps -/

def userIndexForSeq (jsonEquals : Json → ℕ → Bool) (t : SessionTables) (seq : ℕ) :
    Except Error ℕ := do
  let seq ← toI64 seq
  match ((t.records.toList.filter fun row => row.2.role = "user" ∧
      ((row.2.payload.get "seq").any fun value => jsonEquals value seq)).map Prod.fst).min? with
  | some index => return index
  | none => throw (.message ("user message with seq " ++ toString seq ++ " not found"))

def readRange (t : SessionTables) (start stop : ℕ) : Except Error (List Json) :=
  streamRange (fun rows event =>
    match event with
    | .row _ payload => .ok (rows ++ [payload])
    | .start _ _ => .ok rows) t start stop false []

section Steps

variable (events : TruncationEvents)

def resolveUserTarget (t : SessionTables) (target : UserMessageTarget) : Except Error ℕ := do
  attempt (events.fault .pointers)
  let tail := (t.journal.map JournalPointers.canonicalTail).getD 0
  match target with
  | .messageIndex index =>
    if index ≥ tail then
      throw (.message ("messageIndex " ++ toString index ++ " exceeds message count " ++
        toString tail))
    attempt (events.fault .target)
    let role ← readRecordRole t index
    if role ≠ "user" then
      throw (.message ("message at index " ++ toString index ++ " is not a user message"))
    return index
  | .clientSeq seq =>
    attempt (events.fault .target)
    userIndexForSeq events.jsonEquals t seq

/-- A failed session is refused, after its failure is stored. -/
def flush : CriticalSection Error OpenSession Unit := do
  let s ← get
  if s.ui.revision = s.progress then lift (UiState.check.result s.ui)
  else
    lift (attempt (events.fault .flush))
    lift (integer s.ui.revision)
    lift (integer s.ui.nextPosition)
    set s.flushed
    lift (UiState.check.result s.ui)

def validateCanonicalCut (boundary : ℕ) : CriticalSection Error OpenSession Unit := do
  flush events
  let boundary ← lift (toI64 boundary)
  lift (attempt (events.fault .cut))
  let crossing := (← get).stored.toList.any fun row =>
    row.2.canonical.any fun binding => binding.start < boundary && boundary < binding.stop
  if crossing then throw (.message "mutation would split an interleaved canonical segment")

/-- The truncation up to the transaction of the journal: its boundary, and the media that the
records below it refer to. -/
def cutJournal (key : String) (target : UserMessageTarget) :
    CriticalSection Error OpenSession (ℕ × List String) := do
  lift (attempt (events.fault .session))
  let boundary ← lift (resolveUserTarget events (← get).tables target)
  validateCanonicalCut events boundary
  lift (attempt (events.fault .range))
  let kept ← lift (readRange (← get).tables 0 boundary)
  lift (attempt (events.fault .journal))
  let tables ← lift (truncateJournal (← get).tables boundary)
  modify fun s => { s with tables }
  return (boundary, collectSessionMediaRefs kept (keyToFilename key))

def pruneMedia (retained : List String) : CriticalSection Error OpenSession ℕ := do
  let (result, media) := pruneUnreferencedMedia events.remove retained (← get).media
  modify fun s => { s with media }
  lift (attempt (events.fault .prune))
  lift result

/-- The transaction of the semantic history. -/
def truncateHistory (boundary : ℕ) : CriticalSection Error OpenSession Unit := do
  let s ← get
  let revision ← lift (checkedAdd 64 s.ui.revision "UI revision overflow")
  lift (attempt (events.fault .history))
  let boundary ← lift (toI64 boundary)
  let stored := truncateStored s.stored boundary
  let ui := UiState.truncated stored events.generation boundary revision
  if ui.totalMessages ≥ 2 ^ 32 then
    throw (.message "out of range integral type conversion attempted")
  lift (integer revision)
  lift (integer ui.nextPosition)
  set { s with stored, ui, progress := revision }

def truncateFromUserMessage (key : String) (target : UserMessageTarget) :
    CriticalSection Error OpenSession TruncateTailResult := do
  let (boundary, retained) ← cutJournal events key target
  let original := (← get).canonicalTail
  -- The error of a failed removal is returned as it is; the session does not fail.
  let prunedMediaCount ← pruneMedia events retained
  inspectErr (truncateHistory events boundary) (OpenSession.fail events.display)
  modify fun s => { s with canonicalTail := boundary }
  return {
    targetIndex := boundary
    keptCount := boundary
    removedCount := original - boundary
    prunedMediaCount }

end Steps

/-! ## What a failure leaves -/

variable {u : Unit}

theorem UiState.check_result_ok_iff {s : UiState} : check.result s = .ok u ↔ s.failure = none := by
  unfold result
  cases hcheck : check s with
  | ok a s' => exact ⟨fun _ => (check_ok_iff.mp hcheck).1, fun _ => rfl⟩
  | error e s' =>
    refine ⟨nofun, fun hfailure => ?_⟩
    rw [check_ok_iff (u := ()).mpr ⟨hfailure, rfl⟩] at hcheck
    cases hcheck

theorem UiState.failure_fail (text : String) (s : UiState) :
    ((fail text).stateAfter s).failure.isSome := by
  cases hfailure : s.failure with
  | some failure =>
    have hfail : fail text s = .ok () s := by
      show (if s.failure = none then _ else (pure () : Section Unit)) s = _
      rw [hfailure, if_neg (by simp)]
      rfl
    rw [stateAfter, hfail]
    exact hfailure ▸ rfl
  | none =>
    have hfail : fail text s =
        .ok () (advance.stateAfter { s with failure := some text }) := by
      show (if s.failure = none then _ else (pure () : Section Unit)) s = _
      rw [if_pos hfailure, stateAfter]
      show (tryCatch (advance >>= fun _ => pure ()) (fun _ => pure ()) : Section Unit)
        { s with failure := some text } = _
      show EStateM.tryCatch (EStateM.bind advance fun _ => pure ()) (fun _ => pure ()) _ = _
      rw [EStateM.tryCatch, EStateM.bind]
      cases advance { s with failure := some text } with
      | ok r s' | error e s' => rfl
    rw [stateAfter, hfail]
    show (advance.stateAfter { s with failure := some text }).failure.isSome
    unfold stateAfter
    cases hadvance : advance { s with failure := some text } with
    | ok r s' =>
      obtain ⟨-, -, rfl⟩ := advance_ok_iff.mp hadvance
      rfl
    | error e s' =>
      rcases advance_error hadvance with rfl | rfl
      · rfl
      · rfl
namespace OpenSession

/-- Nothing has changed, but that what the session had observed may be stored now. -/
def Unchanged (s t : OpenSession) : Prop := t = s ∨ t = s.flushed

variable {s t : OpenSession}

theorem Unchanged.tables (h : s.Unchanged t) : t.tables = s.tables := by
  rcases h with rfl | rfl
  · rfl
  · rfl

theorem Unchanged.media (h : s.Unchanged t) : t.media = s.media := by
  rcases h with rfl | rfl
  · rfl
  · rfl

theorem failure_fail (display : Error → String) (error : Error) (s : OpenSession) :
    (s.fail display error).ui.failure.isSome := UiState.failure_fail _ _

end OpenSession

theorem inspectErr_error {ε σ α : Type} {x : CriticalSection ε σ α} {f : ε → σ → σ} {s t : σ}
    {e : ε} (h : inspectErr x f s = .error e t) : ∃ s', x s = .error e s' ∧ t = f e s' := by
  unfold inspectErr at h
  cases hx : x s with
  | ok a s' =>
    rw [hx] at h
    cases h
  | error e' s' =>
    rw [hx] at h
    cases h
    exact ⟨s', rfl, rfl⟩

section Law

variable {events : TruncationEvents} {s t : OpenSession}

variable {tables : SessionTables} {boundary : ℕ}

theorem userIndexForSeq_ok {jsonEquals : Json → ℕ → Bool} {seq : ℕ}
    (h : userIndexForSeq jsonEquals tables seq = .ok boundary) :
    ∃ row, tables.records[boundary]? = some row := by
  obtain ⟨value, -, h⟩ := bind_eq_ok.mp h
  split at h
  · rename_i index hmin
    obtain rfl := Except.ok.inj h
    obtain ⟨⟨_, row⟩, hmem, rfl⟩ := List.mem_map.mp (List.min?_mem hmin)
    exact ⟨row, OrderedMap.mem_toList.mp (List.mem_filter.mp hmem).1⟩
  · cases h

theorem readRecordRole_ok {index : ℕ} {role : String} (h : readRecordRole tables index = .ok role) :
    ∃ row, tables.records[index]? = some row := by
  obtain ⟨column, hcolumn, hrole⟩ := bind_eq_ok.mp h
  obtain rfl := toI64_ok hcolumn
  split at hrole
  · rename_i row hrow
    exact ⟨row, hrow⟩
  · cases hrole

variable {target : UserMessageTarget}

theorem resolveUserTarget_ok (h : resolveUserTarget events tables target = .ok boundary) :
    ∃ row, tables.records[boundary]? = some row := by
  obtain ⟨-, -, h⟩ := bind_eq_ok.mp h
  cases target with
  | messageIndex index =>
    obtain ⟨-, h⟩ := guard_eq_ok.mp h
    obtain ⟨-, -, h⟩ := bind_eq_ok.mp h
    obtain ⟨role, hrole, h⟩ := bind_eq_ok.mp h
    obtain ⟨-, h⟩ := guard_eq_ok.mp h
    obtain rfl := Except.ok.inj h
    exact readRecordRole_ok hrole
  | clientSeq seq =>
    obtain ⟨-, -, h⟩ := bind_eq_ok.mp h
    exact userIndexForSeq_ok h

theorem flush_ok (h : flush events s = .ok u t) : s.Unchanged t ∧ t.ui.failure = none := by
  obtain ⟨_, _, hget, h⟩ := bind_ok_iff.mp h
  obtain ⟨rfl, rfl⟩ := get_ok_iff.mp hget
  split at h
  · obtain ⟨hcheck, rfl⟩ := lift_ok_iff.mp h
    exact ⟨.inl rfl, check_result_ok_iff.mp hcheck⟩
  · obtain ⟨_, s₁, hfault, h⟩ := bind_ok_iff.mp h
    obtain ⟨_, s₂, hrevision, h⟩ := bind_ok_iff.mp h
    obtain ⟨_, s₃, hposition, h⟩ := bind_ok_iff.mp h
    obtain ⟨_, s₄, hset, h⟩ := bind_ok_iff.mp h
    obtain rfl := set_ok_iff.mp hset
    obtain ⟨hcheck, rfl⟩ := lift_ok_iff.mp h
    have hfailure : s.ui.failure = none := check_result_ok_iff.mp hcheck
    exact ⟨.inr rfl, hfailure⟩

variable {e : Error}

theorem flush_error (h : flush events s = .error e t) : s.Unchanged t := by
  obtain h | ⟨_, _, hget, h⟩ := bind_error_iff.mp h
  · cases h
  obtain ⟨rfl, rfl⟩ := get_ok_iff.mp hget
  split at h
  · obtain ⟨-, rfl⟩ := lift_error_iff.mp h
    exact .inl rfl
  · obtain h | ⟨_, s₁, hfault, h⟩ := bind_error_iff.mp h
    · exact .inl (lift_error_iff.mp h).2.symm
    obtain ⟨-, rfl⟩ := lift_ok_iff.mp hfault
    obtain h | ⟨_, s₂, hrevision, h⟩ := bind_error_iff.mp h
    · exact .inl (lift_error_iff.mp h).2.symm
    obtain ⟨-, rfl⟩ := lift_ok_iff.mp hrevision
    obtain h | ⟨_, s₃, hposition, h⟩ := bind_error_iff.mp h
    · exact .inl (lift_error_iff.mp h).2.symm
    obtain ⟨-, rfl⟩ := lift_ok_iff.mp hposition
    obtain h | ⟨_, s₄, hset, h⟩ := bind_error_iff.mp h
    · cases h
    obtain rfl := set_ok_iff.mp hset
    exact .inr (lift_error_iff.mp h).2.symm

theorem validateCanonicalCut_ok (h : validateCanonicalCut events boundary s = .ok u t) :
    s.Unchanged t ∧ t.ui.failure = none := by
  obtain ⟨_, s₁, hflush, h⟩ := bind_ok_iff.mp h
  obtain ⟨_, s₂, hboundary, h⟩ := bind_ok_iff.mp h
  obtain ⟨-, rfl⟩ := lift_ok_iff.mp hboundary
  obtain ⟨_, s₃, hfault, h⟩ := bind_ok_iff.mp h
  obtain ⟨-, rfl⟩ := lift_ok_iff.mp hfault
  obtain ⟨_, s₄, hget, h⟩ := bind_ok_iff.mp h
  obtain ⟨rfl, rfl⟩ := get_ok_iff.mp hget
  split at h
  · cases h
  · obtain ⟨-, rfl⟩ := pure_ok_iff.mp h
    exact flush_ok hflush

theorem validateCanonicalCut_error (h : validateCanonicalCut events boundary s = .error e t) :
    s.Unchanged t := by
  obtain h | ⟨_, s₁, hflush, h⟩ := bind_error_iff.mp h
  · exact flush_error h
  have hunchanged := (flush_ok hflush).1
  obtain h | ⟨_, s₂, hboundary, h⟩ := bind_error_iff.mp h
  · exact (lift_error_iff.mp h).2 ▸ hunchanged
  obtain ⟨-, rfl⟩ := lift_ok_iff.mp hboundary
  obtain h | ⟨_, s₃, hfault, h⟩ := bind_error_iff.mp h
  · exact (lift_error_iff.mp h).2 ▸ hunchanged
  obtain ⟨-, rfl⟩ := lift_ok_iff.mp hfault
  obtain h | ⟨_, s₄, hget, h⟩ := bind_error_iff.mp h
  · cases h
  obtain ⟨rfl, rfl⟩ := get_ok_iff.mp hget
  split at h
  · cases h
    exact hunchanged
  · cases h

/-- What is known once the journal is cut: the records from the boundary on are gone. -/
structure JournalCut (s t : OpenSession) : Prop where
  failure : t.ui.failure = none
  media : t.media = s.media
  tables : t.tables ≠ s.tables

theorem cutJournal_error {key : String} (h : cutJournal events key target s = .error e t) :
    s.Unchanged t := by
  obtain h | ⟨_, s₁, hsession, h⟩ := bind_error_iff.mp h
  · exact .inl (lift_error_iff.mp h).2.symm
  obtain ⟨-, rfl⟩ := lift_ok_iff.mp hsession
  obtain h | ⟨_, s₂, hget, h⟩ := bind_error_iff.mp h
  · cases h
  obtain ⟨rfl, rfl⟩ := get_ok_iff.mp hget
  obtain h | ⟨boundary, s₃, hresolve, h⟩ := bind_error_iff.mp h
  · exact .inl (lift_error_iff.mp h).2.symm
  obtain ⟨-, rfl⟩ := lift_ok_iff.mp hresolve
  obtain h | ⟨_, s₄, hcut, h⟩ := bind_error_iff.mp h
  · exact validateCanonicalCut_error h
  have hunchanged := (validateCanonicalCut_ok hcut).1
  obtain h | ⟨_, s₅, hrange, h⟩ := bind_error_iff.mp h
  · exact (lift_error_iff.mp h).2 ▸ hunchanged
  obtain ⟨-, rfl⟩ := lift_ok_iff.mp hrange
  obtain h | ⟨_, s₆, hget, h⟩ := bind_error_iff.mp h
  · cases h
  obtain ⟨rfl, rfl⟩ := get_ok_iff.mp hget
  obtain h | ⟨kept, s₇, hkept, h⟩ := bind_error_iff.mp h
  · exact (lift_error_iff.mp h).2 ▸ hunchanged
  obtain ⟨-, rfl⟩ := lift_ok_iff.mp hkept
  obtain h | ⟨_, s₈, hjournal, h⟩ := bind_error_iff.mp h
  · exact (lift_error_iff.mp h).2 ▸ hunchanged
  obtain ⟨-, rfl⟩ := lift_ok_iff.mp hjournal
  obtain h | ⟨_, s₉, hget, h⟩ := bind_error_iff.mp h
  · cases h
  obtain ⟨rfl, rfl⟩ := get_ok_iff.mp hget
  obtain h | ⟨tables, s', htables, h⟩ := bind_error_iff.mp h
  · exact (lift_error_iff.mp h).2 ▸ hunchanged
  -- The transaction is committed, and nothing after it can fail.
  obtain h | ⟨_, s'', hmodify, h⟩ := bind_error_iff.mp h
  · cases h
  · cases h

theorem cutJournal_ok {key : String} {cut : ℕ × List String}
    (h : cutJournal events key target s = .ok cut t) : JournalCut s t := by
  obtain ⟨_, s₁, hsession, h⟩ := bind_ok_iff.mp h
  obtain ⟨-, rfl⟩ := lift_ok_iff.mp hsession
  obtain ⟨_, s₂, hget, h⟩ := bind_ok_iff.mp h
  obtain ⟨rfl, rfl⟩ := get_ok_iff.mp hget
  obtain ⟨boundary, s₃, hresolve, h⟩ := bind_ok_iff.mp h
  obtain ⟨hboundary, rfl⟩ := lift_ok_iff.mp hresolve
  obtain ⟨_, s₄, hcut, h⟩ := bind_ok_iff.mp h
  obtain ⟨hunchanged, hfailure⟩ := validateCanonicalCut_ok hcut
  obtain ⟨_, s₅, hrange, h⟩ := bind_ok_iff.mp h
  obtain ⟨-, rfl⟩ := lift_ok_iff.mp hrange
  obtain ⟨_, s₆, hget, h⟩ := bind_ok_iff.mp h
  obtain ⟨rfl, rfl⟩ := get_ok_iff.mp hget
  obtain ⟨kept, s₇, hkept, h⟩ := bind_ok_iff.mp h
  obtain ⟨-, rfl⟩ := lift_ok_iff.mp hkept
  obtain ⟨_, s₈, hjournal, h⟩ := bind_ok_iff.mp h
  obtain ⟨-, rfl⟩ := lift_ok_iff.mp hjournal
  obtain ⟨_, s₉, hget, h⟩ := bind_ok_iff.mp h
  obtain ⟨rfl, rfl⟩ := get_ok_iff.mp hget
  obtain ⟨tables, s', htables, h⟩ := bind_ok_iff.mp h
  obtain ⟨htruncated, rfl⟩ := lift_ok_iff.mp htables
  obtain ⟨_, s'', hmodify, h⟩ := bind_ok_iff.mp h
  obtain rfl := modify_ok_iff.mp hmodify
  obtain ⟨-, rfl⟩ := pure_ok_iff.mp h
  refine ⟨hfailure, hunchanged.media, fun heq => ?_⟩
  obtain ⟨row, hrow⟩ := resolveUserTarget_ok hboundary
  have hkeeps : tables.records[boundary]? = some row := by
    rw [show tables = s.tables from heq]
    exact hrow
  have hbelow := ((truncateJournal_ok htruncated).1.records boundary row).mp hkeeps
  exact absurd hbelow.2 (lt_irrefl boundary)

theorem pruneMedia_spec (events : TruncationEvents) (retained : List String) (s : OpenSession) :
    (events.fault .prune = none ∧
        ∃ n, (pruneUnreferencedMedia events.remove retained s.media).1 = .ok n) ∧
      (∃ n media, pruneMedia events retained s = .ok n { s with media }) ∨
    ¬(events.fault .prune = none ∧
        ∃ n, (pruneUnreferencedMedia events.remove retained s.media).1 = .ok n) ∧
      ∃ e media, pruneMedia events retained s = .error e { s with media } := by
  have hrun : pruneMedia events retained s =
      (lift (attempt (events.fault .prune)) >>= fun _ =>
        lift (pruneUnreferencedMedia events.remove retained s.media).1)
          { s with media := (pruneUnreferencedMedia events.remove retained s.media).2 } := rfl
  rw [hrun]
  cases hfault : events.fault .prune with
  | some error =>
    refine .inr ⟨?_, error, _, rfl⟩
    rintro ⟨hnone, -⟩
    cases hnone
  | none =>
    cases (pruneUnreferencedMedia events.remove retained s.media).1 with
    | error error =>
      refine .inr ⟨?_, error, _, rfl⟩
      rintro ⟨-, n, hn⟩
      cases hn
    | ok n => exact .inl ⟨⟨rfl, n, rfl⟩, n, _, rfl⟩

/-- **A truncation fails cleanly where the media can be pruned.**  One that returns an error has
changed nothing or has marked the session as failed, exactly if the media can be pruned once the
journal is cut. -/
theorem truncation_fails_cleanly_iff (events : TruncationEvents) (key : String)
    (target : UserMessageTarget) (s : OpenSession) :
    (∀ e t, truncateFromUserMessage events key target s = .error e t →
        s.Unchanged t ∨ t.ui.failure.isSome) ↔
      ∀ boundary retained s', cutJournal events key target s = .ok (boundary, retained) s' →
        events.fault .prune = none ∧
          ∃ n, (pruneUnreferencedMedia events.remove retained s.media).1 = .ok n := by
  constructor
  · intro hclean boundary retained s₁ hcut
    obtain ⟨hfailure, hmedia, htables⟩ := cutJournal_ok hcut
    obtain ⟨hprunes, -⟩ | ⟨-, e, media, herror⟩ := pruneMedia_spec events retained s₁
    · exact hmedia ▸ hprunes
    · have hresult : truncateFromUserMessage events key target s = .error e { s₁ with media } :=
        bind_error_iff.mpr (.inr ⟨_, s₁, hcut, bind_error_iff.mpr (.inr ⟨_, s₁, rfl,
          bind_error_iff.mpr (.inl herror)⟩)⟩)
      rcases hclean _ _ hresult with hunchanged | hfailed
      · exact absurd hunchanged.tables htables
      · have hsome : s₁.ui.failure.isSome := hfailed
        rw [hfailure] at hsome
        cases hsome
  · intro hprunes e t h
    obtain h | ⟨⟨boundary, retained⟩, s₁, hcut, h⟩ := bind_error_iff.mp h
    · exact .inl (cutJournal_error h)
    have hpruned := hprunes boundary retained s₁ hcut
    rw [← (cutJournal_ok hcut).media] at hpruned
    obtain h | ⟨_, s₂, hget, h⟩ := bind_error_iff.mp h
    · cases h
    obtain ⟨rfl, rfl⟩ := get_ok_iff.mp hget
    obtain h | ⟨pruned, s₃, -, h⟩ := bind_error_iff.mp h
    · obtain ⟨-, n, media, hok⟩ | ⟨hnot, -⟩ := pruneMedia_spec events retained s₁
      · rw [hok] at h
        cases h
      · exact absurd hpruned hnot
    obtain h | ⟨_, s₄, -, h⟩ := bind_error_iff.mp h
    · obtain ⟨s₅, -, rfl⟩ := inspectErr_error h
      exact .inr (OpenSession.failure_fail _ _ _)
    obtain h | ⟨_, s₅, -, h⟩ := bind_error_iff.mp h
    · cases h
    · cases h

end Law

/-! ## A file that cannot be removed -/

def oneUserMessage : Json := .obj [("role", .str "user"), ("content", .str "")]

/-- The message as the history shows it. -/
def oneUserEntry : UiEntry where
  snapshot :=
    { id := "message"
      position := 0
      revision := 1
      canonicalCommitted := true
      content := .record (.ofMessage (.user ⟨.text "", none, none, none, none, none, none⟩))
      presentation := .default
      accumulatedArguments := none
      assistantId := none
      outcome := none }
  canonical := some ⟨0, 1, some 0⟩
  contentVersion := 1
  materializer := none

/-- A session with one user message and one file in its media directory. -/
def oneMessageSession : OpenSession where
  tables := { SessionTables.empty with
    journal := some ⟨1, none, some 0⟩
    records := (∅ : OrderedMap ℕ RecordRow).insert 0 ⟨"user", oneUserMessage⟩ }
  canonicalTail := 1
  ui := .opened ⟨"first", 1, 1, 1, none⟩ 1
  stored := (∅ : EntryMap).insert "message" oneUserEntry
  progress := 1
  media := .listed [.file "picture.png"]

/-- Every step succeeds, but the file cannot be removed. -/
def keptPicture : TruncationEvents where
  fault _ := none
  remove _ := .failed (.message "Permission denied (os error 13)")
  generation := "second"
  display := Error.display fun _ => ""
  jsonEquals _ _ := false

/-- The journal is cut, the tail in memory and the history are not, and the session goes on: the
next append is refused. -/
theorem truncation_half_done :
    ∃ t, truncateFromUserMessage keptPicture "t:1" (.messageIndex 0) oneMessageSession =
        .error (.message "Permission denied (os error 13)") t ∧
      ¬oneMessageSession.Unchanged t ∧ t.ui.failure = none ∧ t.tables.values = [] ∧
      t.canonicalTail = 1 ∧ t.stored = oneMessageSession.stored ∧
      append (fun _ => .error "") t.tables [oneUserMessage] t.canonicalTail =
        .error (.message "expected message index 1, found session tail 0") := by
  refine ⟨_, rfl, ?_, rfl, by decide +kernel, rfl, rfl, rfl⟩
  intro hunchanged
  have hjournal := congrArg SessionTables.journal hunchanged.tables
  cases hjournal

end Chelix.Sessions
