import Chelix.Sessions.HistoryPages

/-!
# Delivery of a semantic history

A subscription answers with a page and then delivers frames: the updates since the last frame, or a
page where there are too many of them or the generation has changed.  The published revision, the
updates and the page are read one after another, with awaits between; the session changes
meanwhile.
-/

namespace Chelix.Gateway

open Chelix.Library Chelix.Sessions

inductive HistoryFrame where
  | snapshot (page : UiHistoryPage)
  | update (batch : UiHistoryBatch)

namespace HistoryFrame

def generation : HistoryFrame → UiGeneration
  | .snapshot page => page.generation
  | .update batch => batch.generation

def revision : HistoryFrame → ℕ
  | .snapshot page => page.revision
  | .update batch => batch.revision

end HistoryFrame

/-- The target of a range around a message: the generation it was found in, and its position. -/
structure AroundTarget where
  generation : UiGeneration
  position : ℕ

inductive DeliveryPhase where
  | waiting
  /-- A change is published, and the loop waits for room in the queue of the client. -/
  | reserving
  | updating (current : UiHistoryRevision)
  | updateRows (current : UiHistoryRevision) (committed : ℕ)
  | updateMerge (current : UiHistoryRevision) (committed : ℕ) (rows : List UiEntry)
  | paging
  /-- The target of the range is looked up. -/
  | entryLook (messageId : UiMessageId) (target : UiGeneration)
  | entryRows (messageId : UiMessageId) (target generation : UiGeneration) (committed : ℕ)
  | entryMerge (messageId : UiMessageId) (target generation : UiGeneration) (committed : ℕ)
      (stored : Option UiEntry)
  | pageLook (target : Option AroundTarget)
  | pageRows (target : Option AroundTarget) (bounds : PageBounds) (generation : UiGeneration)
      (committed : ℕ)
  | pageMerge (target : Option AroundTarget) (bounds : PageBounds) (generation : UiGeneration)
      (committed : ℕ) (rows : List UiEntry)
  | failed (error : Error)

structure Delivery where
  limit : ℕ
  generation : UiGeneration
  revision : ℕ
  selectedRange : UiHistoryRange
  /-- The version of the channel that was seen last. -/
  seen : ℕ
  frames : List HistoryFrame
  phase : DeliveryPhase

/-- The subscription has started to watch the session, and its first page is to be read. -/
def Delivery.subscribe (version : ℕ) (range : UiHistoryRange) (limit : ℕ) : Delivery where
  limit
  generation := ""
  revision := 0
  selectedRange := range
  seen := version
  frames := []
  phase := .paging

namespace Delivery

variable (s : HistorySession) (d : Delivery)

def fail (error : Error) : Delivery := { d with phase := .failed error }

/-- A section of the session that fails once the session has. -/
def check (next : Delivery) : Delivery :=
  match s.state.failure with
  | some failure => d.fail (.message failure)
  | none => next

/-- There is no batch: a page is read, the latest one if the published generation was another. -/
def reread (current : UiHistoryRevision) : Delivery :=
  { d with
    selectedRange := if current.generation ≠ d.generation then .latest else d.selectedRange
    phase := .paging }

/-- The published revision is read. -/
def borrow : Delivery :=
  let d := { d with seen := s.version }
  match s.published.failure with
  | some failure => d.fail (.message failure)
  | none =>
    if s.published.generation = d.generation ∧ s.published.revision ≤ d.revision then
      { d with phase := .waiting }
    else { d with phase := .updating s.published }

def sendBatch (batch : UiHistoryBatch) : Delivery :=
  { d with
    revision := batch.revision
    frames := d.frames ++ [.update batch]
    phase := .waiting }

def sendPage (page : UiHistoryPage) : Delivery :=
  { d with
    generation := page.generation
    revision := page.revision
    frames := d.frames ++ [.snapshot page]
    phase := .waiting }

/-- `updates_since`, up to the read of the rows. -/
def update (current : UiHistoryRevision) : Delivery :=
  d.check s <|
    if s.state.generation ≠ d.generation then d.reread current
    else if s.state.revision < d.revision then
      d.fail (.message "UI revision is ahead of the server")
    else { d with phase := .updateRows current s.state.committedRevision }

def updateMerge (current : UiHistoryRevision) (committed : ℕ) (rows : List UiEntry) : Delivery :=
  d.check s <|
    if s.state.generation ≠ d.generation then d.reread current
    else if s.state.committedRevision ≠ committed then { d with phase := .updating current }
    else
      match assembleUpdates s.state d.revision d.limit rows with
      | some batch => d.sendBatch batch
      | none => d.reread current

def entryLook (messageId : UiMessageId) (target : UiGeneration) : Delivery :=
  d.check s <|
    match s.state.entries[messageId]? with
    | some entry => { d with phase := .pageLook (some ⟨target, entry.snapshot.position⟩) }
    | none =>
      { d with phase := .entryRows messageId target s.state.generation s.state.committedRevision }

/-- The end of the look-up: the entry in memory, or else the stored one. -/
def entryMerge (messageId : UiMessageId) (target generation : UiGeneration) (committed : ℕ)
    (stored : Option UiEntry) : Delivery :=
  d.check s <|
    if s.state.generation ≠ generation then d.fail (.message "UI history generation changed")
    else if s.state.committedRevision ≠ committed then
      { d with phase := .entryLook messageId target }
    else
      match s.state.entries[messageId]?.or stored with
      | some entry => { d with phase := .pageLook (some ⟨target, entry.snapshot.position⟩) }
      | none => d.fail (.message "UI history target was removed")

/-- The positions of a range become columns only when the rows are read; their conversion is part of
this step. -/
def pageLook (target : Option AroundTarget) : Delivery :=
  d.check s <|
    if target.any fun target => s.state.generation ≠ target.generation then
      d.fail (.message "UI history generation changed")
    else
      match d.selectedRange.bounds (target.map AroundTarget.position) with
      | .error error => d.fail error
      | .ok bounds =>
        match bounds.columns with
        | .error error => d.fail error
        | .ok _ =>
          { d with
            phase := .pageRows target bounds s.state.generation s.state.committedRevision }

def pageMerge (target : Option AroundTarget) (bounds : PageBounds) (generation : UiGeneration)
    (committed : ℕ) (rows : List UiEntry) : Delivery :=
  d.check s <|
    if s.state.generation ≠ generation ∨ s.state.committedRevision ≠ committed then
      { d with phase := .pageLook target }
    else d.sendPage (assemblePage s.state bounds d.limit rows)

/-- The next step of the loop, if it is not waiting for a change. -/
def next : Option Delivery :=
  match d.phase with
  | .waiting => if s.version = d.seen then none else some { d with phase := .reserving }
  | .reserving => some (d.borrow s)
  | .updating current => some (d.update s current)
  | .updateRows current committed =>
    some { d with
      phase := .updateMerge current committed
        (if d.revision < committed then storedSince s.stored d.revision (d.limit + 1) else []) }
  | .updateMerge current committed rows => some (d.updateMerge s current committed rows)
  | .paging =>
    match d.selectedRange with
    | .around messageId => some { d with phase := .entryLook messageId s.state.generation }
    | _ => some { d with phase := .pageLook none }
  | .entryLook messageId target => some (d.entryLook s messageId target)
  | .entryRows messageId target generation committed =>
    some { d with
      phase := .entryMerge messageId target generation committed s.stored[messageId]? }
  | .entryMerge messageId target generation committed stored =>
    some (d.entryMerge s messageId target generation committed stored)
  | .pageLook target => some (d.pageLook s target)
  | .pageRows target bounds generation committed =>
    some { d with
      phase := .pageMerge target bounds generation committed
        (storedPage s.stored bounds d.limit) }
  | .pageMerge target bounds generation committed rows =>
    some (d.pageMerge s target bounds generation committed rows)
  | .failed _ => none

end Delivery

structure HistoryRun where
  session : HistorySession
  delivery : Delivery

inductive HistoryEvent where
  | change
  | deliver
  deriving DecidableEq

inductive HistoryStep (r : HistoryRun) : HistoryEvent → HistoryRun → Prop
  | change {session : HistorySession} (hstep : SessionStep r.session session) :
      HistoryStep r .change { r with session }
  | deliver {delivery : Delivery} (hnext : r.delivery.next r.session = some delivery) :
      HistoryStep r .deliver { r with delivery }

end Chelix.Gateway
