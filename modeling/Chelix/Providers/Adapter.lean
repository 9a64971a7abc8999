import Chelix.Agents.Model.StreamEvent
import Chelix.Common.ItemPositions

/-!
# What both adapters keep

The adapters of the two wire protocols turn data lines into stream events.  Each keeps the
segment it has opened, the number of its last update and the positions it has handed out, and
adds a state of its own.  The events are those emitted since the stream began: no function of
an adapter reads them.
-/

namespace Chelix.Providers

open Chelix.Agents.Model Chelix.Common

/-- The state that both adapters have. -/
structure SegmentState where
  segmentId : ProviderSegmentId
  segmentStarted : Bool
  /-- Set once the segment has been closed by a terminal outcome. -/
  segmentClosed : Bool
  nextSeq : ℕ
  itemPositions : ItemPositionAllocator
  usage : Usage

def SegmentState.new (segmentId : ProviderSegmentId) : SegmentState where
  segmentId := segmentId
  segmentStarted := false
  segmentClosed := false
  nextSeq := 0
  itemPositions := .empty
  usage := .zero

structure Adapter (σ : Type) where
  segment : SegmentState
  own : σ
  events : List StreamEvent

namespace Adapter

variable {σ : Type}

def push (a : Adapter σ) (event : StreamEvent) : Adapter σ :=
  { a with events := a.events ++ [event] }

/-- The segment is opened by the first event, under the identity this announces. -/
def startSegment (a : Adapter σ) (announced : Option String) : Adapter σ :=
  if a.segment.segmentStarted then a
  else
    let segmentId := announced.getD a.segment.segmentId
    { a with
      segment := { a.segment with segmentStarted := true, segmentId }
      events := a.events ++ [.segmentStart segmentId] }

/-- The update of an item that is emitted next. -/
def nextUpdate (a : Adapter σ) (itemId : ProviderItemId) (payload : ProviderItemUpdatePayload) :
    ProviderItemUpdate where
  segmentId := a.segment.segmentId
  itemId := itemId
  position := (a.segment.itemPositions.positionFor itemId).1
  updateSeq := a.segment.nextSeq + 1
  payload := payload

/-- Emits an update under the next number and the position of its item. -/
def emitItem (a : Adapter σ) (itemId : ProviderItemId) (payload : ProviderItemUpdatePayload) :
    Adapter σ :=
  { a with
    segment := { a.segment with
      nextSeq := a.segment.nextSeq + 1
      itemPositions := (a.segment.itemPositions.positionFor itemId).2 }
    events := a.events ++ [.providerItemUpdate (a.nextUpdate itemId payload)] }

def closeSegment (a : Adapter σ) (outcome : ProviderSegmentOutcome) (usage : Option Usage) :
    Adapter σ :=
  { a with
    segment := { a.segment with segmentClosed := true }
    events := a.events ++ [.segmentClose a.segment.segmentId outcome usage] }

/-- A segment is open from its start to its close. -/
def isOpen (a : Adapter σ) : Bool := a.segment.segmentStarted && !a.segment.segmentClosed

/-- Closes the segment as failed, only if it was opened, and reports the error. -/
def fail (a : Adapter σ) (detail : String) : Adapter σ :=
  if a.isOpen then (a.closeSegment .failed none).push (.error detail)
  else a.push (.error detail)

/-- Closes the segment because the transport failed in the middle of the response. -/
def closeOnTransportError (a : Adapter σ) : Adapter σ :=
  if a.isOpen then a.closeSegment .transportError (some a.segment.usage) else a

def setUsage (a : Adapter σ) (usage : Option Usage) : Adapter σ :=
  { a with segment := { a.segment with usage := usage.getD a.segment.usage } }

def setOwn (a : Adapter σ) (own : σ) : Adapter σ := { a with own }

@[simp] theorem own_push (a : Adapter σ) (event : StreamEvent) : (a.push event).own = a.own := rfl

@[simp] theorem own_emitItem (a : Adapter σ) (itemId : ProviderItemId)
    (payload : ProviderItemUpdatePayload) : (a.emitItem itemId payload).own = a.own := rfl

@[simp] theorem own_setOwn (a : Adapter σ) (own : σ) : (a.setOwn own).own = own := rfl

end Adapter

/-- The error text of an error event: the message, or the whole error object where it carries
an error class. -/
def providerErrorText (evt : Library.Json) : String :=
  let nestedError := ((evt.get "error").filter Library.Json.isObject).or
    (((evt.get "response").bind (·.get "error")).filter Library.Json.isObject)
  let error := nestedError.or (if (evt.index "type").asStr = some "error" then some evt else none)
  let msg := ((error.bind (·.get "message")).bind Library.Json.asStr).or
    (evt.index "message").asStr |>.getD "unknown error"
  let hasErrorClass :=
    (nestedError.any fun error =>
      ["code", "type"].any fun field => ((error.get field).bind Library.Json.asStr).isSome) ||
    ((evt.get "code").bind Library.Json.asStr).isSome
  if hasErrorClass then error.elim msg Library.Json.toText else msg

end Chelix.Providers
