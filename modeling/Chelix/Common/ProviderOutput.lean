import Chelix.Library.Run
import Mathlib.Data.String.Basic

/-!
# Provider segments and their materializer

A provider answers with a *segment*: a list of typed output items, each with an identity and a
position.  The items arrive as a stream of updates, and `ProviderSegmentMaterializer` builds
the segment from them.  The materializer is a mutable object whose methods can fail after they
have changed it, so every method here returns its result together with the object it leaves.
-/

namespace Chelix.Common

open Chelix.Library

abbrev ProviderSegmentId := String
abbrev ProviderItemId := String
abbrev ProviderItemPosition := ℕ

/-- Terminal or active outcome of a provider segment. -/
inductive ProviderSegmentOutcome where
  | active
  | completed
  | incomplete
  | failed
  | cancelled
  | transportError
  deriving DecidableEq

/-- The `Debug` text of an outcome. -/
def ProviderSegmentOutcome.debug : ProviderSegmentOutcome → String
  | .active => "Active"
  | .completed => "Completed"
  | .incomplete => "Incomplete"
  | .failed => "Failed"
  | .cancelled => "Cancelled"
  | .transportError => "TransportError"

/-- One summary part of a structured reasoning item. -/
structure ReasoningPart where
  partIndex : ℕ
  text : String
  deriving DecidableEq

structure ReasoningItem where
  id : ProviderItemId
  outputIndex : ProviderItemPosition
  summaryParts : List ReasoningPart
  visibleText : Option String
  encryptedContent : Option String
  deriving DecidableEq

/-- Typed payload inside a provider output item. -/
inductive ProviderOutputPayload where
  | reasoning (item : ReasoningItem)
  | message (text : String)
  | functionCall (callId name arguments : String)
  deriving DecidableEq

/-- A typed output item with its identity and position. -/
structure ProviderOutputItem where
  id : ProviderItemId
  position : ProviderItemPosition
  payload : ProviderOutputPayload
  deriving DecidableEq

/-- Typed payload of an incremental stream update. -/
inductive ProviderItemUpdatePayload where
  | reasoningDelta (partIndex : ℕ) (delta : String)
  | reasoningPartDone (partIndex : ℕ) (text : String)
  | reasoningItemDone (encryptedContent : Option String)
  | reasoningText (text : String)
  | reasoningTextDelta (delta : String)
  | messageDelta (delta : String)
  | messageDone (text : String)
  | functionCallStart (name : String)
  | functionCallDelta (delta : String)
  | functionCallDone (arguments : String)
  deriving DecidableEq

/-- A stream update addressed to one item of one segment. -/
structure ProviderItemUpdate where
  segmentId : ProviderSegmentId
  itemId : ProviderItemId
  position : ProviderItemPosition
  updateSeq : ℕ
  payload : ProviderItemUpdatePayload
  deriving DecidableEq

/-- A response of the provider, or one attempt at it.  The identity is `none` until the
provider announces it. -/
structure ProviderSegment where
  segmentId : Option ProviderSegmentId
  outcome : ProviderSegmentOutcome
  items : List ProviderOutputItem
  deriving DecidableEq

namespace ProviderSegment

def new (segmentId : ProviderSegmentId) : ProviderSegment where
  segmentId := some segmentId
  outcome := .active
  items := []

def pending : ProviderSegment where
  segmentId := none
  outcome := .active
  items := []

end ProviderSegment

inductive MaterializerError where
  | closedSegmentImmutable (segmentId : String) (outcome : ProviderSegmentOutcome)
  | segmentIdMismatch (expected actual : String)
  | segmentNeverOpened
  | nonMonotonicSequence (itemId : String) (expected actual : ℕ)
  | positionIdConflict (position : ℕ) (existingId itemId : String)
  | itemPositionMismatch (itemId : String) (existingPosition specifiedPosition : ℕ)
  | payloadTypeMismatch (itemId : String)
  deriving DecidableEq

/-- The `Display` text of an error. -/
def MaterializerError.display : MaterializerError → String
  | .closedSegmentImmutable segmentId outcome =>
    "cannot update closed segment `" ++ segmentId ++ "` with outcome `" ++ outcome.debug ++ "`"
  | .segmentIdMismatch expected actual =>
    "segment id mismatch: expected `" ++ expected ++ "`, got `" ++ actual ++ "`"
  | .segmentNeverOpened => "cannot close a provider segment that was never opened"
  | .nonMonotonicSequence itemId expected actual =>
    "non-monotonic update sequence for item `" ++ itemId ++ "`: expected > " ++
      toString expected ++ ", got " ++ toString actual
  | .positionIdConflict position existingId itemId =>
    "position/id conflict: position " ++ toString position ++ " has item `" ++ existingId ++
      "`, but update is for `" ++ itemId ++ "`"
  | .itemPositionMismatch itemId existingPosition specifiedPosition =>
    "item `" ++ itemId ++ "` has position " ++ toString existingPosition ++
      ", but update specified " ++ toString specifiedPosition
  | .payloadTypeMismatch itemId => "payload type mismatch for item `" ++ itemId ++ "`"

/-! ## Items -/

/-- The payload of the item that an update creates. -/
def ProviderItemUpdate.initialPayload (update : ProviderItemUpdate) : ProviderOutputPayload :=
  let reasoning (summaryParts : List ReasoningPart) (visibleText encryptedContent : Option String) :=
    ProviderOutputPayload.reasoning
      { id := update.itemId, outputIndex := update.position, summaryParts, visibleText,
        encryptedContent }
  match update.payload with
  | .reasoningDelta partIndex delta => reasoning [⟨partIndex, delta⟩] none none
  | .reasoningPartDone partIndex text => reasoning [⟨partIndex, text⟩] none none
  | .reasoningItemDone encryptedContent => reasoning [] none encryptedContent
  | .reasoningText text => reasoning [] (some text) none
  | .reasoningTextDelta delta => reasoning [] (some delta) none
  | .messageDelta delta => .message delta
  | .messageDone text => .message text
  | .functionCallStart name => .functionCall update.itemId name ""
  | .functionCallDelta delta => .functionCall update.itemId "" delta
  | .functionCallDone arguments => .functionCall update.itemId "" arguments

def createItemFromUpdate (update : ProviderItemUpdate) : ProviderOutputItem where
  id := update.itemId
  position := update.position
  payload := update.initialPayload

/-- Changes the text of the part with this index, or adds the part and sorts again. -/
def upsertPart (partIndex : ℕ) (change : String → String) (text : String)
    (parts : List ReasoningPart) : List ReasoningPart :=
  match parts.find? fun p => p.partIndex = partIndex with
  | some _ =>
    modifyFirst (fun p => p.partIndex = partIndex) (fun p => { p with text := change p.text }) parts
  | none => sortByKey ReasoningPart.partIndex (parts ++ [⟨partIndex, text⟩])

def applyPayloadToItem (item : ProviderOutputItem) (payload : ProviderItemUpdatePayload) :
    Except MaterializerError ProviderOutputItem :=
  let set (payload : ProviderOutputPayload) : Except MaterializerError ProviderOutputItem :=
    .ok { item with payload }
  match item.payload, payload with
  | .reasoning r, .reasoningDelta partIndex delta =>
    set (.reasoning { r with
      summaryParts := upsertPart partIndex (· ++ delta) delta r.summaryParts })
  | .reasoning r, .reasoningPartDone partIndex text =>
    set (.reasoning { r with
      summaryParts := upsertPart partIndex (fun _ => text) text r.summaryParts })
  | .reasoning r, .reasoningItemDone encryptedContent =>
    set (.reasoning { r with
      encryptedContent := encryptedContent.or r.encryptedContent })
  | .reasoning r, .reasoningText text => set (.reasoning { r with visibleText := some text })
  | .reasoning r, .reasoningTextDelta delta =>
    set (.reasoning { r with visibleText := some (r.visibleText.getD "" ++ delta) })
  | .message text, .messageDelta delta => set (.message (text ++ delta))
  | .message _, .messageDone text => set (.message text)
  | .functionCall callId _ arguments, .functionCallStart name =>
    set (.functionCall callId name arguments)
  | .functionCall callId name arguments, .functionCallDelta delta =>
    set (.functionCall callId name (arguments ++ delta))
  | .functionCall callId name _, .functionCallDone arguments =>
    set (.functionCall callId name arguments)
  | _, _ => .error (.payloadTypeMismatch item.id)

/-- The item that an update addresses is found by its identity and changed in place; a new
item needs a free position, and is sorted into the list by it. -/
def applyToItems (items : List ProviderOutputItem) (update : ProviderItemUpdate) :
    Except MaterializerError (List ProviderOutputItem) :=
  match items.find? fun item => item.id = update.itemId with
  | some existing =>
    if existing.position ≠ update.position then
      .error (.itemPositionMismatch update.itemId existing.position update.position)
    else
      (applyPayloadToItem existing update.payload).map fun changed =>
        modifyFirst (fun item => item.id = update.itemId) (fun _ => changed) items
  | none =>
    match items.find? fun item => item.position = update.position with
    | some existing =>
      .error (.positionIdConflict update.position existing.id update.itemId)
    | none => .ok (sortByKey ProviderOutputItem.position (items ++ [createItemFromUpdate update]))

/-! ## The materializer -/

/-- The numbers of the last update accepted for each item. -/
abbrev UpdateSequences := Std.ExtTreeMap ProviderItemId ℕ compare

structure ProviderSegmentMaterializer where
  segment : ProviderSegment
  lastUpdateSeq : UpdateSequences

namespace ProviderSegmentMaterializer

def new (segmentId : ProviderSegmentId) : ProviderSegmentMaterializer where
  segment := ProviderSegment.new segmentId
  lastUpdateSeq := ∅

def pending : ProviderSegmentMaterializer where
  segment := ProviderSegment.pending
  lastUpdateSeq := ∅

/-- The checks of an update against the segment as a whole. -/
def checkSegment (m : ProviderSegmentMaterializer) (update : ProviderItemUpdate) :
    Except MaterializerError Unit :=
  if m.segment.outcome ≠ .active then
    .error (.closedSegmentImmutable (m.segment.segmentId.getD "") m.segment.outcome)
  else
    match m.segment.segmentId with
    | some segmentId =>
      if segmentId ≠ update.segmentId then
        .error (.segmentIdMismatch segmentId update.segmentId)
      else .ok ()
    | none => .ok ()

/-- A pending segment takes the identity that its first update announces. -/
def announce (m : ProviderSegmentMaterializer) (update : ProviderItemUpdate) :
    ProviderSegmentMaterializer :=
  match m.segment.segmentId with
  | some _ => m
  | none => { m with segment := { m.segment with segmentId := some update.segmentId } }

def checkSequence (m : ProviderSegmentMaterializer) (update : ProviderItemUpdate) :
    Except MaterializerError Unit :=
  match m.lastUpdateSeq[update.itemId]? with
  | some lastSeq =>
    if update.updateSeq ≤ lastSeq then
      .error (.nonMonotonicSequence update.itemId lastSeq update.updateSeq)
    else .ok ()
  | none => .ok ()

def recordSequence (m : ProviderSegmentMaterializer) (update : ProviderItemUpdate) :
    ProviderSegmentMaterializer :=
  { m with lastUpdateSeq := m.lastUpdateSeq.insert update.itemId update.updateSeq }

def setItems (m : ProviderSegmentMaterializer) (items : List ProviderOutputItem) :
    ProviderSegmentMaterializer :=
  { m with segment := { m.segment with items } }

/-- Applies an item update.  A refused update can leave its announced identity and its number
behind: both are stored before the items are looked at. -/
def applyUpdate (m : ProviderSegmentMaterializer) (update : ProviderItemUpdate) :
    Except MaterializerError Unit × ProviderSegmentMaterializer :=
  match m.checkSegment update with
  | .error e => (.error e, m)
  | .ok () =>
    let m := m.announce update
    match m.checkSequence update with
    | .error e => (.error e, m)
    | .ok () =>
      let m := m.recordSequence update
      match applyToItems m.segment.items update with
      | .error e => (.error e, m)
      | .ok items => (.ok (), m.setItems items)

/-- Marks the segment completed, failed, etc. -/
def close (m : ProviderSegmentMaterializer) (outcome : ProviderSegmentOutcome) :
    Except MaterializerError Unit × ProviderSegmentMaterializer :=
  match m.segment.segmentId with
  | none => (.error .segmentNeverOpened, m)
  | some segmentId =>
    if m.segment.outcome ≠ .active then
      (.error (.closedSegmentImmutable segmentId m.segment.outcome), m)
    else (.ok (), { m with segment := { m.segment with outcome } })

/-- A call of one of the two methods that change a materializer. -/
inductive Call where
  | applyUpdate (update : ProviderItemUpdate)
  | close (outcome : ProviderSegmentOutcome)

def call (m : ProviderSegmentMaterializer) :
    Call → Except MaterializerError Unit × ProviderSegmentMaterializer
  | .applyUpdate update => m.applyUpdate update
  | .close outcome => m.close outcome

/-- The materializer that a list of calls leaves, whatever they return. -/
def calls (m : ProviderSegmentMaterializer) (cs : List Call) : ProviderSegmentMaterializer :=
  cs.foldl (fun m c => (m.call c).2) m

theorem calls_append (m : ProviderSegmentMaterializer) (cs cs' : List Call) :
    m.calls (cs ++ cs') = (m.calls cs).calls cs' :=
  List.foldl_append ..

/-- The updates that a list of calls gets accepted. -/
def accepted (m : ProviderSegmentMaterializer) : List Call → List ProviderItemUpdate
  | [] => []
  | .applyUpdate update :: cs =>
    match m.applyUpdate update with
    | (.ok (), m') => update :: m'.accepted cs
    | (.error _, m') => m'.accepted cs
  | .close outcome :: cs => (m.close outcome).2.accepted cs

end ProviderSegmentMaterializer

end Chelix.Common
