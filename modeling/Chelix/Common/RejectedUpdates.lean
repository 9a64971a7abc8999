import Chelix.Common.ProviderOutput

/-!
# Rejected updates of a segment

An update that is rejected by the checks of its segment leaves the materializer as it was.  Later
checks come after the announced identity and the number of the update are stored.
-/

namespace Chelix.Common

open Chelix.Library

/-! ## Updates that the items accept -/

/-- The payload of an item and that of an update are of one kind. -/
def SameKind : ProviderOutputPayload → ProviderItemUpdatePayload → Bool
  | .reasoning _, .reasoningDelta _ _ | .reasoning _, .reasoningPartDone _ _
  | .reasoning _, .reasoningItemDone _ | .reasoning _, .reasoningText _
  | .reasoning _, .reasoningTextDelta _ => true
  | .message _, .messageDelta _ | .message _, .messageDone _ => true
  | .functionCall _ _ _, .functionCallStart _ | .functionCall _ _ _, .functionCallDelta _
  | .functionCall _ _ _, .functionCallDone _ => true
  | _, _ => false

/-- The item with the identity of an update has its position and its kind; without one, the
position is free. -/
def Fits (items : List ProviderOutputItem) (update : ProviderItemUpdate) : Prop :=
  match items.find? fun item => item.id = update.itemId with
  | some existing =>
    existing.position = update.position ∧ SameKind existing.payload update.payload = true
  | none => ∀ item ∈ items, item.position ≠ update.position

theorem applyPayloadToItem_ok_iff (item : ProviderOutputItem)
    (payload : ProviderItemUpdatePayload) :
    (∃ changed, applyPayloadToItem item payload = .ok changed) ↔
      SameKind item.payload payload = true := by
  unfold applyPayloadToItem SameKind
  cases item.payload <;> cases payload <;> simp

theorem applyToItems_ok_iff (items : List ProviderOutputItem) (update : ProviderItemUpdate) :
    (∃ changed, applyToItems items update = .ok changed) ↔ Fits items update := by
  unfold applyToItems Fits
  cases items.find? fun item => item.id = update.itemId with
  | some existing =>
    dsimp only
    by_cases hposition : existing.position = update.position
    · rw [if_neg (not_not.mpr hposition), ← applyPayloadToItem_ok_iff]
      cases applyPayloadToItem existing update.payload with
      | ok changed => exact ⟨fun _ => ⟨hposition, changed, rfl⟩, fun _ => ⟨_, rfl⟩⟩
      | error e =>
        constructor
        · rintro ⟨_, h⟩
          cases h
        · rintro ⟨-, _, h⟩
          cases h
    · rw [if_pos hposition]
      constructor
      · rintro ⟨_, h⟩
        cases h
      · rintro ⟨h, -⟩
        exact absurd h hposition
  | none =>
    cases hfind : items.find? fun item => item.position = update.position with
    | some existing =>
      constructor
      · rintro ⟨_, h⟩
        cases h
      · intro hfree
        have hposition := List.find?_some hfind
        exact absurd (of_decide_eq_true hposition) (hfree existing (List.mem_of_find?_eq_some hfind))
    | none =>
      refine ⟨fun _ item hitem hposition => ?_, fun _ => ⟨_, rfl⟩⟩
      have hnone := List.find?_eq_none.mp hfind item hitem
      exact hnone (decide_eq_true hposition)

/-! ## Rejections -/

namespace ProviderSegmentMaterializer

/-- Where a rejected update leaves nothing behind: the segment as a whole rejects it, or its number
is stale and the segment has its identity, or it is not rejected. -/
def RejectsCleanly (m : ProviderSegmentMaterializer) (update : ProviderItemUpdate) : Prop :=
  m.checkSegment update = .ok () →
    match m.checkSequence update with
    | .error _ => m.segment.segmentId ≠ none
    | .ok () => Fits m.segment.items update

variable (m : ProviderSegmentMaterializer) (update : ProviderItemUpdate)

theorem checkSequence_announce :
    (m.announce update).checkSequence update = m.checkSequence update := by
  unfold announce
  cases m.segment.segmentId with
  | none | some segmentId => rfl

theorem items_announce :
    (m.announce update).segment.items = m.segment.items := by
  unfold announce
  cases m.segment.segmentId with
  | none | some segmentId => rfl

theorem announce_eq_iff :
    m.announce update = m ↔ m.segment.segmentId ≠ none := by
  unfold announce
  cases hid : m.segment.segmentId with
  | some segmentId => exact ⟨fun _ => nofun, fun _ => rfl⟩
  | none =>
    constructor
    · intro h
      have hsome := congrArg (fun m => m.segment.segmentId) h
      rw [hid] at hsome
      cases hsome
    · intro h
      exact absurd rfl h

theorem recordSequence_ne {m : ProviderSegmentMaterializer} {update : ProviderItemUpdate}
    (hsequence : m.checkSequence update = .ok ()) :
    (m.announce update).recordSequence update ≠ m := by
  intro heq
  have hget : m.lastUpdateSeq[update.itemId]? = some update.updateSeq := by
    have hinsert : ((m.announce update).recordSequence update).lastUpdateSeq[update.itemId]? =
        some update.updateSeq := Std.ExtTreeMap.getElem?_insert_self
    rwa [heq] at hinsert
  unfold checkSequence at hsequence
  rw [hget] at hsequence
  dsimp only at hsequence
  rw [if_pos le_rfl] at hsequence
  cases hsequence

/-- **A rejected update leaves the materializer as it was** exactly where its segment rejects it,
or its number does in a segment that has its identity. -/
theorem rejected_unchanged_iff (m : ProviderSegmentMaterializer) (update : ProviderItemUpdate) :
    ((∃ e, (m.applyUpdate update).1 = .error e) → (m.applyUpdate update).2 = m) ↔
      m.RejectsCleanly update := by
  unfold applyUpdate RejectsCleanly
  cases m.checkSegment update with
  | error e => exact ⟨fun _ => nofun, fun _ _ => rfl⟩
  | ok u =>
    dsimp only
    rw [checkSequence_announce]
    cases hsequence : m.checkSequence update with
    | error e =>
      dsimp only
      rw [announce_eq_iff]
      exact ⟨fun h _ => h ⟨e, rfl⟩, fun h _ => h rfl⟩
    | ok u =>
      dsimp only
      have hitems : ((m.announce update).recordSequence update).segment.items = m.segment.items :=
        items_announce m update
      rw [hitems, ← applyToItems_ok_iff]
      cases applyToItems m.segment.items update with
      | ok items => exact ⟨fun _ _ => ⟨items, rfl⟩, fun _ ⟨e, h⟩ => nomatch h⟩
      | error e =>
        dsimp only
        constructor
        · intro h
          exact absurd (h ⟨e, rfl⟩) (recordSequence_ne hsequence)
        · intro h
          obtain ⟨_, h⟩ := h rfl
          cases h

/-! ## An update at a wrong position -/

/-- An update of a message at a position. -/
def deltaAt (position : ProviderItemPosition) (updateSeq : ℕ) : ProviderItemUpdate where
  segmentId := "segment"
  itemId := "item"
  position := position
  updateSeq := updateSeq
  payload := .messageDelta "text"

/-- A segment that its first update has opened. -/
def openedSegment : ProviderSegmentMaterializer := (pending.applyUpdate (deltaAt 0 0)).2

/-- The number of the rejected update is kept: the same update at the right position, which would
have been accepted, is refused after it. -/
theorem wrong_position_kept :
    (openedSegment.applyUpdate (deltaAt 1 1)).1 = .error (.itemPositionMismatch "item" 0 1) ∧
      (openedSegment.applyUpdate (deltaAt 1 1)).2 ≠ openedSegment ∧
      (openedSegment.applyUpdate (deltaAt 0 1)).1 = .ok () ∧
      ((openedSegment.applyUpdate (deltaAt 1 1)).2.applyUpdate (deltaAt 0 1)).1 =
        .error (.nonMonotonicSequence "item" 1 1) := by
  refine ⟨rfl, fun heq => ?_, rfl, rfl⟩
  have hsequence := congrArg (fun m : ProviderSegmentMaterializer => m.lastUpdateSeq["item"]?) heq
  cases hsequence

end ProviderSegmentMaterializer

end Chelix.Common
