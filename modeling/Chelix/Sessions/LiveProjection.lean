import Chelix.Common.Materialization
import Chelix.Sessions.UiHistorySections

/-!
# Projecting the records of a live run

The records that a run copies are updates and closes of segments, and lifecycle events of tools.
Each leaves its mark on the entry of its message: an update the number of its item, a close the
outcome of its segment, an event its number.  A record whose mark is there is not projected
again when its journal receipt arrives.
-/

namespace Chelix.Sessions

open Chelix.Library Chelix.Common Option UiMessageId ProviderSegmentMaterializer

/-! ## What the journal does not change -/

/-- An entry without its binding, its flag and its revision, apart from whether it was stored
before. -/
def UiEntry.shown (entry : UiEntry) : UiEntry :=
  { entry with
    canonical := none
    snapshot :=
      { entry.snapshot with
        canonicalCommitted := false
        revision := min entry.snapshot.revision 1 } }

theorem projectUpdate_shown (entry : UiEntry) (update : ProviderItemUpdate)
    (createdAt seq : Option ℕ) (runId : Option String) (ingress : UiIngress)
    (run : Option UiRunMetadata) :
    projectUpdate entry.shown update createdAt seq runId ingress run =
      (projectUpdate entry update createdAt seq runId ingress run).map
        (Option.map UiEntry.shown) := by
  unfold projectUpdate
  simp only [show entry.shown.materializer = entry.materializer from rfl,
    show entry.shown.assistant = entry.assistant from rfl]
  split
  · rfl
  · split <;> rfl

theorem projectClose_shown (entry : UiEntry) (segmentId : ProviderSegmentId)
    (outcome : ProviderSegmentOutcome) (ingress : UiIngress) (run : Option UiRunMetadata) :
    projectClose entry.shown segmentId outcome ingress run =
      (projectClose entry segmentId outcome ingress run).map (Option.map UiEntry.shown) := by
  unfold projectClose
  simp only [show entry.shown.materializer = entry.materializer from rfl]
  split
  · rfl
  · split
    · rfl
    · rename_i materializer _
      cases hassistant : entry.assistant.isSome with
      | true =>
        have hshown : ({ entry.shown with materializer := some materializer } :
            UiEntry).assistant.isSome = true := hassistant
        have hentry : ({ entry with materializer := some materializer } :
            UiEntry).assistant.isSome = true := hassistant
        simp only [hshown, hentry, if_true]
        rfl
      | false =>
        have hshown : ({ entry.shown with materializer := some materializer } :
            UiEntry).assistant.isSome = false := hassistant
        have hentry : ({ entry with materializer := some materializer } :
            UiEntry).assistant.isSome = false := hassistant
        simp only [hshown, hentry, Bool.false_eq_true, if_false]
        rfl

theorem projectLifecycle_shown (entry : UiEntry) (record : UiRecord)
    (lifecycle : ToolLifecycleEvent) (ingress : UiIngress) :
    projectLifecycle entry.shown record lifecycle ingress =
      (projectLifecycle entry record lifecycle ingress).map (Option.map UiEntry.shown) := by
  have hrevision : entry.shown.snapshot.revision > 0 ↔ entry.snapshot.revision > 0 := by
    change min entry.snapshot.revision 1 > 0 ↔ _
    omega
  unfold projectLifecycle
  simp only [show entry.shown.lifecycle = entry.lifecycle from rfl, hrevision]
  split
  · cases ingress <;> rfl
  · cases lifecycle.update <;> rfl

theorem projectAssistant_shown (entry : UiEntry) (record : UiRecord)
    (message : AssistantMessage) :
    projectAssistant entry.shown record message =
      (projectAssistant entry record message).map (Option.map UiEntry.shown) := by
  unfold projectAssistant
  simp only [show entry.shown.materializer = entry.materializer from rfl]
  split <;> rfl

/-- **A projection looks only at what is shown.** -/
theorem project_shown (entry : UiEntry) (record : UiRecord) (ingress : UiIngress)
    (run : Option UiRunMetadata) :
    Sessions.project entry.shown record ingress run =
      (Sessions.project entry record ingress run).map (Option.map UiEntry.shown) := by
  unfold Sessions.project
  cases hmessage : record.withoutLlmApiResponse.message with
  | system _ _ | notice _ _ | checkpoint _ | user _ | tool _ _ _ =>
    simp only [hmessage]
    rfl
  | assistant message =>
    simp only [hmessage]
    exact projectAssistant_shown entry _ message
  | toolLifecycle lifecycle =>
    simp only [hmessage]
    exact projectLifecycle_shown entry _ lifecycle ingress
  | providerUpdate update createdAt seq runId =>
    simp only [hmessage]
    exact projectUpdate_shown entry update createdAt seq runId ingress run
  | providerSegmentClose segmentId outcome _ _ _ =>
    simp only [hmessage]
    exact projectClose_shown entry segmentId outcome ingress run

/-! ## Messages of live records -/

/-- The message that a record of a live run belongs to. -/
def liveId : PersistedMessage → Option UiMessageId
  | .providerUpdate update _ _ _ => some (.segment update.segmentId)
  | .providerSegmentClose segmentId _ _ _ _ => some (.segment segmentId)
  | .toolLifecycle lifecycle => lifecycle.runId.map fun runId => .tool runId lifecycle.toolCallId
  | _ => none

/-- The segment that a record closes, and the outcome. -/
def closeOf : PersistedMessage → Option (ProviderSegmentId × ProviderSegmentOutcome)
  | .providerSegmentClose segmentId outcome _ _ _ => some (segmentId, outcome)
  | _ => none

variable {message : PersistedMessage} {id : UiMessageId}

theorem identity_ofMessage {parseUuid : String → Except String String}
    (h : liveId message = some id) : identity parseUuid (.ofMessage message) = .ok (some id) := by
  cases message with
  | providerUpdate update _ _ _ | providerSegmentClose segmentId _ _ _ _ =>
    cases h
    rfl
  | toolLifecycle lifecycle =>
    obtain ⟨runId, hrun, rfl⟩ := map_eq_some_iff.mp h
    unfold identity
    simp only [UiRecord.ofMessage, hrun]
  | _ => cases h

theorem segment_ne_tool (segmentId : ProviderSegmentId) (runId callId : String) :
    UiMessageId.segment segmentId ≠ UiMessageId.tool runId callId := by
  intro h
  have hlist := congrArg String.toList h
  unfold UiMessageId.segment UiMessageId.tool at hlist
  simp only [String.toList_append] at hlist
  exact absurd (congrArg List.head? hlist) (by simp)

theorem segment_injective {a b : ProviderSegmentId}
    (h : UiMessageId.segment a = UiMessageId.segment b) : a = b := by
  have hlist := congrArg String.toList h
  unfold UiMessageId.segment at hlist
  rw [String.toList_append, String.toList_append] at hlist
  exact String.toList_inj.mp (List.append_cancel_left hlist)

/-! ## Marks -/

/-- The mark that a copied record leaves on the entry of its message.  A close without an outcome
may have been followed by one with an outcome. -/
def Marked (copied : List PersistedMessage) (entry : UiEntry) : PersistedMessage → Prop
  | .providerUpdate update _ _ _ => ∃ materializer sequence,
      entry.materializer = some materializer ∧
      materializer.lastUpdateSeq[update.itemId]? = some sequence ∧ update.updateSeq ≤ sequence
  | .providerSegmentClose segmentId outcome _ _ _ => ∃ materializer,
      entry.materializer = some materializer ∧
      (materializer.segment.outcome = outcome ∨
        (outcome = .active ∧ ∃ later ∈ copied,
          closeOf later = some (segmentId, materializer.segment.outcome)))
  | .toolLifecycle lifecycle => ∃ previous, entry.lifecycle = some previous ∧
      lifecycle.sequence ≤ previous.sequence ∧ 0 < entry.snapshot.revision
  | _ => False

theorem Marked.congr {copied copied' : List PersistedMessage} {entry entry' : UiEntry}
    (h : Marked copied entry message) (hsub : ∀ m ∈ copied, m ∈ copied')
    (hmaterializer : entry'.materializer = entry.materializer)
    (hcontent : entry'.snapshot.content = entry.snapshot.content)
    (hrevision : 0 < entry.snapshot.revision → 0 < entry'.snapshot.revision) :
    Marked copied' entry' message := by
  cases message with
  | providerUpdate update _ _ _ =>
    obtain ⟨materializer, sequence, hm, hrest⟩ := h
    exact ⟨materializer, sequence, hmaterializer.trans hm, hrest⟩
  | providerSegmentClose segmentId outcome _ _ _ =>
    obtain ⟨materializer, hm, hsame | ⟨hactive, later, hmem, hclose⟩⟩ := h
    · exact ⟨materializer, hmaterializer.trans hm, .inl hsame⟩
    · exact ⟨materializer, hmaterializer.trans hm, .inr ⟨hactive, later, hsub later hmem, hclose⟩⟩
  | toolLifecycle lifecycle =>
    obtain ⟨previous, hprevious, hsequence, hpositive⟩ := h
    refine ⟨previous, ?_, hsequence, hrevision hpositive⟩
    rw [← hprevious]
    unfold UiEntry.lifecycle
    rw [hcontent]
  | _ => exact h

/-! ## What live copies do to marks -/

section Copy

variable {entry entry' : UiEntry} {ingress : UiIngress} {run : Option UiRunMetadata}

theorem projectUpdate_some {update : ProviderItemUpdate} {createdAt seq : Option ℕ}
    {runId : Option String}
    (h : projectUpdate entry update createdAt seq runId ingress run = .ok (some entry')) :
    ∃ materializer, Accepts (entry.materializer.getD (.new update.segmentId)) update materializer ∧
      entry'.materializer = some materializer := by
  unfold projectUpdate at h
  simp only at h
  split at h
  · cases h
  · split at h
    · cases h
    · rename_i materializer happly
      cases h
      exact ⟨materializer, happly, rfl⟩

theorem projectClose_some {segmentId : ProviderSegmentId} {outcome : ProviderSegmentOutcome}
    (h : projectClose entry segmentId outcome ingress run = .ok (some entry')) :
    ∃ materializer, (entry.materializer.getD (.new segmentId)).close outcome =
        (.ok (), materializer) ∧ entry'.materializer = some materializer := by
  unfold projectClose at h
  simp only at h
  split at h
  · cases h
  · split at h
    · cases h
    · rename_i materializer hclose
      cases h
      refine ⟨materializer, hclose, ?_⟩
      split <;> rfl

theorem projectLifecycle_some {record : UiRecord} {lifecycle : ToolLifecycleEvent}
    (h : projectLifecycle entry record lifecycle ingress = .ok (some entry')) :
    (∀ previous, entry.lifecycle = some previous → 0 < entry.snapshot.revision →
      previous.sequence < lifecycle.sequence) ∧ entry'.snapshot.content = .record record := by
  unfold projectLifecycle at h
  split at h
  · split at h <;> cases h
  · rename_i hlater
    cases h
    refine ⟨fun previous hprevious hpositive => ?_, ?_⟩
    · rw [hprevious] at hlater
      simp only [any_some, Bool.and_eq_true, decide_eq_true_eq, not_and] at hlater
      have := hlater hpositive
      omega
    · split <;> rfl

theorem lastUpdateSeq_lt_of_accepts {m m' : ProviderSegmentMaterializer}
    {update : ProviderItemUpdate} (h : Accepts m update m') {sequence : ℕ}
    (hlast : m.lastUpdateSeq[update.itemId]? = some sequence) : sequence < update.updateSeq := by
  unfold Accepts applyUpdate at h
  cases hseg : m.checkSegment update with
  | error e => simp [hseg] at h
  | ok =>
    simp only [hseg] at h
    have hannounce : (m.announce update).lastUpdateSeq = m.lastUpdateSeq := by
      unfold announce
      cases m.segment.segmentId <;> rfl
    unfold checkSequence at h
    rw [hannounce, hlast] at h
    by_contra hle
    simp only [if_pos (Nat.le_of_not_lt hle)] at h
    cases h

theorem close_ok {m m' : ProviderSegmentMaterializer} {outcome : ProviderSegmentOutcome}
    (h : m.close outcome = (.ok (), m')) :
    m.segment.outcome = .active ∧ m' = { m with segment := { m.segment with outcome } } := by
  unfold close at h
  split at h
  · cases h
  · split at h
    · cases h
    · rename_i hactive
      cases h
      exact ⟨not_not.mp hactive, rfl⟩

theorem withoutLlmApiResponse_ofMessage (h : liveId message = some id) :
    (UiRecord.ofMessage message).withoutLlmApiResponse = .ofMessage message := by
  cases message with
  | assistant _ => cases h
  | _ => rfl

theorem marked_of_project {copied : List PersistedMessage} {stored : UiEntry}
    (hid : liveId message = some id)
    (h : Sessions.project entry (.ofMessage message) .live run = .ok (some entry'))
    (hmaterializer : stored.materializer = entry'.materializer)
    (hcontent : stored.snapshot.content = entry'.snapshot.content)
    (hrevision : 0 < stored.snapshot.revision) :
    Marked (copied ++ [message]) stored message ∧
      ∀ earlier, liveId earlier = some id → Marked copied entry earlier →
        Marked (copied ++ [message]) stored earlier := by
  unfold Sessions.project at h
  rw [withoutLlmApiResponse_ofMessage hid] at h
  cases message with
  | providerUpdate update createdAt seq runId =>
    obtain ⟨materializer, haccepts, hm⟩ := projectUpdate_some h
    have hstep := acceptedStep_of_accepts haccepts
    have hstored : stored.materializer = some materializer := hmaterializer.trans hm
    refine ⟨⟨materializer, update.updateSeq, hstored, ?_, Nat.le_refl _⟩, ?_⟩
    · rw [hstep.lastUpdateSeq]
      exact Std.ExtTreeMap.getElem?_insert_self
    · intro earlier hearlier hmark
      cases earlier with
      | providerUpdate update₀ _ _ _ =>
        obtain ⟨m₀, sequence, hm₀, hsequence, hle⟩ := hmark
        rw [hm₀, getD_some] at haccepts hstep
        by_cases hitem : update.itemId = update₀.itemId
        · refine ⟨materializer, update.updateSeq, hstored, ?_, ?_⟩
          · rw [hstep.lastUpdateSeq, ← hitem]
            exact Std.ExtTreeMap.getElem?_insert_self
          · rw [← hitem] at hsequence
            exact Nat.le_of_lt
              (Nat.lt_of_le_of_lt hle (lastUpdateSeq_lt_of_accepts haccepts hsequence))
        · refine ⟨materializer, sequence, hstored, ?_, hle⟩
          rw [hstep.lastUpdateSeq, Std.ExtTreeMap.getElem?_insert]
          simp [hitem, hsequence]
      | providerSegmentClose segmentId outcome _ _ _ =>
        obtain ⟨m₀, hm₀, hclose⟩ := hmark
        rw [hm₀, getD_some] at hstep
        refine ⟨materializer, hstored, ?_⟩
        rw [hstep.outcome]
        rcases hclose with hsame | ⟨hactive, later, hmem, hlater⟩
        · exact .inl hsame
        · exact .inr ⟨hactive, later, List.mem_append_left _ hmem, hlater⟩
      | toolLifecycle lifecycle =>
        obtain ⟨runId', -, htool⟩ := map_eq_some_iff.mp hearlier
        exact absurd ((Option.some.inj hid).trans htool.symm) (segment_ne_tool _ _ _)
      | _ => exact hmark.elim
  | providerSegmentClose segmentId outcome createdAt seq runId =>
    obtain ⟨materializer, hclose, hm⟩ := projectClose_some h
    obtain ⟨hactive, rfl⟩ := close_ok hclose
    have hstored := hmaterializer.trans hm
    refine ⟨⟨_, hstored, .inl rfl⟩, ?_⟩
    intro earlier hearlier hmark
    cases earlier with
    | providerUpdate update₀ _ _ _ =>
      obtain ⟨m₀, sequence, hm₀, hsequence, hle⟩ := hmark
      rw [hm₀] at hstored
      exact ⟨_, sequence, hstored, hsequence, hle⟩
    | providerSegmentClose segmentId₀ outcome₀ _ _ _ =>
      obtain ⟨m₀, hm₀, hbefore⟩ := hmark
      have hsegment : segmentId₀ = segmentId :=
        segment_injective ((Option.some.inj hearlier).trans (Option.some.inj hid).symm)
      rw [hm₀, getD_some] at hactive
      have houtcome : outcome₀ = .active := by
        rcases hbefore with hsame | ⟨h₀, -⟩
        · exact hsame.symm.trans hactive
        · exact h₀
      refine ⟨_, hstored, .inr ⟨houtcome, .providerSegmentClose segmentId outcome createdAt seq runId,
        List.mem_append_right _ (List.mem_singleton_self _), ?_⟩⟩
      rw [hsegment]
      rfl
    | toolLifecycle lifecycle =>
      obtain ⟨runId', -, htool⟩ := map_eq_some_iff.mp hearlier
      exact absurd ((Option.some.inj hid).trans htool.symm) (segment_ne_tool _ _ _)
    | _ => exact hmark.elim
  | toolLifecycle lifecycle =>
    obtain ⟨hlater, hrecord⟩ := projectLifecycle_some h
    have hstored : stored.lifecycle = some lifecycle := by
      unfold UiEntry.lifecycle
      rw [hcontent, hrecord]
      rfl
    obtain ⟨runId, -, htool⟩ := map_eq_some_iff.mp hid
    refine ⟨⟨lifecycle, hstored, Nat.le_refl _, hrevision⟩, ?_⟩
    intro earlier hearlier hmark
    cases earlier with
    | toolLifecycle lifecycle₀ =>
      obtain ⟨previous, hprevious, hle, hpositive⟩ := hmark
      have hlt := hlater previous hprevious hpositive
      exact ⟨lifecycle, hstored, by omega, hrevision⟩
    | providerUpdate update₀ _ _ _ | providerSegmentClose segmentId₀ _ _ _ _ =>
      exact absurd ((Option.some.inj hearlier).trans htool.symm) (segment_ne_tool _ _ _)
    | _ => exact hmark.elim
  | _ => cases hid

end Copy

/-! ## Receipts -/

/-- A close without an outcome whose segment has been closed with one since. -/
def LateClose (copied : List PersistedMessage) (message : PersistedMessage) : Prop :=
  ∃ segmentId, closeOf message = some (segmentId, .active) ∧
    ∃ later ∈ copied, ∃ outcome, outcome ≠ .active ∧ closeOf later = some (segmentId, outcome)

section Receipt

variable {copied : List PersistedMessage} {entry : UiEntry} {run : Option UiRunMetadata}
  {message : PersistedMessage} {id : UiMessageId}

/-- **The receipt of a copied record changes nothing.** -/
theorem project_marked (hid : liveId message = some id) (hmark : Marked copied entry message)
    (htimely : ¬LateClose copied message) :
    Sessions.project entry (.ofMessage message) .journal run = .ok none := by
  unfold Sessions.project
  rw [withoutLlmApiResponse_ofMessage hid]
  cases message with
  | providerUpdate update createdAt seq runId =>
    obtain ⟨materializer, sequence, hm, hsequence, hle⟩ := hmark
    change projectUpdate entry update createdAt seq runId .journal run = _
    unfold projectUpdate
    simp only [hm, getD_some, hsequence, any_some, true_and]
    rw [if_pos (decide_eq_true hle)]
  | providerSegmentClose segmentId outcome createdAt seq runId =>
    obtain ⟨materializer, hm, hclose⟩ := hmark
    change projectClose entry segmentId outcome .journal run = _
    unfold projectClose
    simp only [hm, getD_some, true_and]
    have hsame : materializer.segment.outcome = outcome := by
      rcases hclose with hsame | ⟨rfl, later, hmem, hlater⟩
      · exact hsame
      · by_contra hne
        exact htimely ⟨segmentId, rfl, later, hmem, _, hne, hlater⟩
    rw [if_pos hsame]
  | toolLifecycle lifecycle =>
    obtain ⟨previous, hprevious, hle, hpositive⟩ := hmark
    change projectLifecycle entry (.ofMessage (.toolLifecycle lifecycle)) lifecycle .journal = _
    unfold projectLifecycle
    rw [hprevious]
    simp [hle, hpositive]
  | _ => cases hid

theorem project_lateClose (run : Option UiRunMetadata) (hid : liveId message = some id)
    (hmarks : ∀ m ∈ copied, liveId m = some id → Marked copied entry m)
    (hlate : LateClose copied message) :
    ∃ e, Sessions.project entry (.ofMessage message) .journal run = .error e := by
  obtain ⟨segmentId, hclose, later, hmem, outcome, hne, hlater⟩ := hlate
  cases message with
  | providerSegmentClose segmentId' _ createdAt seq runId =>
    cases hclose
    cases later with
    | providerSegmentClose segmentId'' _ _ _ _ =>
      cases hlater
      obtain ⟨materializer, hm, houtcome | ⟨hactive, -⟩⟩ := hmarks _ hmem hid
      · have hclosed : materializer.segment.outcome ≠ .active := houtcome ▸ hne
        change ∃ e, projectClose entry segmentId .active .journal run = .error e
        unfold projectClose close
        simp only [hm, getD_some, true_and]
        rw [if_neg hclosed]
        cases materializer.segment.segmentId with
        | none => exact ⟨_, rfl⟩
        | some _ =>
          simp only [ne_eq, hclosed, not_false_eq_true, if_true]
          exact ⟨_, rfl⟩
      · exact absurd hactive hne
    | _ => cases hlater
  | _ => cases hclose

end Receipt

end Chelix.Sessions
