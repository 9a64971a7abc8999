import Chelix.Sessions.LiveProjection

/-!
# Journalling a live run

A run copies its records into the semantic history, and each of them may be appended to the
journal at any time after it was copied: its batch is staged, and every receipt is bound to the
index that its record got.
-/

namespace Chelix.Sessions

open Chelix.Library Chelix.Common CriticalSection List UiState UiEntry OrderedMap

/-! ## Runs -/

/-- What happens while a run copies its records: a live copy, a batch that is staged, a receipt
that is bound. -/
inductive RunEvent where
  | copy (message : PersistedMessage) (uuid : String)
  | stage (records : List (UiRecord × String)) (read : UiMessageId → Option UiEntry)
  | bind (receipt : UiAppendReceipt) (index : ℕ)

/-- A session with the receipts that are still to be bound. -/
structure LiveState where
  state : UiState
  receipts : List UiAppendReceipt

/-- The receipts that a staged batch returns. -/
def receiptsOf : Except Error (List UiAppendReceipt) → List UiAppendReceipt
  | .ok receipts => receipts
  | .error _ => []

section Steps

variable (parseUuid : String → Except String String) (run : UiHistoryRun)

/-- One event.  A copy is accepted, a batch may fail, and a receipt is one of those not bound yet,
for an index and a revision that the counters have room for. -/
inductive LiveStep : LiveState → RunEvent → LiveState → Prop
  | copy {s : LiveState} {message : PersistedMessage} {uuid : String} {id : UiMessageId}
      {state : UiState} : run.copy parseUuid message uuid s.state = .ok id state →
      LiveStep s (.copy message uuid) { s with state }
  | stage {s : LiveState} {records : List (UiRecord × String)}
      {read : UiMessageId → Option UiEntry} :
      LiveStep s (.stage records read)
        { state := (UiState.stage parseUuid records read).stateAfter s.state
          receipts := s.receipts ++
            receiptsOf ((UiState.stage parseUuid records read).result s.state) }
  | bind {s : LiveState} {receipt : UiAppendReceipt} {index : ℕ} :
      receipt ∈ s.receipts → index + 1 < 2 ^ 64 → s.state.revision + 1 < 2 ^ 63 →
      LiveStep s (.bind receipt index)
        { state := (UiState.bind receipt index).stateAfter s.state
          receipts := s.receipts.erase receipt }

/-- Staging and binding return without an error. -/
def Succeeds (s : LiveState) : RunEvent → Prop
  | .copy _ _ => True
  | .stage records read => ∃ receipts state,
      UiState.stage parseUuid records read s.state = .ok receipts state
  | .bind receipt index => ∃ state, UiState.bind receipt index s.state = .ok () state

/-- An event none of whose appends fails. -/
def SucceedingStep (s : LiveState) (e : RunEvent) (t : LiveState) : Prop :=
  LiveStep parseUuid run s e t ∧ Succeeds parseUuid s e

end Steps

/-- The records that a live run streams. -/
def Streamed (message : PersistedMessage) : Prop :=
  message.role = .providerUpdate ∨ message.role = .providerSegmentClose ∨
    message.role = .toolLifecycle

/-- Every batch takes its records from those that were copied and are still in the queue, in
their order; the ones it skips are never journalled. -/
def Journals (run : UiHistoryRun) : List PersistedMessage → List RunEvent → Prop
  | _, [] => True
  | queue, .copy message _ :: es =>
    Streamed message ∧ Journals run (queue ++ [run.stamp message]) es
  | queue, .stage records _ :: es => records ≠ [] ∧ ∃ taken rest, queue = taken ++ rest ∧
      (records.map Prod.fst).Sublist (taken.map UiRecord.ofMessage) ∧ Journals run rest es
  | queue, .bind _ _ :: es => Journals run queue es

/-- No close without an outcome is appended after another outcome of its segment was copied. -/
def Timely (run : UiHistoryRun) : List PersistedMessage → List RunEvent → Prop
  | _, [] => True
  | copied, .copy message _ :: es => Timely run (copied ++ [run.stamp message]) es
  | copied, .stage records _ :: es =>
    (∀ record ∈ records, ¬LateClose copied record.1.message) ∧ Timely run copied es
  | copied, .bind _ _ :: es => Timely run copied es

def copies (es : List RunEvent) : List RunEvent :=
  es.filter fun e =>
    match e with
    | .copy _ _ => true
    | _ => false

/-- What the user sees of a message. -/
structure UiDisplay where
  content : UiContent
  accumulatedArguments : Option String
  outcome : Option ProviderSegmentOutcome
  assistantId : Option UiMessageId
  position : ℕ

def UiEntry.display (entry : UiEntry) : UiDisplay where
  content := entry.snapshot.content
  accumulatedArguments := entry.snapshot.accumulatedArguments
  outcome := entry.snapshot.outcome
  assistantId := entry.snapshot.assistantId
  position := entry.snapshot.position

/-! ## Two sessions that show the same -/

/-- Two sessions that show the same, of which the second has seen no more revisions. -/
structure ShowsSame (m l : UiState) : Prop where
  generation : m.generation = l.generation
  failure : m.failure = l.failure
  runs : m.runs = l.runs
  toolOwners : m.toolOwners = l.toolOwners
  nextPosition : m.nextPosition = l.nextPosition
  totalMessages : m.totalMessages = l.totalMessages
  revision : l.revision ≤ m.revision
  entries : ∀ id : UiMessageId,
    (m.entries[id]?).map UiEntry.shown = (l.entries[id]?).map UiEntry.shown

theorem ShowsSame.refl (s : UiState) : ShowsSame s s :=
  ⟨rfl, rfl, rfl, rfl, rfl, rfl, Nat.le_refl _, fun _ => rfl⟩

theorem adopt_shown (owners : OrderedMap UiMessageId UiMessageId) {revision : ℕ}
    (hrevision : 0 < revision) (id : UiMessageId) (entry : UiEntry) :
    (adopt owners revision id entry).shown = adopt owners 1 id entry.shown := by
  by_cases h : ∀ owner, owners[id]? = some owner → entry.snapshot.assistantId = some owner
  · have hshown : ∀ owner, owners[id]? = some owner →
        entry.shown.snapshot.assistantId = some owner := h
    rw [adopt_eq_self h, adopt_eq_self hshown]
  · push Not at h
    obtain ⟨owner, howner, hne⟩ := h
    have hshown : entry.shown.snapshot.assistantId ≠ some owner := hne
    rw [adopt_of_owner howner hne, adopt_of_owner howner hshown]
    have hone : min revision 1 = 1 := by omega
    simp only [shown, hone]

namespace ShowsSame

variable {m l : UiState}

theorem contains (h : ShowsSame m l) (id : UiMessageId) :
    m.entries.contains id = l.entries.contains id := by
  rw [contains_eq_isSome, contains_eq_isSome, ← Option.isSome_map,
    h.entries id, Option.isSome_map]

theorem entryFor (h : ShowsSame m l) (id : UiMessageId) (record : UiRecord) :
    (m.entryFor id record).shown = (l.entryFor id record).shown := by
  have hentry := h.entries id
  unfold UiState.entryFor
  rw [h.nextPosition]
  cases hm : m.entries[id]? with
  | none =>
    cases hl : l.entries[id]? with
    | none => rfl
    | some entry => simp [hm, hl] at hentry
  | some entry =>
    cases hl : l.entries[id]? with
    | none => simp [hm, hl] at hentry
    | some entry' =>
      rw [hm, hl] at hentry
      exact Option.some.inj hentry

theorem runOf (h : ShowsSame m l) (record : UiRecord) : m.runOf record = l.runOf record := by
  unfold UiState.runOf
  rw [h.runs]

variable {entry entry' : UiEntry}

theorem stamp (h : ShowsSame m l) (id : UiMessageId) (hentry : entry.shown = entry'.shown) :
    (m.stamp id entry).shown = (l.stamp id entry').shown := by
  have hm : (m.stamp id entry).shown = m.stamp id entry.shown := rfl
  have hl : (l.stamp id entry').shown = l.stamp id entry'.shown := rfl
  rw [hm, hl, hentry]
  unfold UiState.stamp
  rw [h.contains id, h.toolOwners, h.nextPosition]

theorem content (h : entry.shown = entry'.shown) :
    entry.snapshot.content = entry'.snapshot.content := by
  have hcontent := congrArg (fun e : UiEntry => e.snapshot.content) h
  exact hcontent

theorem materializer (h : entry.shown = entry'.shown) :
    entry.materializer = entry'.materializer := by
  have hmaterializer := congrArg (fun e : UiEntry => e.materializer) h
  exact hmaterializer

theorem projected (h : ShowsSame m l) (id : UiMessageId) (hentry : entry.shown = entry'.shown) :
    ShowsSame (m.projected id entry .live).adoptAll (l.projected id entry' .live).adoptAll := by
  have hstamp := h.stamp id hentry
  have howners : (m.projected id entry .live).toolOwners =
      (l.projected id entry' .live).toolOwners := by
    unfold UiState.projected ownedTools UiEntry.assistant
    simp only
    rw [ShowsSame.content hstamp, h.toolOwners]
  refine ⟨h.generation, h.failure, ?_, howners, ?_, ?_, Nat.succ_le_succ h.revision, ?_⟩
  · change followSegment m.runs (m.stamp id entry) .live =
      followSegment l.runs (l.stamp id entry') .live
    unfold followSegment
    rw [ShowsSame.content hstamp, ShowsSame.materializer hstamp, h.runs]
  · change (if m.entries.contains id then m.nextPosition else m.nextPosition + 1) =
      (if l.entries.contains id then l.nextPosition else l.nextPosition + 1)
    rw [h.contains id, h.nextPosition]
  · change (if m.entries.contains id then m.totalMessages else m.totalMessages + 1) =
      (if l.entries.contains id then l.totalMessages else l.totalMessages + 1)
    rw [h.contains id, h.totalMessages]
  · intro k
    unfold UiState.adoptAll
    rw [Std.ExtTreeMap.getElem?_map, Std.ExtTreeMap.getElem?_map, Option.map_map, Option.map_map]
    have hm : UiEntry.shown ∘ UiState.adopt (m.projected id entry .live).toolOwners
        (m.projected id entry .live).revision k =
        UiState.adopt (l.projected id entry' .live).toolOwners 1 k ∘ UiEntry.shown := by
      funext e
      rw [Function.comp_apply,
        adopt_shown _ (show 0 < (m.projected id entry .live).revision from Nat.succ_pos _), howners]
      rfl
    have hl : UiEntry.shown ∘ UiState.adopt (l.projected id entry' .live).toolOwners
        (l.projected id entry' .live).revision k =
        UiState.adopt (l.projected id entry' .live).toolOwners 1 k ∘ UiEntry.shown := by
      funext e
      rw [Function.comp_apply,
        adopt_shown _ (show 0 < (l.projected id entry' .live).revision from Nat.succ_pos _)]
      rfl
    rw [hm, hl, ← Option.map_map, ← Option.map_map]
    congr 1
    unfold UiState.projected
    simp only
    rw [OrderedMap.get_insert, OrderedMap.get_insert]
    by_cases hk : id = k
    · rw [if_pos hk, if_pos hk, Option.map_some, Option.map_some]
      have hmin : min (m.revision + 1) 1 = min (l.revision + 1) 1 := by omega
      congr 1
      calc UiEntry.shown { m.stamp id entry with
            snapshot := { (m.stamp id entry).snapshot with revision := m.revision + 1 } }
          = { (m.stamp id entry).shown with
              snapshot := { (m.stamp id entry).shown.snapshot with
                revision := min (m.revision + 1) 1 } } := rfl
        _ = { (l.stamp id entry').shown with
              snapshot := { (l.stamp id entry').shown.snapshot with
                revision := min (l.revision + 1) 1 } } := by rw [hstamp, hmin]
        _ = UiEntry.shown { l.stamp id entry' with
              snapshot := { (l.stamp id entry').snapshot with revision := l.revision + 1 } } := rfl
    · rw [if_neg hk, if_neg hk]
      exact h.entries k

end ShowsSame

/-! ## A session that a run copies into -/

variable {message : PersistedMessage}

theorem liveId_stamp (run : UiHistoryRun) (h : Streamed message) :
    ∃ id, liveId (run.stamp message) = some id := by
  cases message with
  | providerUpdate | providerSegmentClose | toolLifecycle => exact ⟨_, rfl⟩
  | _ => simp [Streamed, PersistedMessage.role] at h

variable {parseUuid : String → Except String String} {run : UiHistoryRun} {uuid : String}
  {id : UiMessageId}

theorem copy_ok_iff {s s' : UiState} :
    run.copy parseUuid message uuid s = .ok id s' ↔
      (∀ runId ∈ message.runId, runId = run.runId) ∧
        ingest parseUuid (.ofMessage (run.stamp message)) .live (some run.generation) uuid
          s = .ok id s' := by
  unfold UiHistoryRun.copy
  rw [guard_ok_iff]
  cases message.runId <;> simp

theorem copy_streamed_ok_iff {own : UiMessageId} {s s' : UiState}
    (hown : liveId (run.stamp message) = some own) :
    run.copy parseUuid message uuid s = .ok id s' ↔
      (∀ runId ∈ message.runId, runId = run.runId) ∧
        s.Admits (some run.generation) (.ofMessage (run.stamp message)) ∧ id = own ∧
        ∃ entry, Sessions.project (s.entryFor id (.ofMessage (run.stamp message)))
            (.ofMessage (run.stamp message)) .live
            (s.runOf (.ofMessage (run.stamp message))) = .ok (some entry) ∧
          s.Room id entry ∧ s' = (s.projected id entry .live).adoptAll := by
  rw [copy_ok_iff, ingest_live_ok_iff]
  simp only [identity_ofMessage hown]
  constructor
  · rintro ⟨hrun, hadmits, _, entry, hsome, hid, hrest⟩
    cases hsome
    exact ⟨hrun, hadmits, hid, entry, hrest⟩
  · rintro ⟨hrun, hadmits, hid, entry, hrest⟩
    exact ⟨hrun, hadmits, some own, entry, rfl, hid, hrest⟩

variable {l : UiState}

/-- **A copy that one of two sessions accepts is accepted by the other, and they go on to show
the same.** -/
theorem ShowsSame.copy {m m' : UiState} (h : ShowsSame m l) (hstreamed : Streamed message)
    (hcopy : run.copy parseUuid message uuid m = .ok id m') :
    ∃ l', run.copy parseUuid message uuid l = .ok id l' ∧ ShowsSame m' l' := by
  obtain ⟨own, hown⟩ := liveId_stamp run hstreamed
  obtain ⟨hrun, ⟨hfailure, hgeneration, hregistered⟩, rfl, entry, hproject, hroom, rfl⟩ :=
    (copy_streamed_ok_iff hown).mp hcopy
  -- The other session projects onto an entry that shows the same.
  have hshown := project_shown (m.entryFor id (.ofMessage (run.stamp message)))
    (.ofMessage (run.stamp message)) .live (m.runOf (.ofMessage (run.stamp message)))
  rw [h.entryFor, hproject, project_shown, h.runOf] at hshown
  obtain ⟨entry', hproject', hentry⟩ : ∃ entry', Sessions.project
      (l.entryFor id (.ofMessage (run.stamp message))) (.ofMessage (run.stamp message)) .live
      (l.runOf (.ofMessage (run.stamp message))) = .ok (some entry') ∧
      entry.shown = entry'.shown := by
    cases hl : Sessions.project (l.entryFor id (.ofMessage (run.stamp message)))
        (.ofMessage (run.stamp message)) .live (l.runOf (.ofMessage (run.stamp message))) with
    | error e =>
      rw [hl] at hshown
      cases hshown
    | ok result =>
      rw [hl] at hshown
      cases result with
      | none => cases hshown
      | some entry' =>
        refine ⟨entry', rfl, ?_⟩
        exact (Option.some.inj (Except.ok.inj hshown)).symm
  refine ⟨_, (copy_streamed_ok_iff hown).mpr ⟨hrun, ⟨?_, ?_, ?_⟩, rfl, entry', hproject', ?_, rfl⟩,
    h.projected id hentry⟩
  · rw [← h.failure]
    exact hfailure
  · rw [← h.generation]
    exact hgeneration
  · rw [← h.runs]
    exact hregistered
  · have hversion : entry.contentVersion = entry'.contentVersion := by
      have hcongr := congrArg (fun e : UiEntry => e.contentVersion) hentry
      exact hcongr
    refine ⟨Nat.lt_of_le_of_lt (Nat.succ_le_succ h.revision) hroom.revision, ?_, ?_⟩
    · rw [← hversion]
      exact hroom.contentVersion
    · rw [← h.contains, ← h.nextPosition, ← h.totalMessages]
      exact hroom.position

/-- What holds of a session while a run copies into it: every copied record has left its mark,
every tool names its owner, and the receipts that are not bound can be. -/
structure Copying (run : UiHistoryRun) (copied : List PersistedMessage) (s : LiveState) :
    Prop where
  admitted : copied ≠ [] → s.state.failure = none ∧ s.state.generation = run.generation
  owned : copied ≠ [] → ∀ (id : UiMessageId) (entry : UiEntry) (owner : UiMessageId),
    s.state.entries[id]? = some entry → s.state.toolOwners[id]? = some owner →
    entry.snapshot.assistantId = some owner
  marked : ∀ message ∈ copied, ∃ id entry, liveId message = some id ∧
    s.state.entries[id]? = some entry ∧ 0 < entry.snapshot.revision ∧
    Marked copied entry message
  counted : ∀ id : UiMessageId, s.receipts.countP (fun receipt => receipt.id = id) ≤
    s.state.pendingAppends[id]?.getD 0
  receipts : ∀ receipt ∈ s.receipts, copied ≠ [] ∧ receipt.generation = s.state.generation ∧
    ∃ message ∈ copied, liveId message = some receipt.id

namespace Copying

variable {parseUuid : String → Except String String} {run : UiHistoryRun}
  {copied : List PersistedMessage} {s : LiveState}

theorem start (s : UiState) : Copying run [] ⟨s, []⟩ where
  admitted h := absurd rfl h
  owned h := absurd rfl h
  marked _ h := absurd h not_mem_nil
  counted _ := Nat.zero_le _
  receipts _ h := absurd h not_mem_nil

theorem copy {state : UiState} (h : Copying run copied s) (hstreamed : Streamed message)
    (hcopy : run.copy parseUuid message uuid s.state = .ok id state) :
    Copying run (copied ++ [run.stamp message]) { s with state } := by
  obtain ⟨own, hown⟩ := liveId_stamp run hstreamed
  obtain ⟨-, ⟨hfailure, hgeneration, -⟩, rfl, entry, hproject, hroom, rfl⟩ :=
    (copy_streamed_ok_iff hown).mp hcopy
  refine ⟨fun _ => ⟨hfailure, (hgeneration _ rfl).symm⟩, ?_, ?_, h.counted, ?_⟩
  · intro _ k e owner he howner
    change (s.state.projected id entry .live).toolOwners[k]? = some owner at howner
    rw [get_projected] at he
    obtain ⟨e₀, -, rfl⟩ := Option.map_eq_some_iff.mp he
    exact adopt_owner howner e₀
  · intro message' hmem
    rw [mem_append, mem_singleton] at hmem
    -- What the copy stored for its message carries the new mark, and those of its message before.
    have hstored := get_projected s.state id id entry .live
    rw [if_pos rfl, Option.map_some] at hstored
    obtain ⟨hm, hc, hr⟩ := adopt_content (s.state.projected id entry .live).toolOwners
      (s.state.revision + 1) id { s.state.stamp id entry with
        snapshot := { (s.state.stamp id entry).snapshot with revision := s.state.revision + 1 } }
    have hpositive := hr (Nat.succ_pos _) (Nat.succ_pos _)
    obtain ⟨hnew, -⟩ := marked_of_project hown hproject hm hc hpositive
    rcases hmem with hmem | rfl
    · obtain ⟨id', e, hid', he, hpos, hmark⟩ := h.marked message' hmem
      by_cases hsame : id = id'
      · subst hsame
        refine ⟨id, _, hid', hstored, hpositive, ?_⟩
        have hentry : s.state.entryFor id (.ofMessage (run.stamp message)) = e := by
          unfold entryFor
          rw [he, Option.getD_some]
        rw [hentry] at hproject
        exact (marked_of_project hown hproject hm hc hpositive).2 message' hid' hmark
      · obtain ⟨hm', hc', hr'⟩ := adopt_content
          (s.state.projected id entry .live).toolOwners (s.state.revision + 1) id' e
        refine ⟨id', _, hid', ?_, hr' (Nat.succ_pos _) hpos, ?_⟩
        · rw [get_projected, if_neg hsame, he, Option.map_some]
        · exact hmark.congr (fun m hm => mem_append_left _ hm) hm' hc'
            fun hpos => hr' (Nat.succ_pos _) hpos
    · exact ⟨id, _, hown, hstored, hpositive, hnew⟩
  · intro receipt hreceipt
    obtain ⟨-, hgen, m, hm, hid⟩ := h.receipts receipt hreceipt
    exact ⟨by simp, hgen, m, mem_append_left _ hm, hid⟩

end Copying

/-! ## Staging what was copied -/

variable {records : List (UiRecord × String)}

section Staging

variable {parseUuid : String → Except String String} {generation : UiGeneration}
  {copied : List PersistedMessage}

/-- A record of a copied message, whose entry carries the marks of all copies. -/
def StagedCopy (copied : List PersistedMessage) (entries : OrderedMap UiMessageId UiEntry)
    (id : UiMessageId) (record : UiRecord) : Prop :=
  ∃ message ∈ copied, record = .ofMessage message ∧ liveId message = some id ∧
    ∃ entry, entries[id]? = some entry ∧
      ∀ m ∈ copied, liveId m = some id → Marked copied entry m

/-- The receipt of a record that changes nothing. -/
def receiptFor (generation : UiGeneration) (entries : OrderedMap UiMessageId UiEntry)
    (record : UiMessageId × UiRecord) : UiAppendReceipt where
  id := record.1
  commitsSnapshot := UiState.commits entries record.1 record.2.message
  semanticRecord := UiState.isSemantic record.2.message
  generation := generation
  contentVersion := (entries[record.1]?.map UiEntry.contentVersion).getD 0

theorem stageRecord_copied_iff {p p' : UiState} {record : UiRecord} {receipt : UiAppendReceipt}
    (h : StagedCopy copied p.entries id record) :
    stageRecord generation id record p = .ok receipt p' ↔
      ¬LateClose copied record.message ∧ p = p' ∧
        receipt = receiptFor generation p.entries (id, record) := by
  obtain ⟨message, hmem, rfl, hid, entry, hentry, hmarks⟩ := h
  have hfor : p.entryFor id (.ofMessage message) = entry := by
    unfold entryFor
    rw [hentry, Option.getD_some]
  rw [stageRecord_ok_iff, project_ok_iff, hfor]
  change _ ↔ ¬LateClose copied message ∧ _
  constructor
  · rintro ⟨-, hproject, entry', hentry', rfl⟩
    have htimely : ¬LateClose copied message := by
      intro hlate
      obtain ⟨e, he⟩ := project_lateClose (p.runOf (.ofMessage message)) hid hmarks hlate
      rcases hproject with ⟨hnone, -⟩ | ⟨stored, hsome, -⟩
      · rw [he] at hnone
        cases hnone
      · rw [he] at hsome
        cases hsome
    rw [project_marked hid (hmarks message hmem hid) htimely] at hproject
    rcases hproject with ⟨-, rfl⟩ | ⟨stored, hsome, -⟩
    · refine ⟨htimely, rfl, ?_⟩
      unfold receiptFor
      rw [hentry', Option.map_some, Option.getD_some]
    · cases hsome
  · rintro ⟨htimely, rfl, rfl⟩
    refine ⟨?_, .inl ⟨project_marked hid (hmarks message hmem hid) htimely, rfl⟩, entry, hentry, ?_⟩
    · rintro ⟨hrole, -⟩
      cases message with
      | user _ => cases hid
      | _ => cases hrole
    · unfold receiptFor
      rw [hentry, Option.map_some, Option.getD_some]

theorem stageRecords_copied_iff {p p' : UiState} {identified : List (UiMessageId × UiRecord)}
    {receipts : List UiAppendReceipt}
    (h : ∀ x ∈ identified, StagedCopy copied p.entries x.1 x.2) :
    stageRecords generation identified p = .ok receipts p' ↔
      (∀ x ∈ identified, ¬LateClose copied x.2.message) ∧ p = p' ∧
        receipts = identified.map (receiptFor generation p.entries) := by
  induction identified generalizing receipts with
  | nil =>
    rw [stageRecords, pure_ok_iff]
    simp only [not_mem_nil, false_imp_iff, implies_true, true_and, map_nil]
    constructor
    · rintro ⟨rfl, rfl⟩
      exact ⟨rfl, rfl⟩
    · rintro ⟨rfl, rfl⟩
      exact ⟨rfl, rfl⟩
  | cons x identified ih =>
    obtain ⟨hx, hrest⟩ := forall_mem_cons.mp h
    rw [stageRecords_cons_ok_iff, forall_mem_cons, map_cons]
    constructor
    · rintro ⟨receipt, p₁, rest, hreceipt, hstage, rfl⟩
      obtain ⟨htimely, rfl, rfl⟩ := (stageRecord_copied_iff hx).mp hreceipt
      obtain ⟨htimely', rfl, rfl⟩ := (ih hrest).mp hstage
      exact ⟨⟨htimely, htimely'⟩, rfl, rfl⟩
    · rintro ⟨⟨htimely, htimely'⟩, rfl, rfl⟩
      exact ⟨_, p, _, (stageRecord_copied_iff hx).mpr ⟨htimely, rfl, rfl⟩,
        (ih hrest).mpr ⟨htimely', rfl, rfl⟩, rfl⟩

/-- The messages of copied records, which they determine themselves. -/
def identifiedCopies (records : List (UiRecord × String)) : List (UiMessageId × UiRecord) :=
  records.map fun record => ((liveId record.1.message).getD record.2, record.1)

theorem identifyAll_copied {s : LiveState} (h : Copying run copied s)
    (hrecords : ∀ record ∈ records, ∃ message ∈ copied, record.1 = .ofMessage message) :
    identifyAll parseUuid records = .ok (identifiedCopies records) := by
  unfold identifyAll identifiedCopies
  induction records with
  | nil => rfl
  | cons record records ih =>
    obtain ⟨⟨message, hmem, hrecord⟩, hrest⟩ := forall_mem_cons.mp hrecords
    obtain ⟨id, _, hid, -⟩ := h.marked message hmem
    rw [mapM_cons, ih hrest, hrecord, identity_ofMessage hid]
    rw [map_cons, hrecord]
    change Except.ok _ = Except.ok _
    rw [show liveId (UiRecord.ofMessage message).message = some id from hid]

end Staging

namespace Copying

variable {parseUuid : String → Except String String} {run : UiHistoryRun}
  {copied : List PersistedMessage} {s : LiveState}

theorem ne_nil (hrecords : records ≠ [])
    (hcopied : ∀ record ∈ records, ∃ message ∈ copied, record.1 = .ofMessage message) :
    copied ≠ [] := by
  obtain ⟨record, hrecord⟩ := exists_mem_of_ne_nil records hrecords
  obtain ⟨message, hmem, -⟩ := hcopied record hrecord
  exact ne_nil_of_mem hmem

/-- **A batch of copied records is staged exactly if it holds no late close.**  All that it
changes are the receipts that are expected. -/
theorem stage_ok_iff {read : UiMessageId → Option UiEntry} {receipts : List UiAppendReceipt}
    {state : UiState} (h : Copying run copied s) (hrecords : records ≠ [])
    (hcopied : ∀ record ∈ records, ∃ message ∈ copied, record.1 = .ofMessage message) :
    UiState.stage parseUuid records read s.state = .ok receipts state ↔
      (∀ record ∈ records, ¬LateClose copied record.1.message) ∧
        receipts = (identifiedCopies records).map (receiptFor s.state.generation
          (s.state.staged (UiState.loadEntries read (identifiedCopies records))
            (identifiedCopies records))) ∧
        state = { s.state with
          pendingAppends := receipts.foldl UiState.addPending s.state.pendingAppends } := by
  have hne := ne_nil hrecords hcopied
  rw [UiState.stage_ok_iff, identifyAll_copied h hcopied]
  -- A message of the batch is in memory, with all its marks.
  have hstaged : ∀ x ∈ identifiedCopies records, StagedCopy copied
      (s.state.staged (UiState.loadEntries read (identifiedCopies records))
        (identifiedCopies records)) x.1 x.2 ∧ ∃ entry, s.state.entries[x.1]? = some entry := by
    intro x hx
    obtain ⟨record, hrecord, rfl⟩ := mem_map.mp hx
    obtain ⟨message, hmem, heq⟩ := hcopied record hrecord
    obtain ⟨id, entry, hid, hentry, -, -⟩ := h.marked message hmem
    have hown : (liveId record.1.message).getD record.2 = id := by
      rw [heq]
      change (liveId message).getD _ = _
      rw [hid, Option.getD_some]
    refine ⟨⟨message, hmem, heq, ?_, entry, ?_, ?_⟩, entry, ?_⟩
    · simp only [hown, hid]
    · rw [UiState.get_staged, if_pos (mem_map_of_mem hx)]
      simp only [hown, hentry, Option.some_or]
    · intro m hm hmid
      simp only [hown] at hmid
      obtain ⟨id', entry', hid', hentry', -, hmark⟩ := h.marked m hm
      rw [hmid] at hid'
      cases hid'
      rw [hentry] at hentry'
      cases hentry'
      exact hmark
    · simp only [hown, hentry]
  have hcommit : s.state.commit (s.state.prepare (s.state.staged
      (UiState.loadEntries read (identifiedCopies records)) (identifiedCopies records))) =
      s.state := by
    refine UiState.commit_prepare (fun k => ?_) (h.owned hne)
    rw [UiState.get_staged, UiState.get_loadEntries]
    by_cases hk : k ∈ (identifiedCopies records).map Prod.fst
    · obtain ⟨x, hx, rfl⟩ := mem_map.mp hk
      obtain ⟨-, entry, hentry⟩ := hstaged x hx
      rw [if_pos hk, hentry, Option.some_or]
      exact .inr rfl
    · rw [if_neg hk, if_neg hk]
      exact .inl rfl
  have hlate : (∀ x ∈ identifiedCopies records, ¬LateClose copied x.2.message) ↔
      ∀ record ∈ records, ¬LateClose copied record.1.message := by
    unfold identifiedCopies
    rw [forall_mem_map]
  constructor
  · rintro ⟨_, heq, hbatch⟩
    cases heq
    obtain ⟨-, -, prepared, hstage, rfl⟩ := UiState.stageBatch_ok_iff.mp hbatch
    obtain ⟨htimely, rfl, rfl⟩ :=
      (stageRecords_copied_iff fun x hx => (hstaged x hx).1).mp hstage
    rw [hcommit]
    exact ⟨hlate.mp htimely, rfl, rfl⟩
  · rintro ⟨htimely, rfl, rfl⟩
    refine ⟨_, rfl, UiState.stageBatch_ok_iff.mpr ⟨(h.admitted hne).1, rfl, _,
      (stageRecords_copied_iff fun x hx => (hstaged x hx).1).mpr ⟨hlate.mpr htimely, rfl, rfl⟩, ?_⟩⟩
    rw [hcommit]

/-- The session after a batch, whether it was staged or not, is still one that is copied into, and
shows what it did. -/
theorem stage (h : Copying run copied s) (parseUuid : String → Except String String)
    (read : UiMessageId → Option UiEntry) (hrecords : records ≠ [])
    (hcopied : ∀ record ∈ records, ∃ message ∈ copied, record.1 = .ofMessage message) :
    Copying run copied
        { state := (UiState.stage parseUuid records read).stateAfter s.state
          receipts := s.receipts ++
            receiptsOf ((UiState.stage parseUuid records read).result s.state) } ∧
      ∀ l, ShowsSame s.state l →
        ShowsSame ((UiState.stage parseUuid records read).stateAfter s.state) l := by
  unfold CriticalSection.stateAfter CriticalSection.result
  cases hstage : UiState.stage parseUuid records read s.state with
  | error e state =>
    obtain rfl := UiState.stage_error hstage
    simp only [receiptsOf, append_nil]
    exact ⟨h, fun _ hl => hl⟩
  | ok receipts state =>
    obtain ⟨-, hreceipts, rfl⟩ := (h.stage_ok_iff hrecords hcopied).mp hstage
    refine ⟨⟨h.admitted, h.owned, h.marked, fun k => ?_, fun receipt hreceipt => ?_⟩, fun l hl =>
      ⟨hl.generation, hl.failure, hl.runs, hl.toolOwners, hl.nextPosition, hl.totalMessages,
        hl.revision, hl.entries⟩⟩
    · rw [countP_append]
      change _ ≤ (receipts.foldl UiState.addPending s.state.pendingAppends)[k]?.getD 0
      rw [UiState.get_addPending]
      exact Nat.add_le_add_right (h.counted k) _
    · rcases mem_append.mp hreceipt with hreceipt | hreceipt
      · exact h.receipts receipt hreceipt
      · refine ⟨ne_nil hrecords hcopied, ?_⟩
        simp only [receiptsOf] at hreceipt
        rw [hreceipts] at hreceipt
        obtain ⟨x, hx, rfl⟩ := mem_map.mp hreceipt
        obtain ⟨record, hrecord, rfl⟩ := mem_map.mp hx
        obtain ⟨message, hmem, heq⟩ := hcopied record hrecord
        obtain ⟨id, _, hid, -⟩ := h.marked message hmem
        refine ⟨rfl, message, hmem, ?_⟩
        unfold receiptFor
        simp only [heq]
        change _ = some ((liveId message).getD _)
        rw [hid, Option.getD_some]

/-- **A receipt that is not used yet can be bound**, and the session shows what it did. -/
theorem bind {receipt : UiAppendReceipt} {index : ℕ} (h : Copying run copied s)
    (hreceipt : receipt ∈ s.receipts) (hindex : index + 1 < 2 ^ 64)
    (hrevision : s.state.revision + 1 < 2 ^ 63) :
    ∃ state, bind receipt index s.state = .ok () state ∧
      Copying run copied { state, receipts := s.receipts.erase receipt } ∧
      ∀ l, ShowsSame s.state l → ShowsSame state l := by
  obtain ⟨hne, hgeneration, message, hmem, hid⟩ := h.receipts receipt hreceipt
  obtain ⟨id, entry, hid', hentry, hpositive, -⟩ := h.marked message hmem
  rw [hid] at hid'
  cases hid'
  have hcount : 0 < s.receipts.countP fun r => r.id = receipt.id :=
    countP_pos_iff.mpr ⟨receipt, hreceipt, by simp⟩
  have hpending : s.state.pendingAppends.contains receipt.id = true := by
    have hle := h.counted receipt.id
    rw [contains_eq_isSome]
    cases hget : s.state.pendingAppends[receipt.id]? with
    | some _ => rfl
    | none =>
      rw [hget] at hle
      simp only [Option.getD_none] at hle
      omega
  refine ⟨_, bindReceipt_ok_iff.mpr ⟨(h.admitted hne).1, hgeneration.symm, hpending, hindex,
    hrevision, entry, hentry, rfl⟩, ⟨h.admitted, ?_, ?_, ?_, ?_⟩, ?_⟩
  · intro hne k e owner he howner
    simp only [get_insert] at he
    by_cases hk : receipt.id = k
    · rw [if_pos hk] at he
      cases he
      exact h.owned hne k entry owner (hk ▸ hentry) howner
    · rw [if_neg hk] at he
      exact h.owned hne k e owner he howner
  · intro m hm
    obtain ⟨k, e, hk, he, hpos, hmark⟩ := h.marked m hm
    simp only [get_insert]
    by_cases hsame : receipt.id = k
    · subst hsame
      rw [hentry] at he
      cases he
      refine ⟨receipt.id, _, hk, if_pos rfl, Nat.succ_pos _, ?_⟩
      exact hmark.congr (fun _ hm => hm) rfl rfl fun _ => Nat.succ_pos _
    · exact ⟨k, e, hk, by rw [if_neg hsame]; exact he, hpos, hmark⟩
  · intro k
    change _ ≤ (usePending s.state.pendingAppends receipt.id)[k]?.getD 0
    rw [get_usePending]
    have hle := h.counted k
    rw [(perm_cons_erase hreceipt).countP_eq, countP_cons] at hle
    by_cases hk : receipt.id = k
    · rw [if_pos hk]
      rw [if_pos (decide_eq_true hk)] at hle
      exact Nat.le_sub_of_add_le hle
    · rw [if_neg hk]
      rw [decide_eq_false hk, if_neg Bool.false_ne_true] at hle
      exact hle
  · exact fun r hr => h.receipts r (mem_of_mem_erase hr)
  · intro l hl
    refine ⟨hl.generation, hl.failure, hl.runs, hl.toolOwners, hl.nextPosition, hl.totalMessages,
      Nat.le_succ_of_le hl.revision, fun k => ?_⟩
    rw [← hl.entries k]
    simp only [get_insert]
    by_cases hk : receipt.id = k
    · subst hk
      rw [if_pos rfl, hentry, Option.map_some, Option.map_some]
      have hone : min (s.state.revision + 1) 1 = min entry.snapshot.revision 1 := by omega
      congr 1
      unfold boundEntry shown
      simp only [hone]
    · rw [if_neg hk]

end Copying

/-! ## The whole run -/

section Runs

variable {parseUuid : String → Except String String} {run : UiHistoryRun}

variable {es : List RunEvent}

/-- A session that journals what is copied and one that only copies show the same at the end,
and the appends succeed exactly if they are timely. -/
theorem runs_show_same {copied queue : List PersistedMessage} {s t : LiveState}
    (receipts : List UiAppendReceipt) (h : Copying run copied s) (hsame : ShowsSame s.state l)
    (hqueue : ∀ message ∈ queue, message ∈ copied) (hjournals : Journals run queue es)
    (hrun : Run (LiveStep parseUuid run) s es t) :
    (∃ l', Run (LiveStep parseUuid run) ⟨l, receipts⟩ (copies es) ⟨l', receipts⟩ ∧
        ShowsSame t.state l') ∧
      (Run (SucceedingStep parseUuid run) s es t ↔ Timely run copied es) := by
  induction es generalizing copied queue s l with
  | nil =>
    obtain rfl := Run.nil_iff.mp hrun
    exact ⟨⟨l, Run.nil _, hsame⟩, fun _ => trivial, fun _ => Run.nil s⟩
  | cons e es ih =>
    obtain ⟨s₁, hstep, hrest⟩ := Run.cons_iff.mp hrun
    have hcons : Run (SucceedingStep parseUuid run) s (e :: es) t ↔ ∃ s₁,
        SucceedingStep parseUuid run s e s₁ ∧ Run (SucceedingStep parseUuid run) s₁ es t :=
      Run.cons_iff
    cases hstep with
    | @copy message uuid id state hcopy =>
      obtain ⟨hstreamed, hjournals⟩ := hjournals
      obtain ⟨l₁, hcopy', hsame'⟩ := hsame.copy hstreamed hcopy
      obtain ⟨⟨l', hl', hend⟩, hiff⟩ := ih (h.copy hstreamed hcopy) hsame'
        (fun m hm => by
          rcases mem_append.mp hm with hm | hm
          · exact mem_append_left _ (hqueue m hm)
          · exact mem_append_right _ hm) hjournals hrest
      refine ⟨⟨l', Run.cons (.copy hcopy') hl', hend⟩, ?_⟩
      rw [hcons]
      change _ ↔ Timely run (copied ++ [run.stamp message]) es
      rw [← hiff]
      constructor
      · rintro ⟨s₂, ⟨hstep, -⟩, hrest⟩
        cases hstep with
        | copy hcopy₂ =>
          rw [hcopy] at hcopy₂
          cases hcopy₂
          exact hrest
      · exact fun hrest => ⟨_, ⟨.copy hcopy, trivial⟩, hrest⟩
    | @stage records read =>
      obtain ⟨hne, taken, rest, rfl, hsub, hjournals⟩ := hjournals
      have hcopied : ∀ record ∈ records, ∃ message ∈ copied, record.1 = .ofMessage message := by
        intro record hrecord
        obtain ⟨message, hmem, heq⟩ :=
          mem_map.mp (hsub.subset (mem_map_of_mem (f := Prod.fst) hrecord))
        exact ⟨message, hqueue message (mem_append_left _ hmem), heq.symm⟩
      obtain ⟨hcopying, hshows⟩ := h.stage parseUuid read hne hcopied
      obtain ⟨hlive, hiff⟩ := ih hcopying (hshows l hsame)
        (fun m hm => hqueue m (mem_append_right _ hm)) hjournals hrest
      refine ⟨hlive, ?_⟩
      rw [hcons]
      change _ ↔ (∀ record ∈ records, ¬LateClose copied record.1.message) ∧ Timely run copied es
      rw [← hiff]
      constructor
      · rintro ⟨s₂, ⟨hstep, receipts', state, hstage⟩, hrest⟩
        cases hstep
        exact ⟨((h.stage_ok_iff hne hcopied).mp hstage).1, hrest⟩
      · rintro ⟨htimely, hrest⟩
        exact ⟨_, ⟨.stage, _, _, (h.stage_ok_iff hne hcopied).mpr ⟨htimely, rfl, rfl⟩⟩, hrest⟩
    | @bind receipt index hreceipt hindex hrevision =>
      obtain ⟨state, hbind, hcopying, hshows⟩ := h.bind hreceipt hindex hrevision
      have hafter : (bind receipt index).stateAfter s.state = state := by
        unfold CriticalSection.stateAfter
        rw [hbind]
      rw [hafter] at hrest
      obtain ⟨hlive, hiff⟩ := ih hcopying (hshows l hsame) hqueue hjournals hrest
      refine ⟨hlive, ?_⟩
      rw [hcons]
      change _ ↔ Timely run copied es
      rw [← hiff]
      constructor
      · rintro ⟨s₂, ⟨hstep, -⟩, hrest⟩
        cases hstep
        rw [hafter] at hrest
        exact hrest
      · intro hrest
        refine ⟨_, ⟨.bind hreceipt hindex hrevision, state, hbind⟩, ?_⟩
        rw [hafter]
        exact hrest

theorem ShowsSame.display {m : UiState} (h : ShowsSame m l) (id : UiMessageId) :
    (m.entries[id]?).map UiEntry.display = (l.entries[id]?).map UiEntry.display := by
  have hdisplay : UiEntry.display = UiEntry.display ∘ UiEntry.shown := rfl
  rw [hdisplay, ← Option.map_map, ← Option.map_map, h.entries id]

/-- **Journalling a run shows nothing new**: every append succeeds, and what the user sees is
what the live copies alone show, exactly if no close without an outcome is appended after its
segment was closed with one. -/
theorem journalled_iff {s : UiState} {t : LiveState}
    (hjournals : Journals run [] es) (hrun : Run (LiveStep parseUuid run) ⟨s, []⟩ es t) :
    (Run (SucceedingStep parseUuid run) ⟨s, []⟩ es t ∧
      ∃ l, Run (LiveStep parseUuid run) ⟨s, []⟩ (copies es) l ∧ ∀ id : UiMessageId,
        (t.state.entries[id]?).map UiEntry.display = (l.state.entries[id]?).map UiEntry.display) ↔
      Timely run [] es := by
  obtain ⟨⟨l, hcopies, hsame⟩, hiff⟩ := runs_show_same [] (Copying.start s)
    (ShowsSame.refl s) (fun _ h => h) hjournals hrun
  rw [← hiff]
  exact ⟨And.left, fun h => ⟨h, _, hcopies, hsame.display⟩⟩

/-! ## The records of a stream -/

/-- Every close that is copied has an outcome: the adapters send no other, and the collector of a
stream refuses to close a segment as active. -/
def ClosesEnded (es : List RunEvent) : Prop :=
  ∀ message uuid, .copy message uuid ∈ es → ∀ segmentId, closeOf message ≠ some (segmentId, .active)

theorem closeOf_stamp (message : PersistedMessage) : closeOf (run.stamp message) = closeOf message := by
  cases message <;> rfl

theorem timely_of_closesEnded {copied queue : List PersistedMessage}
    (hqueue : ∀ message ∈ queue, ∀ segmentId, closeOf message ≠ some (segmentId, .active))
    (hjournals : Journals run queue es) (hended : ClosesEnded es) : Timely run copied es := by
  induction es generalizing copied queue with
  | nil => trivial
  | cons e es ih =>
    have hrest : ClosesEnded es := fun message uuid hmem =>
      hended message uuid (mem_cons_of_mem e hmem)
    cases e with
    | copy message uuid =>
      refine ih (fun m hm => ?_) hjournals.2 hrest
      rcases mem_append.mp hm with hm | hm
      · exact hqueue m hm
      · rw [mem_singleton.mp hm, closeOf_stamp]
        exact hended message uuid mem_cons_self
    | stage records read =>
      obtain ⟨-, taken, rest, rfl, hsub, hjournals⟩ := hjournals
      refine ⟨?_, ih (fun m hm => hqueue m (mem_append_right _ hm)) hjournals hrest⟩
      rintro record hrecord ⟨segmentId, hclose, -⟩
      obtain ⟨message, hmem, heq⟩ := mem_map.mp (hsub.subset (mem_map_of_mem (f := Prod.fst) hrecord))
      rw [← heq] at hclose
      exact hqueue message (mem_append_left _ hmem) segmentId hclose
    | bind receipt index => exact ih hqueue hjournals hrest

/-- **Journalling a live run does not change what the user sees**: every append succeeds, and at
the end every message is as the live copies alone leave it. -/
theorem journalled_same {s : UiState} {es : List RunEvent} {t : LiveState}
    (hended : ClosesEnded es) (hjournals : Journals run [] es)
    (hrun : Run (LiveStep parseUuid run) ⟨s, []⟩ es t) :
    Run (SucceedingStep parseUuid run) ⟨s, []⟩ es t ∧
      ∃ l, Run (LiveStep parseUuid run) ⟨s, []⟩ (copies es) l ∧ ∀ id : UiMessageId,
        (t.state.entries[id]?).map UiEntry.display = (l.state.entries[id]?).map UiEntry.display :=
  (journalled_iff hjournals hrun).mpr
    (timely_of_closesEnded (fun _ h => absurd h not_mem_nil) hjournals hended)

/-- A new session in which one run is registered. -/
def oneRunSession : UiState :=
  (UiState.beginRun
    { runId := "run", model := "model", provider := "provider", reasoningEffort := none }).stateAfter
    (UiState.opened
      { generation := "generation"
        revision := 0
        nextPosition := 0
        totalMessages := 0
        failure := none } 0)

def oneRun : UiHistoryRun := ⟨"generation", "run"⟩

def answering (updateSeq : ℕ) (delta : String) : PersistedMessage :=
  .providerUpdate ⟨"segment", "item", 0, updateSeq, .messageDelta delta⟩ none none (some "run")

def closing (segmentId : ProviderSegmentId) (outcome : ProviderSegmentOutcome) : PersistedMessage :=
  .providerSegmentClose segmentId outcome none none (some "run")

/-- An answer in two parts, and a segment that failed: the second part and the first close are
journalled when all is over, the first part and the second close never. -/
def lateBatch : List RunEvent :=
  [.copy (answering 0 "a") "", .copy (answering 1 "b") "", .copy (closing "segment" .completed) "",
    .copy (closing "other" .failed) "",
    .stage [(.ofMessage (answering 1 "b"), ""), (.ofMessage (closing "segment" .completed), "")]
      fun _ => none]

theorem journalled_same_lateBatch : ∃ t,
    Run (SucceedingStep (fun _ => .error "") oneRun) ⟨oneRunSession, []⟩ lateBatch t ∧
      ∃ l, Run (LiveStep (fun _ => .error "") oneRun) ⟨oneRunSession, []⟩ (copies lateBatch) l ∧
        ∀ id : UiMessageId, (t.state.entries[id]?).map UiEntry.display =
          (l.state.entries[id]?).map UiEntry.display := by
  have hrun : ∃ t, Run (LiveStep (fun _ => .error "") oneRun) ⟨oneRunSession, []⟩ lateBatch t :=
    ⟨_, .cons (.copy rfl) (.cons (.copy rfl) (.cons (.copy rfl) (.cons (.copy rfl)
      (.cons .stage (.nil _)))))⟩
  obtain ⟨t, hrun⟩ := hrun
  have hjournals : Journals oneRun [] lateBatch :=
    ⟨.inl rfl, .inl rfl, .inr (.inl rfl), .inr (.inl rfl), by simp,
      [answering 0 "a", answering 1 "b", closing "segment" .completed, closing "other" .failed], [],
      rfl, .cons _ (.cons_cons _ (.cons_cons _ (.cons _ .slnil))), trivial⟩
  refine ⟨t, journalled_same (fun message uuid hmem segmentId hclose => ?_) hjournals hrun⟩
  simp only [lateBatch, mem_cons, not_mem_nil, or_false, RunEvent.copy.injEq, reduceCtorEq] at hmem
  rcases hmem with ⟨rfl, -⟩ | ⟨rfl, -⟩ | ⟨rfl, -⟩ | ⟨rfl, -⟩ <;> cases hclose

end Runs

end Chelix.Sessions
