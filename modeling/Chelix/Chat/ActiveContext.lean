import Chelix.Agents.Model.CallHistory
import Chelix.Sessions.JournalOperations

/-!
# The active context of a session

The context of the next request is rebuilt from the journal as it is streamed: the segments
that assistant records carry first, then the records that the latest checkpoint leaves.
-/

namespace Chelix.Chat

open Option

open Chelix.Library Chelix.Common Chelix.Agents.Model Chelix.Sessions List ChatReconstruction
  ProviderSegmentMaterializer Decoder

/-! ## Loading -/

section Load

variable (env : Environment) (wrap : ChatMessageConversionError → Sessions.Error)

/-- The visitor of the streamed journal.  `wrap` is how it reports a failed conversion. -/
def visitActive (reconstruction : Option ChatReconstruction) :
    ActiveEvent → Except Sessions.Error (Option ChatReconstruction)
  | .start _ segmentIds => .ok (some (.new true segmentIds))
  | .row index payload =>
    match reconstruction with
    | none => .error (.message "active context started without its segment set")
    | some r => ((r.push env index payload).mapError wrap).map some

/-- The messages of the active context, and the tail of the journal that they were read at. -/
def loadActiveMessages (jsonExtract : Json → Option String) (key : String) (t : SessionTables) :
    Except Sessions.Error (List ChatMessage × ℕ) :=
  match withActiveRecords (visitActive env wrap) jsonExtract key t none with
  | .error e => .error e
  | .ok (none, _) => .error (.message "active context produced no reconstruction")
  | .ok (some r, tail) => .ok (r.finish env, tail)

/-- How the context is loaded reports a failed conversion. -/
def reconstructionError (serde : DecodeError → String) (e : ChatMessageConversionError) :
    Sessions.Error :=
  .message ("failed to reconstruct provider context: " ++ e.display serde)

end Load

/-! ## What is streamed -/

theorem streamRange_eq {σ : Type} (visit : σ → ActiveEvent → Except Sessions.Error σ)
    (t : SessionTables) (start stop : ℕ) (skipCheckpoints : Bool) (s : σ) :
    streamRange visit t start stop skipCheckpoints s =
      (t.records.toList.filter fun row => start ≤ row.1 ∧ row.1 < stop ∧
        (skipCheckpoints → row.2.role ≠ "checkpoint")).foldlM
          (fun s row => visit s (.row row.1 row.2.payload)) s := by
  unfold streamRange
  split
  · rename_i hempty
    have hnil : (t.records.toList.filter fun row => start ≤ row.1 ∧ row.1 < stop ∧
        (skipCheckpoints → row.2.role ≠ "checkpoint")) = [] := by
      rw [filter_eq_nil_iff]
      intro row _
      simp only [decide_eq_true_eq]
      omega
    rw [hnil]
    rfl
  · have hsorted := (OrderedMap.pairwise_toList t.records).filter fun row =>
      decide (row.1 < stop ∧ (skipCheckpoints → row.2.role ≠ "checkpoint"))
    have hlen := length_filter_le (fun row => decide ((start : ℤ) - 1 < row.1))
      (t.records.toList.filter fun row =>
        row.1 < stop ∧ (skipCheckpoints → row.2.role ≠ "checkpoint"))
    simp only
    rw [readPages_eq Prod.fst (by omega) hsorted _ _ _ _ (Nat.lt_succ_of_le hlen), rowsAfter,
      List.filter_filter]
    congr 1
    refine filter_congr fun row _ => ?_
    rw [← Bool.decide_and]
    refine decide_eq_decide.mpr ?_
    constructor
    · rintro ⟨hstart, hrest⟩
      exact ⟨by omega, hrest⟩
    · rintro ⟨hstart, hrest⟩
      exact ⟨by omega, hrest⟩

variable {env : Environment} {wrap : ChatMessageConversionError → Sessions.Error}

theorem pushAll_append (r : ChatReconstruction) (l l' : List (Json × ℕ)) :
    r.pushAll env (l ++ l') = (r.pushAll env l).bind fun r' => r'.pushAll env l' := by
  induction l generalizing r with
  | nil => rfl
  | cons entry l ih =>
    rw [cons_append, pushAll, pushAll]
    cases r.push env entry.2 entry.1 with
    | error e => rfl
    | ok r' => exact ih r'

theorem foldlM_visitActive (rows : List (ℕ × RecordRow)) (r : ChatReconstruction) :
    rows.foldlM (fun s row => visitActive env wrap s (.row row.1 row.2.payload)) (some r) =
      ((r.pushAll env (rows.map fun row => (row.2.payload, row.1))).mapError wrap).map some := by
  induction rows generalizing r with
  | nil => rfl
  | cons row rows ih =>
    rw [foldlM_cons, map_cons, pushAll, visitActive]
    cases r.push env row.1 row.2.payload with
    | error e => rfl
    | ok r' => exact ih r'

theorem role_eq (value : Json) : role value = (value.get "role").bind Json.asStr := by
  unfold role Json.index
  cases value.get "role" <;> rfl

variable {value : Json}

/-- The column of a role says which role it is, unless it is empty. -/
theorem recordRole_eq_iff {name : String} (hname : name ≠ "") :
    recordRole value = name ↔ role value = some name := by
  rw [recordRole, ← role_eq]
  cases role value with
  | none => simp [hname.symm]
  | some other => simp

theorem tailStart_eq (checkpoint : ℕ) (payload : Json) :
    Sessions.tailStart checkpoint payload = Agents.Model.tailStart payload checkpoint := by
  unfold Sessions.tailStart Agents.Model.tailStart Json.index
  cases payload.get "messagesSummarized" <;> rfl

variable {c : ℕ}

section Index

variable {t : SessionTables} {pointers : JournalPointers}

theorem streamRange_visitActive (h : JournalIndex env.fromStr t pointers) (start stop : ℕ)
    (skipCheckpoints : Bool) (r : ChatReconstruction) :
    streamRange (visitActive env wrap) t start stop skipCheckpoints (some r) =
      ((r.pushAll env (((t.values.zipIdx.take stop).drop start).filter fun entry =>
        !(skipCheckpoints && isCheckpoint entry.1))).mapError wrap).map some := by
  rw [streamRange_eq, foldlM_visitActive, h.toList_records, List.filter_map, List.map_map,
    ← filter_zipIdx_range, List.filter_filter]
  have hid : (fun row : ℕ × RecordRow => (row.2.payload, row.1)) ∘ (fun entry : Json × ℕ =>
      (entry.2, ({ role := recordRole entry.1, payload := entry.1 } : RecordRow))) = id := rfl
  rw [hid, List.map_id]
  congr 3
  refine filter_congr fun entry _ => ?_
  have hrole : recordRole entry.1 = "checkpoint" ↔ role entry.1 = some "checkpoint" :=
    recordRole_eq_iff (by decide)
  simp only [Function.comp_apply, isCheckpoint, hrole, ne_eq]
  cases skipCheckpoints <;> simp [Bool.and_assoc, Bool.and_comm, and_comm]

theorem latestCheckpoint_eq (h : JournalIndex env.fromStr t pointers)
    (hc : pointers.lastCheckpointIndex = some c) :
    ∃ payload, t.values[c]? = some payload ∧ latestCheckpoint t.values = some (payload, c) := by
  have hgreatest := (h.lastCheckpoint c).mp hc
  have hrole : ∀ record : Json,
      recordRole record = "checkpoint" ↔ role record = some "checkpoint" :=
    fun _ => recordRole_eq_iff (by decide)
  have hset : t.indicesWhere (fun record => recordRole record = "checkpoint") =
      {i | ∃ record, t.values[i]? = some record ∧ isCheckpoint record = true} := by
    ext i
    rw [h.mem_indicesWhere]
    simp only [Set.mem_ofPred_eq, isCheckpoint, decide_eq_true_eq, hrole]
  rw [hset] at hgreatest
  exact getLast?_filter_zipIdx hgreatest

theorem latestCheckpoint_eq_none (h : JournalIndex env.fromStr t pointers)
    (hc : pointers.lastCheckpointIndex = none) : latestCheckpoint t.values = none := by
  unfold latestCheckpoint
  cases hlast : (t.values.zipIdx.filter fun entry => isCheckpoint entry.1).getLast? with
  | none => rfl
  | some last =>
    obtain ⟨hmem, hcheckpoint⟩ := mem_filter.mp (mem_of_getLast? hlast)
    have hin : last.2 ∈ t.indicesWhere fun record => recordRole record = "checkpoint" := by
      refine (h.mem_indicesWhere _ _).mpr ⟨last.1, mem_zipIdx_iff_getElem?.mp hmem, ?_⟩
      exact (recordRole_eq_iff (by decide)).mpr (by simpa [isCheckpoint] using hcheckpoint)
    rw [h.lastCheckpoint_eq_none_iff.mp hc] at hin
    exact hin.elim

end Index

/-! ## What a reconstruction depends on -/

/-- The reconstruction with another set of replayed segments. -/
def withReplayed (r : ChatReconstruction) (replayed : Finset ProviderSegmentId) :
    ChatReconstruction :=
  { r with replayedSegmentIds := replayed }

/-- Another set of replayed segments says the same about every segment that records mention,
and the reconstruction holds no other segments. -/
structure ReplaysAlike (mentioned : ProviderSegmentId → Prop) (r : ChatReconstruction)
    (replayed : Finset ProviderSegmentId) : Prop where
  replayed : ∀ id, mentioned id → (id ∈ r.replayedSegmentIds ↔ id ∈ replayed)
  held : ∀ m ∈ r.providerSegments, ∃ id, mentioned id ∧ m.segment.segmentId = some id

variable {mentioned : ProviderSegmentId → Prop} {r : ChatReconstruction}
  {replayed : Finset ProviderSegmentId}

variable {id : ProviderSegmentId}

theorem held_replaySegment {segments segments' : List ProviderSegmentMaterializer}
    {c : ProviderSegmentMaterializer.Call} (hid : mentioned id)
    (hheld : ∀ m ∈ segments, ∃ id, mentioned id ∧ m.segment.segmentId = some id)
    (h : replaySegment segments id c = .ok segments') :
    ∀ m ∈ segments', ∃ id, mentioned id ∧ m.segment.segmentId = some id := by
  unfold replaySegment at h
  cases hfind : segments.find? (holdsSegment id) with
  | none =>
    rw [hfind] at h
    rcases hcall : (new id).call c with ⟨e | u, m'⟩
    · simp [hcall] at h
    · simp only [hcall, Except.ok.injEq] at h
      have hnew : m'.segment.segmentId = some id := by
        have hsegment := calls_segmentId
          (show (new id).segment.segmentId = some id from rfl) [c]
        rwa [calls, foldl_cons, foldl_nil, hcall] at hsegment
      intro m hm
      rw [← h] at hm
      rcases mem_append.mp hm with hm | hm
      · exact hheld m hm
      · rw [mem_singleton.mp hm]
        exact ⟨id, hid, hnew⟩
  | some found =>
    rw [hfind] at h
    have hfound : found.segment.segmentId = some id := by
      simpa [holdsSegment] using List.find?_some hfind
    rcases hcall : found.call c with ⟨e | u, m'⟩
    · simp [hcall] at h
    · simp only [hcall, Except.ok.injEq] at h
      have hnew : m'.segment.segmentId = some id := by
        have hsegment := calls_segmentId hfound [c]
        rwa [calls, foldl_cons, foldl_nil, hcall] at hsegment
      intro m hm
      rw [← h] at hm
      rcases mem_modifyFirst hm with hm | ⟨_, -, rfl⟩
      · exact hheld m hm
      · exact ⟨id, hid, hnew⟩

theorem ReplaysAlike.message_eq (h : ReplaysAlike mentioned r replayed) (env : Environment)
    {m : ProviderSegmentMaterializer} (hm : m ∈ r.providerSegments) :
    replayedAssistantMessage env m replayed =
      replayedAssistantMessage env m r.replayedSegmentIds := by
  obtain ⟨id, hid, hsegment⟩ := h.held m hm
  unfold replayedAssistantMessage
  simp only [hsegment, any_some, h.replayed id hid]

theorem emitResult_withReplayed (toolCallId content : String) :
    (withReplayed r replayed).emitResult toolCallId content =
      withReplayed (r.emitResult toolCallId content) replayed := by
  unfold emitResult withReplayed
  simp only
  split <;> rfl

theorem segments_emitResult (r : ChatReconstruction) (toolCallId content : String) :
    (r.emitResult toolCallId content).replayedSegmentIds = r.replayedSegmentIds ∧
      (r.emitResult toolCallId content).providerSegments = r.providerSegments := by
  unfold emitResult
  simp only
  split <;> exact ⟨rfl, rfl⟩

theorem push_withReplayed (index : ℕ) (hrole : role value ≠ some "provider_segment_close") :
    (withReplayed r replayed).push env index value =
      (r.push env index value).map (withReplayed · replayed) := by
  unfold push
  split
  all_goals rename_i hvalue
  · rfl
  · rfl
  · rfl
  · unfold pushAssistant
    cases decodeReasoning (value.get "reasoning") index with
    | error e => rfl
    | ok reasoning =>
      simp only
      cases providerItemsOf value index <;> rfl
  · unfold pushTool
    rw [emitResult_withReplayed]
    rfl
  · unfold pushToolLifecycle
    cases run "ToolLifecycleEvent" decodeToolLifecycleEvent value with
    | error e => rfl
    | ok lifecycle =>
      simp only
      cases terminalContent lifecycle.update with
      | none => rfl
      | some content =>
        simp only [emitResult_withReplayed]
        rfl
  · rfl
  · unfold pushProviderUpdate
    cases run "ProviderItemUpdate" decodeProviderItemUpdate value with
    | error e => rfl
    | ok update =>
      have hsegments : (withReplayed r replayed).providerSegments = r.providerSegments := rfl
      simp only [hsegments]
      cases replaySegment r.providerSegments update.segmentId (.applyUpdate update) <;> rfl
  · exact (hrole hvalue).elim
  · rfl
  · rfl

theorem segments_of_push {index : ℕ} {r' : ChatReconstruction}
    (hrole : role value ≠ some "provider_segment_close") (hpush : r.push env index value = .ok r') :
    r'.replayedSegmentIds = r.replayedSegmentIds ∧
      (r'.providerSegments = r.providerSegments ∨ ∃ id c, segmentCall value = some (id, c) ∧
        replaySegment r.providerSegments id c = .ok r'.providerSegments) := by
  unfold push at hpush
  split at hpush
  all_goals rename_i hvalue
  · obtain rfl := Except.ok.inj hpush
    exact ⟨rfl, Or.inl rfl⟩
  · obtain rfl := Except.ok.inj hpush
    exact ⟨rfl, Or.inl rfl⟩
  · obtain rfl := Except.ok.inj hpush
    exact ⟨rfl, Or.inl rfl⟩
  · unfold pushAssistant at hpush
    cases hreasoning : decodeReasoning (value.get "reasoning") index with
    | error e => simp [hreasoning] at hpush
    | ok reasoning =>
      cases hitems : providerItemsOf value index with
      | error e => simp [hreasoning, hitems] at hpush
      | ok items =>
        simp only [hreasoning, hitems, Except.ok.injEq] at hpush
        subst hpush
        exact ⟨rfl, Or.inl rfl⟩
  · obtain rfl := Except.ok.inj hpush
    have hemit := segments_emitResult r ((value.index "tool_call_id").asStr.getD "")
      ((value.index "content").asStr.getD (value.index "content").toText)
    exact ⟨hemit.1, Or.inl hemit.2⟩
  · unfold pushToolLifecycle at hpush
    cases hrun : run "ToolLifecycleEvent" decodeToolLifecycleEvent value with
    | error e => simp [hrun] at hpush
    | ok lifecycle =>
      cases hcontent : terminalContent lifecycle.update with
      | none =>
        simp only [hrun, hcontent, Except.ok.injEq] at hpush
        subst hpush
        exact ⟨rfl, Or.inl rfl⟩
      | some content =>
        simp only [hrun, hcontent, Except.ok.injEq] at hpush
        subst hpush
        have hemit := segments_emitResult r lifecycle.toolCallId content
        exact ⟨hemit.1, Or.inl hemit.2⟩
  · obtain rfl := Except.ok.inj hpush
    exact ⟨rfl, Or.inl rfl⟩
  · unfold pushProviderUpdate at hpush
    cases hdecode : decodeProviderItemUpdate value with
    | none => simp [run, hdecode] at hpush
    | some update =>
      simp only [run, hdecode] at hpush
      cases hreplay : replaySegment r.providerSegments update.segmentId (.applyUpdate update) with
      | error e => simp [hreplay] at hpush
      | ok segments =>
        simp only [hreplay, Except.ok.injEq] at hpush
        subst hpush
        refine ⟨rfl, Or.inr ⟨update.segmentId, .applyUpdate update, ?_, hreplay⟩⟩
        rw [segmentCall, if_pos hvalue, hdecode]
        rfl
  · exact (hrole hvalue).elim
  · obtain rfl := Except.ok.inj hpush
    exact ⟨rfl, Or.inl rfl⟩
  · cases hpush

theorem ReplaysAlike.of_push {index : ℕ} {r' : ChatReconstruction}
    (h : ReplaysAlike mentioned r replayed)
    (hcall : ∀ id c, segmentCall value = some (id, c) → mentioned id)
    (hrole : role value ≠ some "provider_segment_close") (hpush : r.push env index value = .ok r') :
    ReplaysAlike mentioned r' replayed := by
  obtain ⟨hreplayed, hsegments⟩ := segments_of_push hrole hpush
  refine ⟨fun id hid => ?_, ?_⟩
  · rw [hreplayed]
    exact h.replayed id hid
  · rcases hsegments with hsame | ⟨id, c, hvalue, hreplay⟩
    · rw [hsame]
      exact h.held
    · exact held_replaySegment (hcall id c hvalue) h.held hreplay

theorem ReplaysAlike.pushProviderClose (h : ReplaysAlike mentioned r replayed)
    (hcall : ∀ id c, segmentCall value = some (id, c) → mentioned id)
    (hrole : role value = some "provider_segment_close") (index : ℕ) :
    ∃ replayed',
      (withReplayed r replayed).pushProviderClose env index value =
        (r.pushProviderClose env index value).map (withReplayed · replayed') ∧
      ∀ r', r.pushProviderClose env index value = .ok r' →
        ReplaysAlike mentioned r' replayed' := by
  unfold ChatReconstruction.pushProviderClose
  cases hdecode : decodePersistedSegmentClose value with
  | none =>
    simp only [Decoder.run, hdecode]
    exact ⟨replayed, rfl, fun r' h' => by cases h'⟩
  | some close =>
    have hid : mentioned close.segmentId := by
      refine hcall close.segmentId (.close close.outcome) ?_
      rw [segmentCall, if_neg (by rw [hrole]; decide), if_pos hrole, hdecode]
      rfl
    have hsegments : (withReplayed r replayed).providerSegments = r.providerSegments := rfl
    simp only [Decoder.run, hdecode, hsegments]
    cases hreplay : replaySegment r.providerSegments close.segmentId (.close close.outcome) with
    | error e => exact ⟨replayed, rfl, fun r' h' => by cases h'⟩
    | ok segments =>
      have hheld := held_replaySegment hid h.held hreplay
      simp only
      unfold ChatReconstruction.flushReplayedSegment
      cases hfind : segments.find? (holdsSegment close.segmentId) with
      | none =>
        refine ⟨replayed, rfl, fun r' h' => ?_⟩
        obtain rfl := Except.ok.inj h'
        exact ⟨h.replayed, hheld⟩
      | some m =>
        have halike : ReplaysAlike mentioned { r with providerSegments := segments } replayed :=
          ⟨h.replayed, hheld⟩
        have hmessage := halike.message_eq env (mem_of_find?_eq_some hfind)
        simp only [withReplayed] at hmessage ⊢
        rw [hmessage]
        cases replayedAssistantMessage env m r.replayedSegmentIds with
        | none =>
          refine ⟨replayed, rfl, fun r' h' => ?_⟩
          obtain rfl := Except.ok.inj h'
          exact halike
        | some message =>
          refine ⟨insert close.segmentId replayed, rfl, fun r' h' => ?_⟩
          obtain rfl := Except.ok.inj h'
          refine ⟨fun id hmentioned => ?_, hheld⟩
          simp only [Finset.mem_insert, h.replayed id hmentioned]

/-- **A reconstruction depends on the replayed segments only through those that its records
mention.** -/
theorem ReplaysAlike.pushAll_congr (env : Environment) (h : ReplaysAlike mentioned r replayed)
    (entries : List (Json × ℕ))
    (hcall : ∀ entry ∈ entries, ∀ id c, segmentCall entry.1 = some (id, c) → mentioned id) :
    ∃ replayed',
      (withReplayed r replayed).pushAll env entries =
        (r.pushAll env entries).map (withReplayed · replayed') ∧
      ∀ r', r.pushAll env entries = .ok r' → ReplaysAlike mentioned r' replayed' := by
  induction entries generalizing r replayed with
  | nil =>
    refine ⟨replayed, rfl, fun r' h' => ?_⟩
    obtain rfl := Except.ok.inj h'
    exact h
  | cons entry entries ih =>
    have hone : ∃ replayed',
        (withReplayed r replayed).push env entry.2 entry.1 =
          (r.push env entry.2 entry.1).map (withReplayed · replayed') ∧
        ∀ r', r.push env entry.2 entry.1 = .ok r' → ReplaysAlike mentioned r' replayed' := by
      have hcall' := hcall entry (mem_cons_self ..)
      by_cases hrole : role entry.1 = some "provider_segment_close"
      · have hpush : ∀ r : ChatReconstruction,
            r.push env entry.2 entry.1 = r.pushProviderClose env entry.2 entry.1 := by
          intro r
          simp only [push, hrole]
        rw [hpush, hpush]
        exact h.pushProviderClose hcall' hrole entry.2
      · exact ⟨replayed, push_withReplayed entry.2 hrole,
          fun r' hpush => h.of_push hcall' hrole hpush⟩
    obtain ⟨replayed₁, hpush, halike⟩ := hone
    rw [pushAll, pushAll, hpush]
    cases hok : r.push env entry.2 entry.1 with
    | error e => exact ⟨replayed₁, rfl, fun r' h' => by cases h'⟩
    | ok r₁ =>
      exact ih (halike r₁ hok) fun entry' hentry' =>
        hcall entry' (mem_cons_of_mem _ hentry')

theorem ReplaysAlike.finish (env : Environment) (h : ReplaysAlike mentioned r replayed) :
    (withReplayed r replayed).finish env = r.finish env := by
  have hfold : ∀ (segments : List ProviderSegmentMaterializer) (r : ChatReconstruction)
      (replayed : Finset ProviderSegmentId),
      (∀ id, mentioned id → (id ∈ r.replayedSegmentIds ↔ id ∈ replayed)) →
      (∀ m ∈ segments, ∃ id, mentioned id ∧ m.segment.segmentId = some id) →
      (segments.foldl (fun r m => r.appendReplayedSegment env m)
          (withReplayed r replayed)).messages =
        (segments.foldl (fun r m => r.appendReplayedSegment env m) r).messages := by
    intro segments
    induction segments with
    | nil => intro r replayed _ _; rfl
    | cons m segments ih =>
      intro r replayed hreplayed hheld
      obtain ⟨id, hid, hsegment⟩ := hheld m (mem_cons_self ..)
      have hrest := fun m' hm' => hheld m' (mem_cons_of_mem m hm')
      have hmessage : replayedAssistantMessage env m replayed =
          replayedAssistantMessage env m r.replayedSegmentIds := by
        unfold replayedAssistantMessage
        simp only [hsegment, any_some, hreplayed id hid]
      rw [foldl_cons, foldl_cons]
      unfold ChatReconstruction.appendReplayedSegment
      simp only [withReplayed] at hmessage ⊢
      rw [hmessage]
      cases replayedAssistantMessage env m r.replayedSegmentIds with
      | none => exact ih r replayed hreplayed hrest
      | some message =>
        simp only [hsegment, elim_some]
        refine ih { r with
          messages := r.messages ++ [message]
          replayedSegmentIds := insert id r.replayedSegmentIds } (insert id replayed) ?_ hrest
        intro id' hid'
        simp only [Finset.mem_insert, hreplayed id' hid']
  unfold ChatReconstruction.finish ChatReconstruction.appendReplayedProviderSegments
  rw [show (withReplayed r replayed).providerSegments = r.providerSegments from rfl,
    hfold r.providerSegments r replayed h.replayed h.held]

/-! ## The segments of the window -/

theorem carries_iff {fromStr : String → Except String Json} {record : Json} :
    Carries fromStr id record ↔ role record = some "assistant" ∧ segmentIdOf record = some id := by
  unfold Carries recordDisclosure
  rw [role_eq]
  constructor
  · rintro ⟨disclosure, hdisclosure, hsegment⟩
    cases hnames : disclosedNames fromStr record with
    | error e =>
      rw [hnames] at hdisclosure
      cases hdisclosure
    | ok names =>
      rw [hnames] at hdisclosure
      obtain rfl := Except.ok.inj hdisclosure
      simp only [disclosedSegment] at hsegment
      split at hsegment
      · exact ⟨‹_›, hsegment⟩
      · cases hsegment
  · rintro ⟨hrole, hsegment⟩
    refine ⟨⟨collectDirectToolCalls record ∅, some id⟩, ?_, rfl⟩
    have hnames : disclosedNames fromStr record = .ok (collectDirectToolCalls record ∅) := by
      simp only [disclosedNames, hrole]
    have hcarried : disclosedSegment record = some id := by
      rw [disclosedSegment, if_pos hrole]
      exact hsegment
    rw [hnames, hcarried]
    rfl

theorem mem_assistantSegmentIds {values : List Json} :
    id ∈ assistantSegmentIds values ↔ ∃ (i : ℕ) (record : Json), values[i]? = some record ∧
      role record = some "assistant" ∧ segmentIdOf record = some id := by
  simp only [assistantSegmentIds, List.mem_toFinset, mem_filterMap, mem_filter,
    decide_eq_true_eq]
  constructor
  · rintro ⟨record, ⟨hmem, hrole⟩, hsegment⟩
    obtain ⟨i, hget⟩ := mem_iff_getElem?.mp hmem
    exact ⟨i, record, hget, hrole, hsegment⟩
  · rintro ⟨i, record, hget, hrole, hsegment⟩
    exact ⟨record, ⟨mem_of_getElem? hget, hrole⟩, hsegment⟩

theorem mem_segmentsWhere {t : SessionTables} {p : ℕ → String → Prop} [∀ i s, Decidable (p i s)] :
    id ∈ segmentsWhere t p ↔ ∃ i : ℕ, t.assistantSegments[i]? = some id ∧ p i id := by
  simp only [segmentsWhere, List.mem_toFinset, List.mem_map, mem_filter, decide_eq_true_eq]
  constructor
  · rintro ⟨⟨i, _⟩, ⟨hmem, hp⟩, rfl⟩
    exact ⟨i, OrderedMap.mem_toList.mp hmem, hp⟩
  · rintro ⟨i, hget, hp⟩
    exact ⟨(i, id), ⟨OrderedMap.mem_toList.mpr hget, hp⟩, rfl⟩

theorem segmentId_of_segmentCall {c : ProviderSegmentMaterializer.Call}
    (h : segmentCall value = some (id, c)) :
    (role value = some "provider_update" ∨ role value = some "provider_segment_close") ∧
      value.get "segmentId" = some (.str id) := by
  have hobj : ∀ name, role value = some name → ∃ fields, value = .obj fields := by
    intro name hrole
    cases value with
    | obj fields => exact ⟨fields, rfl⟩
    | _ => cases hrole
  have hstring : ∀ field : Option Json,
      Decoder.required decodeProviderSegmentId field = some id → field = some (.str id) := by
    intro field hfield
    obtain ⟨value, rfl, hvalue⟩ := bind_eq_some_iff.mp hfield
    cases value with
    | str text => rw [Option.some.inj hvalue]
    | _ => cases hvalue
  unfold segmentCall at h
  split at h
  · rename_i hrole
    obtain ⟨fields, rfl⟩ := hobj _ hrole
    obtain ⟨update, hdecode, hcall⟩ := map_eq_some_iff.mp h
    obtain rfl : update.segmentId = id := congrArg Prod.fst hcall
    refine ⟨Or.inl hrole, hstring _ ?_⟩
    simp only [decodeProviderItemUpdate, Decoder.fields, map_cons, map_nil,
      bind_eq_bind, bind_some, bind_eq_some_iff, Option.some.injEq] at hdecode
    obtain ⟨segmentId, hsegmentId, _, _, _, _, _, _, _, _, rfl⟩ := hdecode
    exact hsegmentId
  · split at h
    · rename_i hrole
      obtain ⟨fields, rfl⟩ := hobj _ hrole
      obtain ⟨close, hdecode, hcall⟩ := map_eq_some_iff.mp h
      obtain rfl : close.segmentId = id := congrArg Prod.fst hcall
      refine ⟨Or.inr hrole, hstring _ ?_⟩
      simp only [decodePersistedSegmentClose, Decoder.fields, map_cons, map_nil,
        bind_eq_bind, bind_some, bind_eq_some_iff, Option.some.injEq]
        at hdecode
      obtain ⟨segmentId, hsegmentId, _, _, rfl⟩ := hdecode
      exact hsegmentId
    · cases h

/-- The segments that the records of a list call. -/
def Mentions (entries : List (Json × ℕ)) (id : ProviderSegmentId) : Prop :=
  ∃ entry ∈ entries, ∃ c, segmentCall entry.1 = some (id, c)

section Window

variable {t : SessionTables} {pointers : JournalPointers}

theorem mem_assistantSegmentIds_iff (h : JournalIndex env.fromStr t pointers)
    (id : ProviderSegmentId) :
    id ∈ assistantSegmentIds t.values ↔ ∃ i : ℕ, t.assistantSegments[i]? = some id := by
  rw [mem_assistantSegmentIds]
  simp only [h.assistantSegments, h.mem_indicesWhere, carries_iff]

theorem mem_orderedValues {values : List Json} {checkpoint : Json}
    (hlatest : latestCheckpoint values = some (checkpoint, c)) {entry : Json × ℕ}
    (hentry : entry ∈ orderedValues values) :
    entry = (checkpoint, c) ∨ (entry ∈ values.zipIdx ∧
      ((tailStart checkpoint c ≤ entry.2 ∧ entry.2 < c) ∨ c < entry.2)) := by
  have hdrop := filter_zipIdx_le values 0 (c + 1)
  simp only [Nat.zero_add] at hdrop
  unfold orderedValues at hentry
  rw [hlatest] at hentry
  simp only [cons_append, mem_cons, mem_append, ← filter_zipIdx_range, ← hdrop,
    mem_filter, decide_eq_true_eq] at hentry
  rcases hentry with rfl | ⟨⟨hmem, hrange⟩, -⟩ | ⟨hmem, hafter⟩
  · exact Or.inl rfl
  · exact Or.inr ⟨hmem, Or.inl hrange⟩
  · exact Or.inr ⟨hmem, Or.inr (by omega)⟩

/-- The query finds the segment of every append-only record of the window. -/
theorem mem_mentionedInWindow (h : JournalIndex env.fromStr t pointers)
    (jsonExtract : Json → Option String) {entry : Json × ℕ} (hentry : entry ∈ t.values.zipIdx)
    (hrole : role entry.1 = some "provider_update" ∨ role entry.1 = some "provider_segment_close")
    (hsegment : entry.1.get "segmentId" = some (.str id)) {start : ℕ}
    (hwindow : (start ≤ entry.2 ∧ entry.2 < c) ∨ c < entry.2) :
    id ∈ mentionedInWindow jsonExtract t pointers.canonicalTail start c := by
  have hcolumn : recordRole entry.1 = "provider_update" ∨
      recordRole entry.1 = "provider_segment_close" := by
    rwa [recordRole_eq_iff (by decide), recordRole_eq_iff (by decide)]
  have hlt : entry.2 < pointers.canonicalTail := by
    rw [← h.length_values]
    exact snd_lt_of_mem_zipIdx hentry
  refine mem_filterMap.mpr
    ⟨(entry.2, { role := recordRole entry.1, payload := entry.1 }), ?_, ?_⟩
  · rw [h.toList_records, mem_filter, decide_eq_true_eq]
    exact ⟨List.mem_map.mpr ⟨entry, hentry, rfl⟩, hcolumn, hlt, hwindow⟩
  · simp only [extractSegmentId, hsegment]

/-- **The segments that the window needs are found**: the query and the whole history agree on
every segment that a record of the window calls. -/
theorem segmentIds_eq (h : JournalIndex env.fromStr t pointers)
    (jsonExtract : Json → Option String) :
    ∃ ids, segmentIds jsonExtract t pointers = .ok ids ∧
      ∀ id, Mentions (orderedValues t.values) id →
        (id ∈ assistantSegmentIds t.values ↔ id ∈ ids) := by
  have hlt : ∀ {i : ℕ} {id : ProviderSegmentId}, t.assistantSegments[i]? = some id →
      i < pointers.canonicalTail := fun hget =>
    h.lt_of_mem_indicesWhere ((h.assistantSegments _ _).mp hget)
  unfold segmentIds
  cases hc : pointers.lastCheckpointIndex with
  | none =>
    refine ⟨_, rfl, fun id _ => ?_⟩
    rw [mem_assistantSegmentIds_iff h, mem_segmentsWhere]
    exact ⟨fun ⟨i, hget⟩ => ⟨i, hget, hlt hget⟩, fun ⟨i, hget, _⟩ => ⟨i, hget⟩⟩
  | some c =>
    obtain ⟨payload, hpayload, hlatest⟩ := latestCheckpoint_eq h hc
    obtain ⟨row, hrow, rfl⟩ := (h.getElem?_values c payload).mp hpayload
    have hctail : c < pointers.canonicalTail :=
      h.lt_of_mem_indicesWhere ((h.lastCheckpoint c).mp hc).1
    have hcheckpoint : role row.payload = some "checkpoint" :=
      (recordRole_eq_iff (by decide)).mp
        (by obtain ⟨row', hrow', hrole⟩ := ((h.lastCheckpoint c).mp hc).1
            rw [hrow] at hrow'
            rwa [← Option.some.inj hrow'] at hrole)
    have hrequired : requiredPayload t c = .ok row.payload := by
      rw [requiredPayload, hrow]
    simp only [filter_some, decide_eq_true hctail, if_true, hrequired, tailStart_eq]
    refine ⟨_, rfl, fun id hmentioned => ?_⟩
    simp only [Finset.mem_union, mem_segmentsWhere, mem_assistantSegmentIds_iff h]
    constructor
    · rintro ⟨i, hget⟩
      have hassistant := (h.assistantSegments i id).mp hget
      rw [h.mem_indicesWhere] at hassistant
      obtain ⟨record, hrecord, hcarries⟩ := hassistant
      have hne : i ≠ c := by
        rintro rfl
        rw [hpayload] at hrecord
        rw [← Option.some.inj hrecord, carries_iff, hcheckpoint] at hcarries
        exact absurd hcarries.1 (by decide)
      by_cases hstart : i < tailStart row.payload c
      · -- the segment is older than the window, so the back reference has to find it
        refine Or.inr ⟨i, hget, hstart, ?_⟩
        obtain ⟨entry, hentry, call, hcall⟩ := hmentioned
        obtain ⟨hrole, hsegment⟩ := segmentId_of_segmentCall hcall
        have hne' : entry ≠ (row.payload, c) := by
          rintro rfl
          rcases hrole with hrole | hrole
          all_goals rw [hcheckpoint] at hrole; exact absurd hrole (by decide)
        obtain ⟨hentry, hwindow⟩ := (mem_orderedValues hlatest hentry).resolve_left hne'
        exact mem_mentionedInWindow h jsonExtract hentry hrole hsegment hwindow
      · refine Or.inl ?_
        rcases Nat.lt_or_gt_of_ne hne with hbefore | hafter
        · exact Or.inl ⟨i, hget, by omega, hbefore⟩
        · exact Or.inr ⟨i, hget, hafter, hlt hget⟩
    · rintro ((⟨i, hget, -⟩ | ⟨i, hget, -⟩) | ⟨i, hget, -⟩)
      all_goals exact ⟨i, hget⟩

/-! ## The two ways to load a context -/

theorem visitActive_row (r : ChatReconstruction) (index : ℕ) (payload : Json) :
    visitActive env wrap (some r) (.row index payload) =
      ((r.pushAll env [(payload, index)]).mapError wrap).map some := by
  rw [visitActive, pushAll]
  cases r.push env index payload <;> rfl

theorem visitRecords_eq (h : JournalIndex env.fromStr t pointers) (r : ChatReconstruction) :
    visitRecords (visitActive env wrap) t pointers (some r) =
      ((r.pushAll env (orderedValues t.values)).mapError wrap).map some := by
  have hall : ∀ start : ℕ, ((t.values.zipIdx.take pointers.canonicalTail).drop start).filter
      (fun entry => !(false && isCheckpoint entry.1)) = t.values.zipIdx.drop start := by
    intro start
    have hself := filter_eq_self.mpr fun (entry : Json × ℕ)
      (_ : entry ∈ (t.values.zipIdx.take pointers.canonicalTail).drop start) =>
        (rfl : (!(false && isCheckpoint entry.1)) = true)
    rw [hself, take_of_length_le]
    rw [length_zipIdx, h.length_values]
  unfold visitRecords
  cases hc : pointers.lastCheckpointIndex with
  | none =>
    simp only [filter_none, streamRange_visitActive h, hall]
    rw [orderedValues, latestCheckpoint_eq_none h hc, drop_zero]
  | some c =>
    obtain ⟨payload, hpayload, hlatest⟩ := latestCheckpoint_eq h hc
    obtain ⟨row, hrow, rfl⟩ := (h.getElem?_values c payload).mp hpayload
    have hctail : c < pointers.canonicalTail :=
      h.lt_of_mem_indicesWhere ((h.lastCheckpoint c).mp hc).1
    have hrequired : requiredPayload t c = .ok row.payload := by
      rw [requiredPayload, hrow]
    have hordered : orderedValues t.values =
        [(row.payload, c)] ++ ((t.values.zipIdx.take c).drop
          (tailStart row.payload c)).filter (fun entry =>
            !(true && isCheckpoint entry.1)) ++ t.values.zipIdx.drop (c + 1) := by
      rw [orderedValues, hlatest]
      rfl
    simp only [filter_some, decide_eq_true hctail, if_true, hrequired, tailStart_eq]
    rw [hordered, pushAll_append, pushAll_append]
    change (visitActive env wrap (some r) (.row c row.payload) >>= fun s =>
      streamRange (visitActive env wrap) t (tailStart row.payload c) c true s >>=
        streamRange (visitActive env wrap) t (c + 1) pointers.canonicalTail false) = _
    rw [visitActive_row]
    cases r.pushAll env [(row.payload, c)] with
    | error e => rfl
    | ok r₁ =>
      change (streamRange (visitActive env wrap) t (tailStart row.payload c) c true
        (some r₁) >>=
          streamRange (visitActive env wrap) t (c + 1) pointers.canonicalTail false) = _
      rw [streamRange_visitActive h]
      simp only [Except.bind]
      cases r₁.pushAll env (((t.values.zipIdx.take c).drop
          (tailStart row.payload c)).filter fun entry =>
            !(true && isCheckpoint entry.1)) with
      | error e => rfl
      | ok r₂ =>
        change streamRange (visitActive env wrap) t (c + 1) pointers.canonicalTail false
          (some r₂) = _
        rw [streamRange_visitActive h, hall]

/-- **The streamed context is the context of the whole journal.**  The segments that the
queries find, the pages and the order of the rows make no difference: loading gives the messages
of all records, or reports the error that their conversion gives. -/
theorem loadActiveMessages_eq (env : Environment)
    (wrap : ChatMessageConversionError → Sessions.Error) (jsonExtract : Json → Option String)
    (key : String) (t : SessionTables) (pointers : JournalPointers)
    (hjournal : t.journal = some pointers) (h : JournalIndex env.fromStr t pointers) :
    loadActiveMessages env wrap jsonExtract key t =
      ((valuesToChatMessages env t.values).mapError wrap).map fun messages =>
        (messages, pointers.canonicalTail) := by
  obtain ⟨ids, hids, hagree⟩ := segmentIds_eq h jsonExtract
  have hload : withActiveRecords (visitActive env wrap) jsonExtract key t none =
      (((ChatReconstruction.new true ids).pushAll env (orderedValues t.values)).mapError
        wrap).map fun r => (some r, pointers.canonicalTail) := by
    unfold withActiveRecords
    rw [hjournal]
    simp only [hids]
    by_cases htail : pointers.canonicalTail = 0
    · have hnil : t.values = [] := List.length_eq_zero_iff.mp (h.length_values.trans htail)
      change (if pointers.canonicalTail = 0 then _ else _) = _
      rw [if_pos htail, hnil, htail]
      rfl
    · change (if pointers.canonicalTail = 0 then _ else
        visitRecords (visitActive env wrap) t pointers (some (ChatReconstruction.new true ids)) >>=
          fun s => Except.ok (s, pointers.canonicalTail)) = _
      rw [if_neg htail, visitRecords_eq h]
      cases (ChatReconstruction.new true ids).pushAll env (orderedValues t.values) <;> rfl
  have halike : ReplaysAlike (Mentions (orderedValues t.values))
      (ChatReconstruction.new true (assistantSegmentIds t.values)) ids :=
    ⟨hagree, fun m hm => by cases hm⟩
  obtain ⟨replayed, hpush, hfinal⟩ := halike.pushAll_congr env (orderedValues t.values)
    fun entry hentry id c hcall => ⟨entry, hentry, c, hcall⟩
  have hnew : withReplayed (ChatReconstruction.new true (assistantSegmentIds t.values)) ids =
      ChatReconstruction.new true ids := rfl
  rw [hnew] at hpush
  unfold loadActiveMessages valuesToChatMessages valuesToChatMessagesInner
  rw [hload, hpush]
  cases hok : (ChatReconstruction.new true (assistantSegmentIds t.values)).pushAll env
      (orderedValues t.values) with
  | error e => rfl
  | ok r =>
    have hfinish := (hfinal r hok).finish env
    change Except.ok ((withReplayed r replayed).finish env, pointers.canonicalTail) = _
    rw [hfinish]
    rfl

end Window

/-! ## A journal with a checkpoint -/

/-- A parser that reads no text. -/
def refusing : Environment where
  fromStr := fun _ => .error "expected value"
  dataDir := ""

/-- A user record, an answer that the checkpoint after it keeps, and another user record. -/
def checkpointedRecords : List Json :=
  [.obj [("role", .str "user"), ("content", .str "first")],
    .obj [("role", .str "assistant"), ("content", .str "answer"), ("segmentId", .str "segment")],
    .obj [("role", .str "checkpoint"), ("summary", .str "summary"),
      ("messagesSummarized", .num (.posInt 1))],
    .obj [("role", .str "user"), ("content", .str "second")]]

def checkpointedTables : SessionTables :=
  match append refusing.fromStr (clearJournal .empty) checkpointedRecords 0 with
  | .ok t => t
  | .error _ => .empty

theorem loadActiveMessages_checkpointed :
    loadActiveMessages refusing (reconstructionError fun _ => "") (fun _ => none) "session"
        checkpointedTables =
      .ok ([.user (.text "<conversation-summary>\nsummary\n</conversation-summary>") none,
        .assistant (some "answer") [] none [] (some "segment"),
        .user (.text "second") none], 4) := by
  have happend : append refusing.fromStr (clearJournal .empty) checkpointedRecords 0 =
      .ok checkpointedTables := rfl
  have hindex : JournalIndex refusing.fromStr checkpointedTables ⟨4, some 2, some 0⟩ :=
    Indexed.append (Indexed.clearJournal .empty) happend
  rw [loadActiveMessages_eq refusing _ _ "session" checkpointedTables ⟨4, some 2, some 0⟩ rfl
    hindex]
  rfl

end Chelix.Chat
