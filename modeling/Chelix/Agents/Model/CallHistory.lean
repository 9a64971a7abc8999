import Chelix.Agents.Model.CallResults
import Chelix.Agents.Model.ChatReconstruction
import Chelix.Common.Materialization
import Chelix.Library.Lists

/-!
# Calls and results in the records

The word of a call identity, read off the records themselves: assistant records and replayed
segments issue calls, and a result record answers a call that awaits one.
-/

namespace Chelix.Agents.Model

open Chelix.Library Chelix.Common List ProviderSegmentMaterializer ChatReconstruction ChatMessage

/-! ## What a record says about calls -/

/-- The method of a segment's materializer that a record calls. -/
def segmentCall (value : Json) : Option (ProviderSegmentId × ProviderSegmentMaterializer.Call) :=
  if role value = some "provider_update" then
    (decodeProviderItemUpdate value).map fun update => (update.segmentId, .applyUpdate update)
  else if role value = some "provider_segment_close" then
    (decodePersistedSegmentClose value).map fun close => (close.segmentId, .close close.outcome)
  else none

/-- The segment that a record closes. -/
def closedSegment (value : Json) : Option ProviderSegmentId :=
  if role value = some "provider_segment_close" then
    (decodePersistedSegmentClose value).map PersistedSegmentClose.segmentId
  else none

/-- The calls that an assistant record lists among its provider items. -/
def itemCallIds (value : Json) : List String :=
  ((((value.get "providerItems").bind Json.asArray).getD []).filterMap
    decodeProviderOutputItem).filterMap functionCallId

/-- The call that a result record answers. -/
def resultId (value : Json) : Option String :=
  if role value = some "tool" then some ((value.index "tool_call_id").asStr.getD "")
  else if role value = some "tool_lifecycle" then
    (decodeToolLifecycleEvent value).bind fun lifecycle =>
      (ChatReconstruction.terminalContent lifecycle.update).map fun _ => lifecycle.toolCallId
  else none

/-! ## What a history says about calls -/

/-- The materializer of a segment after a list of records. -/
def segmentAfter (segmentId : ProviderSegmentId) (records : List Json) :
    ProviderSegmentMaterializer :=
  (ProviderSegmentMaterializer.new segmentId).calls
    ((part Prod.fst segmentId (records.filterMap segmentCall)).map Prod.snd)

/-- The calls in the items of a segment after a list of records. -/
def segmentCallIds (segmentId : ProviderSegmentId) (records : List Json) : List String :=
  (segmentAfter segmentId records).segment.items.filterMap functionCallId

/-- Whether a record closed the segment when it had items. -/
def closedWithItems (segmentId : ProviderSegmentId) (records : List Json) : Bool :=
  (withPrefixes records).any fun (before, value) =>
    decide (closedSegment value = some segmentId ∧
      (segmentAfter segmentId before).segment.items ≠ [])

/-- The segments that records mention, in the order of their first mention. -/
def mentionedSegments (records : List Json) : List ProviderSegmentId :=
  firstMentions ((records.filterMap segmentCall).map Prod.fst)

section History

variable (env : Environment)

/-- The calls that an assistant record lists in `tool_calls`. -/
def toolCallIds (value : Json) : List String := (toolCallsOf env value).map ToolCall.id

/-- Whether a call awaits a result after a list of records: an assistant record listed it in
`tool_calls`, and no result record named it since. -/
def awaitsResult (id : String) (records : List Json) : Bool :=
  records.foldl (fun waiting value =>
    if role value = some "assistant" then waiting || decide (id ∈ toolCallIds env value)
    else if resultId value = some id then false
    else waiting) false

/-- What a record adds to the word of a call, after the records before it.  The segments in
`carried` are those of assistant records. -/
def recordEvents (carried : Finset ProviderSegmentId) (id : String) (before : List Json)
    (value : Json) : List CallEvent :=
  if role value = some "assistant" then
    if id ∈ toolCallIds env value ++ itemCallIds value then [.issue] else []
  else
    match closedSegment value with
    | some segmentId =>
      if segmentId ∉ carried ∧ closedWithItems segmentId before = false ∧
        id ∈ segmentCallIds segmentId before then [.issue] else []
    | none => if resultId value = some id ∧ awaitsResult env id before then [.result] else []

/-- The word of a call over the records as they are taken. -/
def recordsWord (carried : Finset ProviderSegmentId) (id : String) (records : List Json) :
    List CallEvent :=
  (withPrefixes records).flatMap fun (before, value) => recordEvents env carried id before value

/-- The word of a call over the segments that are still to be replayed at the end. -/
def remainingWord (carried : Finset ProviderSegmentId) (id : String) (records : List Json) :
    List CallEvent :=
  (mentionedSegments records).flatMap fun segmentId =>
    if segmentId ∉ carried ∧ closedWithItems segmentId records = false ∧
      id ∈ segmentCallIds segmentId records then [.issue] else []

/-- **The word of a call in the records of a session**, from the latest checkpoint on. -/
def callHistory (values : List Json) (id : String) : List CallEvent :=
  let records := (orderedValues values).map Prod.fst
  let carried := assistantSegmentIds values
  recordsWord env carried id records ++ remainingWord carried id records

/-! ## One more record -/

theorem segmentAfter_append (segmentId : ProviderSegmentId) (records : List Json) (value : Json) :
    segmentAfter segmentId (records ++ [value]) =
      match segmentCall value with
      | some (segmentId', c) =>
        if segmentId' = segmentId then ((segmentAfter segmentId records).call c).2
        else segmentAfter segmentId records
      | none => segmentAfter segmentId records := by
  unfold segmentAfter
  rw [filterMap_append]
  cases hcall : segmentCall value with
  | none => simp [hcall]
  | some call =>
    obtain ⟨segmentId', c⟩ := call
    have hone : [value].filterMap segmentCall = [(segmentId', c)] := by simp [hcall]
    rw [hone, part_append]
    simp only
    by_cases hid : segmentId' = segmentId
    · subst hid
      rw [if_pos rfl, part_cons_self Prod.fst (segmentId', c), part_nil, map_append,
        calls_append]
      rfl
    · rw [if_neg hid, part_cons_of_ne Prod.fst (a := (segmentId', c)) hid, part_nil,
        append_nil]

theorem closedWithItems_append (segmentId : ProviderSegmentId) (records : List Json)
    (value : Json) :
    closedWithItems segmentId (records ++ [value]) =
      (closedWithItems segmentId records ||
        decide (closedSegment value = some segmentId ∧
          (segmentAfter segmentId records).segment.items ≠ [])) := by
  simp [closedWithItems, any_append]

theorem awaitsResult_append (id : String) (records : List Json) (value : Json) :
    awaitsResult env id (records ++ [value]) =
      if role value = some "assistant" then
        awaitsResult env id records || decide (id ∈ toolCallIds env value)
      else if resultId value = some id then false
      else awaitsResult env id records := by
  simp only [awaitsResult, foldl_append, foldl_cons, foldl_nil]

theorem recordsWord_append (carried : Finset ProviderSegmentId) (id : String)
    (records : List Json) (value : Json) :
    recordsWord env carried id (records ++ [value]) =
      recordsWord env carried id records ++ recordEvents env carried id records value := by
  simp [recordsWord]

theorem mentionedSegments_append (records : List Json) (value : Json) :
    mentionedSegments (records ++ [value]) =
      match segmentCall value with
      | some (segmentId, _) =>
        if segmentId ∈ mentionedSegments records then mentionedSegments records
        else mentionedSegments records ++ [segmentId]
      | none => mentionedSegments records := by
  unfold mentionedSegments
  rw [filterMap_append, map_append]
  cases hcall : segmentCall value with
  | none => simp [hcall]
  | some call =>
    have hone : ([value].filterMap segmentCall).map Prod.fst = [call.1] := by simp [hcall]
    rw [hone]
    simp only [mem_firstMentions]
    split
    · rw [firstMentions_append_of_mem ‹_›]
    · rw [firstMentions_append_of_notMem ‹_›]

/-! ## Segments of the reconstruction -/

variable {m : ProviderSegmentMaterializer} {segmentId : ProviderSegmentId}

theorem applyUpdate_segmentId (h : m.segment.segmentId = some segmentId)
    (update : ProviderItemUpdate) :
    (m.applyUpdate update).2.segment.segmentId = some segmentId := by
  have hannounce : m.announce update = m := by
    simp only [announce, h]
  unfold applyUpdate
  rw [hannounce]
  cases m.checkSegment update with
  | error e => exact h
  | ok =>
    simp only
    cases m.checkSequence update with
    | error e => exact h
    | ok =>
      simp only
      cases applyToItems (m.recordSequence update).segment.items update with
      | error e | ok items => exact h

theorem close_segmentId (m : ProviderSegmentMaterializer) (outcome : ProviderSegmentOutcome) :
    (m.close outcome).2.segment.segmentId = m.segment.segmentId := by
  unfold close
  cases h : m.segment.segmentId with
  | none => exact h
  | some segmentId =>
    simp only
    split <;> exact h

theorem calls_segmentId (h : m.segment.segmentId = some segmentId)
    (cs : List ProviderSegmentMaterializer.Call) :
    (m.calls cs).segment.segmentId = some segmentId := by
  induction cs generalizing m with
  | nil => exact h
  | cons c cs ih =>
    rw [calls, foldl_cons, ← calls]
    refine ih ?_
    cases c with
    | applyUpdate update => exact applyUpdate_segmentId h update
    | close outcome => exact (close_segmentId m outcome).trans h

theorem segmentAfter_segmentId (segmentId : ProviderSegmentId) (records : List Json) :
    (segmentAfter segmentId records).segment.segmentId = some segmentId :=
  calls_segmentId rfl _

theorem nodup_mentionedSegments (records : List Json) : (mentionedSegments records).Nodup :=
  nodup_firstMentions _

/-- The materializers of the mentioned segments. -/
def segmentsAfter (records : List Json) : List ProviderSegmentMaterializer :=
  (mentionedSegments records).map fun segmentId => segmentAfter segmentId records

theorem holdsSegment_segmentAfter (segmentId segmentId' : ProviderSegmentId)
    (records : List Json) :
    holdsSegment segmentId (segmentAfter segmentId' records) =
      decide (segmentId' = segmentId) := by
  rw [holdsSegment, segmentAfter_segmentId]
  simp

theorem find?_segmentsAfter (segmentId : ProviderSegmentId) (records : List Json) :
    (segmentsAfter records).find? (holdsSegment segmentId) =
      if segmentId ∈ mentionedSegments records then some (segmentAfter segmentId records)
      else none := by
  unfold segmentsAfter
  induction mentionedSegments records with
  | nil => rfl
  | cons first rest ih =>
    rw [map_cons]
    by_cases hfirst : first = segmentId
    · subst hfirst
      rw [List.find?_cons_of_pos (by rw [holdsSegment_segmentAfter]; simp),
        if_pos (mem_cons_self ..)]
    · rw [List.find?_cons_of_neg (by rw [holdsSegment_segmentAfter]; simpa using hfirst), ih]
      simp [Ne.symm hfirst]

theorem modifyFirst_segments (m : ProviderSegmentMaterializer) (records : List Json)
    {ids : List ProviderSegmentId} (hids : ids.Nodup) :
    modifyFirst (holdsSegment segmentId) (fun _ => m)
        (ids.map fun id => segmentAfter id records) =
      ids.map fun id => if id = segmentId then m else segmentAfter id records := by
  induction ids with
  | nil => rfl
  | cons first ids ih =>
    rw [nodup_cons] at hids
    rw [map_cons, map_cons, modifyFirst, holdsSegment_segmentAfter]
    by_cases hfirst : first = segmentId
    · subst hfirst
      rw [if_pos (decide_eq_true rfl), if_pos rfl]
      congr 1
      refine map_congr_left fun id hid => ?_
      have hne : id ≠ first := fun h => hids.1 (h ▸ hid)
      rw [if_neg hne]
    · rw [if_neg (by simpa using hfirst), if_neg hfirst, ih hids.2]

theorem replaySegment_segmentsAfter {records : List Json} {value : Json}
    {c : ProviderSegmentMaterializer.Call} (hcall : segmentCall value = some (segmentId, c))
    {segments : List ProviderSegmentMaterializer}
    (h : replaySegment (segmentsAfter records) segmentId c = .ok segments) :
    segments = segmentsAfter (records ++ [value]) := by
  have hafter : ∀ id, segmentAfter id (records ++ [value]) =
      if id = segmentId then ((segmentAfter segmentId records).call c).2
      else segmentAfter id records := by
    intro id
    rw [segmentAfter_append, hcall]
    by_cases hid : id = segmentId
    · simp [hid]
    · simp [hid, Ne.symm hid]
  unfold replaySegment at h
  rw [find?_segmentsAfter] at h
  unfold segmentsAfter
  rw [mentionedSegments_append, hcall]
  simp only [hafter]
  by_cases hmem : segmentId ∈ mentionedSegments records
  · rw [if_pos hmem] at h ⊢
    rcases hm : (segmentAfter segmentId records).call c with ⟨e | u, m'⟩
    · simp [hm] at h
    · simp only [hm, Except.ok.injEq] at h
      rw [← h]
      exact modifyFirst_segments m' records (nodup_mentionedSegments records)
  · rw [if_neg hmem] at h ⊢
    have hnew : segmentAfter segmentId records = .new segmentId := by
      have hnone : part Prod.fst segmentId (records.filterMap segmentCall) = [] := by
        rw [part_eq_nil_iff]
        intro call hmem' hid
        refine hmem (mem_firstMentions.mpr ?_)
        exact hid ▸ mem_map_of_mem hmem'
      rw [segmentAfter, hnone]
      rfl
    rcases hm : (new segmentId).call c with ⟨e | u, m'⟩
    · simp [hm] at h
    · simp only [hm, Except.ok.injEq] at h
      rw [← h, map_append, map_singleton, if_pos rfl, hnew, hm]
      congr 1
      refine map_congr_left fun id hid => ?_
      have hne : id ≠ segmentId := fun heq => hmem (heq ▸ hid)
      rw [if_neg hne]

/-! ## The reconstruction follows the records -/

/-- The state of a reconstruction after a list of records. -/
structure Follows (carried : Finset ProviderSegmentId) (records : List Json)
    (r : ChatReconstruction) : Prop where
  filters : r.filterOrphanToolResults = true
  words : ∀ id, callWord id r.messages = recordsWord env carried id records
  pending : ∀ id, id ∈ r.pendingToolCallIds ↔ awaitsResult env id records = true
  segments : r.providerSegments = segmentsAfter records
  replayed : ∀ segmentId, segmentId ∈ r.replayedSegmentIds ↔
    segmentId ∈ carried ∨ closedWithItems segmentId records = true

theorem follows_new (carried : Finset ProviderSegmentId) :
    Follows env carried [] (.new true carried) where
  filters := rfl
  words := fun _ => rfl
  pending := fun _ => by simp [ChatReconstruction.new, awaitsResult]
  segments := rfl
  replayed := fun _ => by simp [ChatReconstruction.new, closedWithItems]

variable {env} {carried : Finset ProviderSegmentId} {records : List Json} {value : Json}
  {r r' : ChatReconstruction}

theorem segmentCall_eq_none (hupdate : role value ≠ some "provider_update")
    (hclose : role value ≠ some "provider_segment_close") : segmentCall value = none := by
  rw [segmentCall, if_neg hupdate, if_neg hclose]

theorem Follows.step_of_no_segment (h : Follows env carried records r)
    (hupdate : role value ≠ some "provider_update")
    (hclose : role value ≠ some "provider_segment_close")
    (hfilters : r'.filterOrphanToolResults = r.filterOrphanToolResults)
    (hsegments : r'.providerSegments = r.providerSegments)
    (hreplayed : r'.replayedSegmentIds = r.replayedSegmentIds)
    (hwords : ∀ id, callWord id r'.messages =
      callWord id r.messages ++ recordEvents env carried id records value)
    (hpending : ∀ id, id ∈ r'.pendingToolCallIds ↔
      awaitsResult env id (records ++ [value]) = true) :
    Follows env carried (records ++ [value]) r' where
  filters := hfilters.trans h.filters
  words := fun id => by rw [hwords, h.words, recordsWord_append]
  pending := hpending
  segments := by
    have hnone := segmentCall_eq_none hupdate hclose
    rw [hsegments, h.segments, segmentsAfter, segmentsAfter, mentionedSegments_append, hnone]
    simp only [segmentAfter_append, hnone]
  replayed := fun segmentId => by
    have hnone : closedSegment value = none := by rw [closedSegment, if_neg hclose]
    rw [hreplayed, h.replayed, closedWithItems_append, hnone]
    simp

theorem Follows.step_of_quiet (h : Follows env carried records r)
    (hassistant : role value ≠ some "assistant") (hresult : resultId value = none)
    (hupdate : role value ≠ some "provider_update")
    (hclose : role value ≠ some "provider_segment_close")
    (hpending : r'.pendingToolCallIds = r.pendingToolCallIds)
    (hfilters : r'.filterOrphanToolResults = r.filterOrphanToolResults)
    (hsegments : r'.providerSegments = r.providerSegments)
    (hreplayed : r'.replayedSegmentIds = r.replayedSegmentIds)
    (hwords : ∀ id, callWord id r'.messages = callWord id r.messages) :
    Follows env carried (records ++ [value]) r' := by
  refine h.step_of_no_segment hupdate hclose hfilters hsegments hreplayed ?_ ?_
  · intro id
    have hnone : closedSegment value = none := by rw [closedSegment, if_neg hclose]
    rw [hwords, recordEvents, if_neg hassistant, hnone, hresult]
    simp
  · intro id
    rw [hpending, h.pending, awaitsResult_append, if_neg hassistant, hresult]
    simp

theorem callWord_emit (id : String) (message : ChatMessage) :
    callWord id (r.emit message).messages = callWord id r.messages ++ message.callEvents id := by
  rw [emit, callWord_append, callWord_cons, callWord_nil, append_nil]

variable {message : ChatMessage}

theorem callEvents_of_no_calls {id : String} (hcalls : message.callIds = [])
    (hanswers : message.answers = none) : message.callEvents id = [] := by
  simp [callEvents, hcalls, hanswers]

/-- A message without calls, from a record that is not about calls. -/
theorem Follows.step_of_emit (h : Follows env carried records r) (hcalls : message.callIds = [])
    (hanswers : message.answers = none) (hassistant : role value ≠ some "assistant")
    (hresult : resultId value = none) (hupdate : role value ≠ some "provider_update")
    (hclose : role value ≠ some "provider_segment_close") :
    Follows env carried (records ++ [value]) (r.emit message) := by
  refine h.step_of_quiet hassistant hresult hupdate hclose rfl rfl rfl rfl fun id => ?_
  rw [callWord_emit, callEvents_of_no_calls hcalls hanswers, append_nil]

theorem Follows.step_of_result (h : Follows env carried records r) {toolCallId : String}
    (content : String) (hassistant : role value ≠ some "assistant")
    (hresult : resultId value = some toolCallId)
    (hupdate : role value ≠ some "provider_update")
    (hclose : role value ≠ some "provider_segment_close") :
    Follows env carried (records ++ [value]) (r.emitResult toolCallId content) := by
  have hnone : closedSegment value = none := by rw [closedSegment, if_neg hclose]
  have hevents : ∀ id, recordEvents env carried id records value =
      if toolCallId = id ∧ awaitsResult env id records = true then [.result] else [] := by
    intro id
    rw [recordEvents, if_neg hassistant, hnone, hresult]
    simp only [Option.some_inj]
  have hpending : ∀ id, id ∈ r.pendingToolCallIds.erase toolCallId ↔
      awaitsResult env id (records ++ [value]) = true := by
    intro id
    rw [awaitsResult_append, if_neg hassistant, hresult, Finset.mem_erase, h.pending]
    by_cases hid : toolCallId = id
    · simp [hid]
    · simp [hid, Ne.symm hid]
  unfold emitResult
  rw [h.filters]
  by_cases hmatching : toolCallId ∈ r.pendingToolCallIds
  · simp only [hmatching, decide_true, Bool.not_true, Bool.and_false, Bool.false_eq_true, if_false]
    refine h.step_of_no_segment hupdate hclose h.filters.symm rfl rfl (fun id => ?_) hpending
    rw [callWord_emit, callEvents_tool, hevents]
    by_cases hid : toolCallId = id
    · subst hid
      simp [(h.pending toolCallId).mp hmatching]
    · simp [hid]
  · simp only [hmatching, decide_false, Bool.not_false, Bool.and_true, if_true]
    refine h.step_of_no_segment hupdate hclose h.filters.symm rfl rfl (fun id => ?_) hpending
    rw [hevents]
    by_cases hid : toolCallId = id
    · subst hid
      simp [mt (h.pending toolCallId).mpr hmatching]
    · simp [hid]

theorem decodeProviderItems_ok {messageIndex : ℕ} :
    ∀ {elems : List Json} {itemIndex : ℕ} {items : List ProviderOutputItem},
      decodeProviderItems messageIndex itemIndex elems = .ok items →
        elems.filterMap decodeProviderOutputItem = items
  | [], _, _, h => by
    rw [← Except.ok.inj h]
    rfl
  | elem :: elems, itemIndex, items, h => by
    rw [decodeProviderItems] at h
    cases helem : decodeProviderOutputItem elem with
    | none => simp [Decoder.run, helem] at h
    | some item =>
      simp only [Decoder.run, helem] at h
      cases hrest : decodeProviderItems messageIndex (itemIndex + 1) elems with
      | error e =>
        rw [hrest] at h
        cases h
      | ok rest =>
        rw [hrest] at h
        rw [← Except.ok.inj h, filterMap_cons_some helem, decodeProviderItems_ok hrest]

theorem itemCallIds_of_ok {messageIndex : ℕ} {items : List ProviderOutputItem}
    (h : providerItemsOf value messageIndex = .ok items) :
    itemCallIds value = items.filterMap functionCallId := by
  unfold providerItemsOf at h
  unfold itemCallIds
  cases hitems : value.get "providerItems" with
  | none =>
    simp only [hitems, Except.ok.injEq] at h
    rw [← h]
    rfl
  | some collection =>
    simp only [hitems] at h
    cases collection with
    | arr elems => exact congrArg _ (decodeProviderItems_ok h)
    | null | bool b | num n | str s | obj fields => cases h

variable {index : ℕ}

theorem Follows.step_of_assistant (h : Follows env carried records r)
    (hrole : role value = some "assistant") (hpush : r.pushAssistant env index value = .ok r') :
    Follows env carried (records ++ [value]) r' := by
  have hupdate : role value ≠ some "provider_update" := by rw [hrole]; decide
  have hclose : role value ≠ some "provider_segment_close" := by rw [hrole]; decide
  unfold pushAssistant at hpush
  cases hreasoning : decodeReasoning (value.get "reasoning") index with
  | error e => simp [hreasoning] at hpush
  | ok reasoning =>
    cases hitems : providerItemsOf value index with
    | error e => simp [hreasoning, hitems] at hpush
    | ok items =>
      simp only [hreasoning, hitems, Except.ok.injEq] at hpush
      subst hpush
      refine h.step_of_no_segment hupdate hclose rfl rfl rfl (fun id => ?_) fun id => ?_
      · rw [callWord_emit, recordEvents, if_pos hrole, toolCallIds, itemCallIds_of_ok hitems]
        simp only [callEvents, callIds, answers, reduceCtorEq,
          if_false]
      · rw [awaitsResult_append, if_pos hrole, Bool.or_eq_true, decide_eq_true_iff]
        simp only [emit, Finset.mem_union, List.mem_toFinset, h.pending,
          toolCallIds]

theorem resultId_of_segment (hrole : role value = some "provider_update" ∨
    role value = some "provider_segment_close") : resultId value = none := by
  rcases hrole with hrole | hrole <;> rw [resultId, hrole] <;> rfl

theorem Follows.step_of_update (h : Follows env carried records r)
    (hrole : role value = some "provider_update")
    (hpush : r.pushProviderUpdate index value = .ok r') :
    Follows env carried (records ++ [value]) r' := by
  have hassistant : role value ≠ some "assistant" := by rw [hrole]; decide
  have hclosed : closedSegment value = none := by rw [closedSegment, hrole]; rfl
  have hresult := resultId_of_segment (Or.inl hrole)
  unfold pushProviderUpdate at hpush
  cases hdecode : decodeProviderItemUpdate value with
  | none => simp [Decoder.run, hdecode] at hpush
  | some update =>
    simp only [Decoder.run, hdecode] at hpush
    have hcall : segmentCall value = some (update.segmentId, .applyUpdate update) := by
      rw [segmentCall, if_pos hrole, hdecode]
      rfl
    rw [h.segments] at hpush
    cases hreplay : replaySegment (segmentsAfter records) update.segmentId
        (.applyUpdate update) with
    | error e => simp [hreplay] at hpush
    | ok segments =>
      simp only [hreplay, Except.ok.injEq] at hpush
      subst hpush
      refine ⟨h.filters, fun id => ?_, fun id => ?_, ?_, fun segmentId => ?_⟩
      · rw [recordsWord_append, recordEvents, if_neg hassistant, hclosed, hresult]
        simpa using h.words id
      · rw [awaitsResult_append, if_neg hassistant, hresult]
        simpa using h.pending id
      · exact replaySegment_segmentsAfter hcall hreplay
      · rw [closedWithItems_append, hclosed]
        simpa using h.replayed segmentId

theorem callEvents_replayedAssistantMessage {replayed : Finset ProviderSegmentId}
    (h : replayedAssistantMessage env m replayed = some message) (id : String) :
    message.callEvents id =
      if id ∈ m.segment.items.filterMap functionCallId then [.issue] else [] := by
  unfold replayedAssistantMessage at h
  split at h
  · cases h
  · split at h
    · cases h
    · obtain rfl := Option.some.inj h
      have hids : (replayedToolCalls env m.segment.items).map ToolCall.id =
          m.segment.items.filterMap functionCallId := by
        rw [replayedToolCalls, map_filterMap]
        refine filterMap_congr fun item _ => ?_
        unfold functionCallId
        cases item.payload <;> rfl
      simp only [callEvents, callIds, answers, hids,
        mem_append, or_self, reduceCtorEq, if_false]

theorem replayedAssistantMessage_eq_none_iff {replayed : Finset ProviderSegmentId}
    (hm : m.segment.segmentId = some segmentId) :
    replayedAssistantMessage env m replayed = none ↔
      m.segment.items = [] ∨ segmentId ∈ replayed := by
  unfold replayedAssistantMessage
  rw [hm]
  by_cases hitems : m.segment.items = []
  · simp [hitems]
  · by_cases hreplayed : segmentId ∈ replayed <;> simp [hitems, hreplayed]

theorem Follows.step_of_close (h : Follows env carried records r)
    (hrole : role value = some "provider_segment_close")
    (hpush : r.pushProviderClose env index value = .ok r') :
    Follows env carried (records ++ [value]) r' := by
  have hassistant : role value ≠ some "assistant" := by rw [hrole]; decide
  have hupdate : role value ≠ some "provider_update" := by rw [hrole]; decide
  have hresult := resultId_of_segment (Or.inr hrole)
  unfold pushProviderClose at hpush
  cases hdecode : decodePersistedSegmentClose value with
  | none => simp [Decoder.run, hdecode] at hpush
  | some close =>
    simp only [Decoder.run, hdecode] at hpush
    have hcall : segmentCall value = some (close.segmentId, .close close.outcome) := by
      rw [segmentCall, if_neg hupdate, if_pos hrole, hdecode]
      rfl
    have hclosed : closedSegment value = some close.segmentId := by
      rw [closedSegment, if_pos hrole, hdecode]
      rfl
    rw [h.segments] at hpush
    cases hreplay : replaySegment (segmentsAfter records) close.segmentId
        (.close close.outcome) with
    | error e => simp [hreplay] at hpush
    | ok segments =>
      simp only [hreplay, Except.ok.injEq] at hpush
      have hsegments := replaySegment_segmentsAfter hcall hreplay
      have hafter : segmentAfter close.segmentId (records ++ [value]) =
          ((segmentAfter close.segmentId records).close close.outcome).2 := by
        rw [segmentAfter_append, hcall]
        simp [call]
      have hitems : (segmentAfter close.segmentId (records ++ [value])).segment.items =
          (segmentAfter close.segmentId records).segment.items := by
        rw [hafter, items_close]
      have hmentioned : close.segmentId ∈ mentionedSegments (records ++ [value]) := by
        rw [mentionedSegments_append, hcall]
        simp only
        split
        · assumption
        · exact mem_append_right _ (mem_singleton_self _)
      have hevents : ∀ id, recordEvents env carried id records value =
          if close.segmentId ∉ r.replayedSegmentIds ∧
            id ∈ segmentCallIds close.segmentId records then [.issue] else [] := by
        intro id
        rw [recordEvents, if_neg hassistant, hclosed]
        simp only [h.replayed, not_or, Bool.not_eq_true, and_assoc]
      have hpending : ∀ id, id ∈ r.pendingToolCallIds ↔
          awaitsResult env id (records ++ [value]) = true := by
        intro id
        rw [awaitsResult_append, if_neg hassistant, hresult]
        simpa using h.pending id
      have hflush := congrArg providerSegments hpush
      unfold flushReplayedSegment at hpush
      rw [hsegments, find?_segmentsAfter, if_pos hmentioned] at hpush
      simp only at hpush
      cases hmessage : replayedAssistantMessage env
          (segmentAfter close.segmentId (records ++ [value])) r.replayedSegmentIds with
      | none =>
        simp only [hmessage] at hpush
        subst hpush
        have hnone := (replayedAssistantMessage_eq_none_iff
          (segmentAfter_segmentId close.segmentId (records ++ [value]))).mp hmessage
        rw [hitems] at hnone
        refine ⟨h.filters, fun id => ?_, hpending, rfl, fun segmentId => ?_⟩
        · rw [recordsWord_append, hevents, ← h.words]
          rcases hnone with hempty | hreplayed
          · simp [segmentCallIds, hempty]
          · simp [hreplayed]
        · rw [closedWithItems_append, hclosed]
          simp only [h.replayed, Option.some_inj, Bool.or_eq_true, decide_eq_true_eq]
          constructor
          · rintro (hcarried | hold)
            · exact Or.inl hcarried
            · exact Or.inr (Or.inl hold)
          · rintro (hcarried | hold | ⟨rfl, hne⟩)
            · exact Or.inl hcarried
            · exact Or.inr hold
            · exact (h.replayed _).mp (hnone.resolve_left hne)
      | some message =>
        simp only [hmessage] at hpush
        subst hpush
        have hsome : ¬ ((segmentAfter close.segmentId records).segment.items = [] ∨
            close.segmentId ∈ r.replayedSegmentIds) := by
          rw [← hitems, ← replayedAssistantMessage_eq_none_iff
            (segmentAfter_segmentId close.segmentId (records ++ [value])), hmessage]
          exact Option.some_ne_none _
        rw [not_or] at hsome
        refine ⟨h.filters, fun id => ?_, hpending, rfl, fun segmentId => ?_⟩
        · rw [recordsWord_append, hevents, ← h.words, callWord_append, callWord_cons,
            callWord_nil, append_nil, callEvents_replayedAssistantMessage hmessage, hitems]
          simp [segmentCallIds, hsome.2]
        · rw [closedWithItems_append, hclosed]
          simp only [Finset.mem_insert, h.replayed, Option.some_inj, Bool.or_eq_true,
            decide_eq_true_eq]
          constructor
          · rintro (rfl | hcarried | hold)
            · exact Or.inr (Or.inr ⟨rfl, hsome.1⟩)
            · exact Or.inl hcarried
            · exact Or.inr (Or.inl hold)
          · rintro (hcarried | hold | ⟨rfl, -⟩)
            · exact Or.inr (Or.inl hcarried)
            · exact Or.inr (Or.inr hold)
            · exact Or.inl rfl

/-- **Each accepted record keeps the reconstruction in step.** -/
theorem Follows.push (h : Follows env carried records r) (hpush : r.push env index value = .ok r') :
    Follows env carried (records ++ [value]) r' := by
  unfold ChatReconstruction.push at hpush
  have hquiet : ∀ {name : Option String}, role value = name → name ≠ some "assistant" →
      name ≠ some "tool" → name ≠ some "tool_lifecycle" → name ≠ some "provider_update" →
      name ≠ some "provider_segment_close" →
      role value ≠ some "assistant" ∧ resultId value = none ∧
        role value ≠ some "provider_update" ∧ role value ≠ some "provider_segment_close" := by
    rintro name rfl hassistant htool hlifecycle hupdate hclose
    exact ⟨hassistant, by rw [resultId, if_neg htool, if_neg hlifecycle], hupdate, hclose⟩
  split at hpush
  · rename_i hrole
    obtain rfl := Except.ok.inj hpush
    obtain ⟨h₁, h₂, h₃, h₄⟩ := hquiet hrole (by simp) (by simp) (by simp) (by simp) (by simp)
    exact h.step_of_quiet h₁ h₂ h₃ h₄ rfl rfl rfl rfl fun _ => rfl
  · rename_i hrole
    obtain rfl := Except.ok.inj hpush
    obtain ⟨h₁, h₂, h₃, h₄⟩ := hquiet hrole (by simp) (by simp) (by simp) (by simp) (by simp)
    exact h.step_of_emit rfl rfl h₁ h₂ h₃ h₄
  · rename_i hrole
    obtain rfl := Except.ok.inj hpush
    obtain ⟨h₁, h₂, h₃, h₄⟩ := hquiet hrole (by simp) (by simp) (by simp) (by simp) (by simp)
    exact h.step_of_emit rfl rfl h₁ h₂ h₃ h₄
  · rename_i hrole
    exact h.step_of_assistant hrole hpush
  · rename_i hrole
    obtain rfl := Except.ok.inj hpush
    refine h.step_of_result _ ?_ ?_ ?_ ?_
    · rw [hrole]; decide
    · rw [resultId, if_pos hrole]
    · rw [hrole]; decide
    · rw [hrole]; decide
  · rename_i hrole
    have hassistant : role value ≠ some "assistant" := by rw [hrole]; decide
    have hupdate : role value ≠ some "provider_update" := by rw [hrole]; decide
    have hclose : role value ≠ some "provider_segment_close" := by rw [hrole]; decide
    have htool : role value ≠ some "tool" := by rw [hrole]; decide
    unfold ChatReconstruction.pushToolLifecycle at hpush
    cases hdecode : decodeToolLifecycleEvent value with
    | none => simp [Decoder.run, hdecode] at hpush
    | some lifecycle =>
      have hresult : resultId value =
          (ChatReconstruction.terminalContent lifecycle.update).map fun _ =>
            lifecycle.toolCallId := by
        rw [resultId, if_neg htool, if_pos hrole, hdecode]
        rfl
      simp only [Decoder.run, hdecode] at hpush
      cases hcontent : ChatReconstruction.terminalContent lifecycle.update with
      | none =>
        simp only [hcontent, Except.ok.injEq] at hpush
        subst hpush
        rw [hcontent] at hresult
        exact h.step_of_quiet hassistant hresult hupdate hclose rfl rfl rfl rfl fun _ => rfl
      | some content =>
        simp only [hcontent, Except.ok.injEq] at hpush
        subst hpush
        rw [hcontent] at hresult
        exact h.step_of_result content hassistant hresult hupdate hclose
  · rename_i hrole
    obtain rfl := Except.ok.inj hpush
    obtain ⟨h₁, h₂, h₃, h₄⟩ := hquiet hrole (by simp) (by simp) (by simp) (by simp) (by simp)
    exact h.step_of_quiet h₁ h₂ h₃ h₄ rfl rfl rfl rfl fun _ => rfl
  · rename_i hrole
    exact h.step_of_update hrole hpush
  · rename_i hrole
    exact h.step_of_close hrole hpush
  · rename_i hrole
    obtain rfl := Except.ok.inj hpush
    obtain ⟨h₁, h₂, h₃, h₄⟩ := hquiet hrole (by simp) (by simp) (by simp) (by simp) (by simp)
    exact h.step_of_emit rfl rfl h₁ h₂ h₃ h₄
  · cases hpush

theorem Follows.pushAll (h : Follows env carried records r) {entries : List (Json × ℕ)}
    (hpush : r.pushAll env entries = .ok r') :
    Follows env carried (records ++ entries.map Prod.fst) r' := by
  induction entries generalizing records r with
  | nil =>
    obtain rfl := Except.ok.inj hpush
    simpa using h
  | cons entry entries ih =>
    rw [pushAll] at hpush
    cases hone : r.push env entry.2 entry.1 with
    | error e => simp [hone] at hpush
    | ok next =>
      simp only [hone] at hpush
      have hnext := ih (h.push hone) hpush
      rwa [append_assoc, singleton_append] at hnext

/-! ## The end of the records -/

theorem callWord_foldl_appendReplayedSegment (id : String) (records : List Json)
    {ids : List ProviderSegmentId} (hids : ids.Nodup) (r : ChatReconstruction) :
    callWord id ((ids.map fun segmentId => segmentAfter segmentId records).foldl
        (fun r m => r.appendReplayedSegment env m) r).messages =
      callWord id r.messages ++ ids.flatMap fun segmentId =>
        if segmentId ∉ r.replayedSegmentIds ∧ id ∈ segmentCallIds segmentId records then [.issue]
        else [] := by
  induction ids generalizing r with
  | nil => simp
  | cons first ids ih =>
    rw [nodup_cons] at hids
    rw [map_cons, foldl_cons, ih hids.2, flatMap_cons]
    have hsegment := segmentAfter_segmentId first records
    unfold appendReplayedSegment
    cases hmessage : replayedAssistantMessage env (segmentAfter first records)
        r.replayedSegmentIds with
    | none =>
      have hnone := (replayedAssistantMessage_eq_none_iff hsegment).mp hmessage
      have hevents : (if first ∉ r.replayedSegmentIds ∧ id ∈ segmentCallIds first records then
          [CallEvent.issue] else []) = [] := by
        rcases hnone with hempty | hreplayed
        · simp [segmentCallIds, hempty]
        · simp [hreplayed]
      rw [hevents, nil_append]
    | some message =>
      have hsome : ¬ ((segmentAfter first records).segment.items = [] ∨
          first ∈ r.replayedSegmentIds) := by
        rw [← replayedAssistantMessage_eq_none_iff hsegment, hmessage]
        exact Option.some_ne_none _
      rw [not_or] at hsome
      simp only [hsegment, Option.elim_some, callWord_append, callWord_cons, callWord_nil,
        append_nil, append_assoc, callEvents_replayedAssistantMessage hmessage]
      congr 2
      · simp [segmentCallIds, hsome.2]
      · refine flatMap_congr fun segmentId hsegmentId => ?_
        have hne : segmentId ≠ first := fun heq => hids.1 (heq ▸ hsegmentId)
        simp [hne]

/-- **The conversation before its repair has the words of the records.** -/
theorem callWord_appendReplayedProviderSegments (h : Follows env carried records r)
    (id : String) :
    callWord id (r.appendReplayedProviderSegments env).messages =
      recordsWord env carried id records ++ remainingWord carried id records := by
  rw [appendReplayedProviderSegments, h.segments, segmentsAfter,
    callWord_foldl_appendReplayedSegment id records (nodup_mentionedSegments records), h.words]
  congr 1
  refine flatMap_congr fun segmentId _ => ?_
  simp only [h.replayed, not_or, Bool.not_eq_true, and_assoc]

end History

/-- **When a rebuilt request is well formed**: exactly when the word of every call in the
records is repairable. -/
theorem wellFormed_valuesToChatMessages_iff (env : Environment) (values : List Json)
    (messages : List ChatMessage) (h : valuesToChatMessages env values = .ok messages) :
    WellFormed messages ↔ ∀ id, Repairable (callHistory env values id) := by
  unfold valuesToChatMessages valuesToChatMessagesInner at h
  cases hpush : (ChatReconstruction.new true (assistantSegmentIds values)).pushAll env
      (orderedValues values) with
  | error e =>
    rw [hpush] at h
    cases h
  | ok r =>
    rw [hpush] at h
    obtain rfl := Except.ok.inj h
    have hfollows := (follows_new env (assistantSegmentIds values)).pushAll hpush
    rw [ChatReconstruction.finish, wellFormed_ensureToolCallResultsPresent_iff]
    refine forall_congr' fun id => ?_
    rw [callWord_appendReplayedProviderSegments hfollows, callHistory, List.nil_append]

/-- A parser that knows the empty object. -/
def emptyObjectEnvironment : Environment where
  fromStr := fun text => if text = "\x7b\x7d" then .ok (.obj []) else .error "expected value"
  dataDir := "/data"

/-- An assistant record that issues one call. -/
def callRecord (arguments : Json) : Json :=
  .obj [("role", .str "assistant"), ("tool_calls", .arr [.obj [("id", .str "call_1"),
    ("function", .obj [("name", .str "search"), ("arguments", arguments)])]])]

def callMessage : ChatMessage := .assistant none [⟨"call_1", "search", .obj [], none⟩] none [] none

theorem wellFormed_of_interrupted_call_iff :
    WellFormed [callMessage, .tool "call_1" "aborted"] ↔
      ∀ id, Repairable (callHistory emptyObjectEnvironment [callRecord (.str "\x7b\x7d")] id) :=
  wellFormed_valuesToChatMessages_iff emptyObjectEnvironment [callRecord (.str "\x7b\x7d")] _ rfl

def resultRecord : Json :=
  .obj [("role", .str "tool"), ("tool_call_id", .str "call_1"), ("content", .str "done")]

/-- **A reused call that is interrupted gets no result**: the answer to its first use counts for
the second one. -/
theorem not_wellFormed_of_reused_call :
    ¬ ∃ env : Environment, ∀ values messages, valuesToChatMessages env values = .ok messages →
      WellFormed messages := by
  rintro ⟨env, hwellFormed⟩
  have hrebuilt : valuesToChatMessages env
      [callRecord (.obj []), resultRecord, callRecord (.obj [])] =
        .ok [callMessage, .tool "call_1" "done", callMessage] := rfl
  have hpaired := (wellFormed_iff _).mp (hwellFormed _ _ hrebuilt) "call_1"
  have hword : callWord "call_1" [callMessage, .tool "call_1" "done", callMessage] =
      [.issue, .result, .issue] := by decide
  rw [hword] at hpaired
  simp [Paired] at hpaired

end Chelix.Agents.Model
