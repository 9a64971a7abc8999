import Chelix.Providers.CallLedger
import Chelix.Providers.Emission

/-!
# The calls of the Responses API
-/

namespace Chelix.Providers

open Option

open Chelix.Agents.Model Chelix.Common Chelix.Library List Responses Ledger

/-! ## What the data lines say of calls -/

/-- A completed item says the final text of a call. -/
def itemCall (item : Json) : List CallEvent :=
  match Responses.functionCallFields item with
  | .ok (id, _, arguments) => [.item id arguments]
  | .error _ => []

def addedCall (evt : Json) : List CallEvent :=
  if ((evt.index "item").index "type").asStr = some "function_call" then
    match nonEmptyStr ((evt.index "item").index "call_id") with
    | some id => [.opened id (responsesToolSlot evt)]
    | none => []
  else []

def doneCall (evt : Json) : List CallEvent :=
  if ((evt.index "item").index "type").asStr = some "function_call" then itemCall (evt.index "item")
  else []

def argumentsDelta (evt : Json) : List CallEvent :=
  match nonEmptyStr (evt.index "delta"), responsesToolSlot evt with
  | some text, some slot => [.delta slot text]
  | _, _ => []

def argumentsDone (evt : Json) : List CallEvent :=
  match responsesToolSlot evt, (evt.index "arguments").asStr with
  | some slot, some text => [.done slot text]
  | _, _ => []

def responsesEventCalls (evt : Json) : List CallEvent :=
  match (evt.index "type").asStr.getD "" with
  | "response.output_item.added" => addedCall evt
  | "response.output_item.done" => doneCall evt
  | "response.function_call_arguments.delta" => argumentsDelta evt
  | "response.function_call_arguments.done" => argumentsDone evt
  | "response.completed" => (Responses.outputCalls evt).flatMap itemCall
  | _ => []

/-- The lines up to the one that completes the response. -/
def responsesCalls (parse : String → Except String Json) : List String → List CallEvent
  | [] => []
  | data :: rest =>
    if data = "[DONE]" then []
    else
      match parse data with
      | .ok evt =>
        responsesEventCalls evt ++
          if (evt.index "type").asStr = some "response.completed" then []
          else responsesCalls parse rest
      | .error _ => []

/-! ## The slots and the ledger -/

/-- The slots of the adapter hold the calls of the ledger, the next slot is the ledger's, and the
completed slots are those of the calls with a final text. -/
structure ResponsesFollows (s : Responses) (l : Ledger) : Prop where
  records : Records s.events l
  calls : ∀ slot, s.own.toolCalls[slot]?.map FunctionCall.id =
    (l.inSlot slot).map ProviderCall.id
  completed : ∀ slot, slot ∈ s.own.completedToolCalls ↔
    ∃ c ∈ l.calls, c.slot = slot ∧ c.final.isSome = true
  next : s.own.currentToolIndex = l.next

/-- What an event of the provider leaves: an error, or a state that follows the ledger. -/
def Settles (l : Ledger) (r : ResponsesEventResult × Responses) : Prop :=
  r.1 = .failed ∧ HasError r.2.events ∨ r.1 ≠ .failed ∧ ResponsesFollows r.2 l

theorem settles_protocolError (l : Ledger) (s : Responses) (detail : String) :
    Settles l (s.protocolError detail) :=
  .inl ⟨rfl, hasError_fail s detail⟩

namespace ResponsesFollows

variable {s t : Responses} {l : Ledger}

theorem new (segmentId : ProviderSegmentId) : ResponsesFollows (new segmentId) .empty where
  records := Records.empty
  calls := fun slot => by
    show ((∅ : OrderedMap ℕ FunctionCall)[slot]?).map _ = none
    simp
  completed := fun slot => by
    constructor
    · intro h
      exact absurd h (Finset.notMem_empty slot)
    · rintro ⟨c, hc, -⟩
      cases hc
  next := rfl

theorem settles (h : ResponsesFollows s l) : Settles l (.events, s) :=
  .inr ⟨nofun, h⟩

theorem of_own (h : ResponsesFollows s l) {tail : List StreamEvent} (htail : ∀ e ∈ tail, Quiet e)
    (hcalls : t.own.toolCalls = s.own.toolCalls)
    (hcompleted : t.own.completedToolCalls = s.own.completedToolCalls)
    (hnext : t.own.currentToolIndex = s.own.currentToolIndex)
    (hevents : t.events = s.events ++ tail) : ResponsesFollows t l where
  records := by
    rw [hevents]
    exact h.records.quiet htail
  calls := by
    rw [hcalls]
    exact h.calls
  completed := by
    rw [hcompleted]
    exact h.completed
  next := by
    rw [hnext]
    exact h.next

theorem push (h : ResponsesFollows s l) {e : StreamEvent} (he : Quiet e) :
    ResponsesFollows (s.push e) l :=
  h.of_own (forall_mem_singleton.mpr he) rfl rfl rfl rfl

theorem emitItem (h : ResponsesFollows s l) (itemId : ProviderItemId)
    {payload : ProviderItemUpdatePayload} (hpayload : carriesArguments payload = false) :
    ResponsesFollows (s.emitItem itemId payload) l :=
  h.of_own (forall_mem_singleton.mpr (quiet_item hpayload)) rfl rfl rfl rfl

theorem startSegment (h : ResponsesFollows s l) (announced : Option String) :
    ResponsesFollows (s.startSegment announced) l := by
  rw [Adapter.startSegment]
  split
  · exact h
  · exact h.of_own (forall_mem_singleton.mpr (quiet_segmentStart _)) rfl rfl rfl rfl

theorem streamSummaryPart (h : ResponsesFollows s l) (itemId : ProviderItemId)
    (summaryIndex : ℕ) {payload : ProviderItemUpdatePayload}
    (hpayload : carriesArguments payload = false) :
    ResponsesFollows (s.streamSummaryPart itemId summaryIndex payload) l :=
  h.of_own (forall_mem_singleton.mpr (quiet_item hpayload)) rfl rfl rfl rfl

theorem reasoningSummaryEvents (h : ResponsesFollows s l) (item : Json)
    (itemId : ProviderItemId) : ResponsesFollows (s.reasoningSummaryEvents item itemId) l := by
  rw [Responses.reasoningSummaryEvents]
  generalize (((item.index "summary").asArray).getD []).zipIdx = parts
  induction parts generalizing s with
  | nil => exact h
  | cons part rest ih =>
    rw [foldl_cons]
    apply ih
    rw [Responses.reasoningSummaryPart]
    split
    · exact h
    · split
      · exact h
      · exact h.of_own (forall_mem_singleton.mpr (quiet_item rfl)) rfl rfl rfl rfl

/-! ## Opening and completing a call -/

theorem openFunctionCallSlot (h : ResponsesFollows s l) {id : String} (name : String)
    {slot : Option ℕ} (hid : id ∉ l.ids) (hslot : slot.getD l.next ∉ l.slots) :
    ResponsesFollows (s.openFunctionCallSlot id name slot) (l.add id (slot.getD l.next)) := by
  have hindex : s.slotFor slot = slot.getD l.next := by
    rw [Responses.slotFor, h.next]
  rw [Responses.openFunctionCallSlot, hindex]
  generalize slot.getD l.next = index at hslot ⊢
  refine ⟨?_, ?_, ?_, ?_⟩
  · exact (h.records.push (quiet_item rfl)).start hid hslot
  · intro slot'
    show ((s.own.toolCalls.insert index ⟨id, name⟩)[slot']?).map FunctionCall.id =
      ((l.add id index).inSlot slot').map ProviderCall.id
    rw [OrderedMap.get_insert, Ledger.inSlot_add hslot]
    by_cases heq : index = slot'
    · rw [if_pos heq, if_pos heq.symm]
      rfl
    · rw [if_neg heq, if_neg (Ne.symm heq)]
      exact h.calls slot'
  · intro slot'
    show slot' ∈ s.own.completedToolCalls ↔ _
    rw [h.completed]
    constructor
    · rintro ⟨c, hc, hand⟩
      exact ⟨c, mem_append_left _ hc, hand⟩
    · rintro ⟨c, hc, hand⟩
      rcases mem_append.mp hc with hc | hc
      · exact ⟨c, hc, hand⟩
      · rw [mem_singleton.mp hc] at hand
        exact absurd hand.2 Bool.false_ne_true
  · show max s.own.currentToolIndex ((index + 1) % 2 ^ 64) = max l.next ((index + 1) % 2 ^ 64)
    rw [h.next]

theorem announceFunctionCallArguments (h : ResponsesFollows s l) {c : ProviderCall}
    (hc : c ∈ l.calls) (arguments : String) :
    ResponsesFollows (s.announceFunctionCallArguments c.slot c.id arguments)
      (l.setFinal c.slot arguments) := by
  have hcompleted : c.slot ∈ s.own.completedToolCalls ↔ c.final.isSome = true := by
    rw [h.completed]
    constructor
    · rintro ⟨c', hc', hslot, hfinal⟩
      rwa [← Ledger.eq_of_slot h.records.slots_nodup hc' hc hslot]
    · intro hfinal
      exact ⟨c, hc, rfl, hfinal⟩
  have hitem : (s.nextUpdate c.id (.functionCallDone arguments)).itemId = c.id := rfl
  have hfinish := h.records.finish hc hitem rfl
  have hcalls : ∀ slot, s.own.toolCalls[slot]?.map FunctionCall.id =
      ((l.setFinal c.slot arguments).inSlot slot).map ProviderCall.id := fun slot => by
    rw [h.calls slot, Ledger.inSlot_setFinal]
  have hset : ∀ slot, (∃ c' ∈ (l.setFinal c.slot arguments).calls,
      c'.slot = slot ∧ c'.final.isSome = true) ↔ slot = c.slot ∨
        ∃ c' ∈ l.calls, c'.slot = slot ∧ c'.final.isSome = true := by
    intro slot
    constructor
    · rintro ⟨c', hc', hslot, hfinal⟩
      obtain ⟨c₀, hc₀, rfl⟩ := Ledger.mem_modify.mp hc'
      by_cases heq : c₀.slot = c.slot
      · rw [if_pos heq] at hslot
        exact .inl (hslot.symm.trans heq)
      · rw [if_neg heq] at hslot hfinal
        exact .inr ⟨c₀, hc₀, hslot, hfinal⟩
    · rintro (rfl | ⟨c₀, hc₀, hslot, hfinal⟩)
      · refine ⟨_, Ledger.mem_modify.mpr ⟨c, hc, rfl⟩, ?_⟩
        rw [if_pos rfl]
        exact ⟨rfl, rfl⟩
      · refine ⟨_, Ledger.mem_modify.mpr ⟨c₀, hc₀, rfl⟩, ?_⟩
        split
        · exact ⟨hslot, rfl⟩
        · exact ⟨hslot, hfinal⟩
  rw [Responses.announceFunctionCallArguments, Responses.completeSlot]
  split
  · next hmem =>
      replace hmem : c.slot ∈ s.own.completedToolCalls := hmem
      rw [if_pos (hcompleted.mp hmem)] at hfinish
      refine ⟨hfinish, hcalls, fun slot => ?_, h.next⟩
      show slot ∈ s.own.completedToolCalls ↔ _
      rw [hset, h.completed]
      constructor
      · exact .inr
      · rintro (rfl | hold)
        · exact (h.completed c.slot).mp hmem
        · exact hold
  · next hmem =>
      replace hmem : c.slot ∉ s.own.completedToolCalls := hmem
      rw [if_neg (mt hcompleted.mpr hmem)] at hfinish
      refine ⟨?_, hcalls, fun slot => ?_, h.next⟩
      · show Records ((s.events ++ [_]) ++ [_]) _
        rw [append_assoc]
        exact hfinish
      · show slot ∈ insert c.slot s.own.completedToolCalls ↔ _
        rw [hset, Finset.mem_insert, h.completed]

theorem slotOf_eq (h : ResponsesFollows s l) (id : String) :
    s.slotOf id = (l.withId id).map ProviderCall.slot := by
  have hcall : ∀ slot, (∃ call, s.own.toolCalls[slot]? = some call ∧ call.id = id) ↔
      ∃ c ∈ l.calls, c.slot = slot ∧ c.id = id := by
    intro slot
    have hslot := h.calls slot
    constructor
    · rintro ⟨call, hcall, rfl⟩
      rw [hcall, map_some, eq_comm, map_eq_some_iff] at hslot
      obtain ⟨c, hc, hid⟩ := hslot
      obtain ⟨hmem, hslot⟩ := (inSlot_eq_some_iff h.records.slots_nodup).mp hc
      exact ⟨c, hmem, hslot, hid⟩
    · rintro ⟨c, hmem, hcslot, hid⟩
      rw [(inSlot_eq_some_iff h.records.slots_nodup).mpr ⟨hmem, hcslot⟩, map_some,
        map_eq_some_iff] at hslot
      obtain ⟨call, hcall, hcid⟩ := hslot
      exact ⟨call, hcall, hcid.trans hid⟩
  rw [slotOf]
  cases hfirst : OrderedMap.first? s.own.toolCalls fun call => decide (call.id = id) with
  | none =>
    have hnone := OrderedMap.first?_eq_none_iff.mp hfirst
    rw [withId_eq_none_iff.mpr ?_]
    · rfl
    · intro hid
      obtain ⟨c, hc, hid⟩ := mem_map.mp hid
      obtain ⟨call, hcall, hcid⟩ := (hcall c.slot).mpr ⟨c, hc, rfl, hid⟩
      exact hnone c.slot call hcall (decide_eq_true hcid)
  | some entry =>
    obtain ⟨hentry, hid⟩ := OrderedMap.first?_some hfirst
    obtain ⟨c, hc, hslot, hcid⟩ := (hcall entry.1).mp ⟨entry.2, hentry, of_decide_eq_true hid⟩
    rw [(withId_eq_some_iff h.records.ids_nodup).mpr ⟨hc, hcid⟩]
    exact congrArg some hslot.symm

end ResponsesFollows

/-! ## The events of the provider -/

namespace ResponsesFollows

variable {s t : Responses} {l : Ledger}

theorem ensureSlot (h : ResponsesFollows s l) {id : String} (name text : String)
    (hclear : l.Clear (.item id text)) :
    ∃ l' : Ledger, ∃ c ∈ l'.calls, c.id = id ∧ c.slot = (s.ensureSlot id name).1 ∧
      ResponsesFollows (s.ensureSlot id name).2 l' ∧
      l.step (.item id text) = l'.setFinal c.slot text := by
  have hslot := h.slotOf_eq id
  rw [Responses.ensureSlot, Ledger.step]
  cases hid : l.withId id with
  | some c =>
    obtain ⟨hmem, hcid⟩ := (Ledger.withId_eq_some_iff h.records.ids_nodup).mp hid
    rw [hid] at hslot
    rw [hslot]
    exact ⟨l, c, hmem, hcid, rfl, h, rfl⟩
  | none =>
    have hnew : id ∉ l.ids := Ledger.withId_eq_none_iff.mp hid
    have hfree : l.next ∉ l.slots := hclear.resolve_left hnew
    have hopen : ResponsesFollows (s.openFunctionCallSlot id name none) (l.add id l.next) :=
      h.openFunctionCallSlot name hnew hfree
    rw [hid] at hslot
    rw [hslot]
    refine ⟨l.add id l.next, ⟨id, l.next, [], none⟩, ?_, rfl, ?_, hopen, rfl⟩
    · exact mem_append_right _ (mem_singleton_self _)
    · show l.next = (none : Option ℕ).getD s.own.currentToolIndex
      rw [h.next]
      rfl

theorem finishFunctionCallItem (h : ResponsesFollows s l) (item : Json)
    (hclear : l.AllClear (itemCall item)) (hok : s.finishFunctionCallItem item = .ok t) :
    ResponsesFollows t (l.steps (itemCall item)) := by
  rw [Responses.finishFunctionCallItem] at hok
  rw [itemCall] at hclear ⊢
  cases hfields : Responses.functionCallFields item with
  | error detail =>
    rw [hfields] at hok
    cases hok
  | ok fields =>
    obtain ⟨id, name, text⟩ := fields
    rw [hfields] at hok hclear
    obtain ⟨l', c, hc, rfl, hslot, hfollows, hstep⟩ := h.ensureSlot name text hclear.1
    cases hok
    show ResponsesFollows (Responses.announceFunctionCallArguments _ _ _ _)
      (l.step (.item c.id text))
    rw [hstep, ← hslot]
    exact hfollows.announceFunctionCallArguments hc text

theorem finishFunctionCalls (items : List Json) (h : ResponsesFollows s l)
    (hclear : l.AllClear (items.flatMap itemCall)) :
    (finishFunctionCalls items s).1 = .ok () →
      ResponsesFollows (finishFunctionCalls items s).2
        (l.steps (items.flatMap itemCall)) := by
  induction items generalizing s l with
  | nil => exact fun _ => h
  | cons item rest ih =>
    rw [flatMap_cons, allClear_append] at hclear
    rw [flatMap_cons, steps_append, finishFunctionCalls]
    cases hitem : s.finishFunctionCallItem item with
    | error detail => exact fun hok => nomatch hok
    | ok t => exact ih (h.finishFunctionCallItem item hclear.1 hitem) hclear.2

theorem outputItemAdded (h : ResponsesFollows s l) (evt : Json)
    (hclear : l.AllClear (addedCall evt)) :
    Settles (l.steps (addedCall evt)) (Responses.outputItemAdded evt s) := by
  rw [Responses.outputItemAdded]
  rw [addedCall] at hclear ⊢
  by_cases htype : ((evt.index "item").index "type").asStr = some "function_call"
  · simp only [if_pos htype] at hclear ⊢
    cases hid : nonEmptyStr ((evt.index "item").index "call_id") with
    | none => exact settles_protocolError _ _ _
    | some id =>
      rw [hid] at hclear
      cases hname : nonEmptyStr ((evt.index "item").index "name") with
      | none => exact settles_protocolError _ _ _
      | some name => exact (h.openFunctionCallSlot name hclear.1.1 hclear.1.2).settles
  · simp only [if_neg htype]
    exact h.settles

theorem outputItemDone (h : ResponsesFollows s l) (evt : Json)
    (hclear : l.AllClear (doneCall evt)) :
    Settles (l.steps (doneCall evt)) (Responses.outputItemDone evt s) := by
  rw [Responses.outputItemDone]
  rw [doneCall] at hclear ⊢
  generalize ((evt.index "item").index "type").asStr = type at hclear ⊢
  by_cases hcall : type = some "function_call"
  · subst hcall
    rw [if_pos rfl] at hclear ⊢
    cases hok : s.finishFunctionCallItem (evt.index "item") with
    | error detail =>
      exact settles_protocolError _ _ _
    | ok t =>
      exact (h.finishFunctionCallItem _ hclear hok).settles
  · rw [if_neg hcall]
    split
    · split
      · exact settles_protocolError _ _ _
      · exact ((h.reasoningSummaryEvents _ _).emitItem _ rfl).settles
    · exact absurd rfl hcall
    · exact h.settles

theorem exists_call (h : ResponsesFollows s l) {index : ℕ} {call : FunctionCall}
    (hcall : s.own.toolCalls[index]? = some call) :
    ∃ c ∈ l.calls, c.slot = index ∧ c.id = call.id := by
  have hslot := h.calls index
  rw [hcall, map_some, eq_comm, map_eq_some_iff] at hslot
  obtain ⟨c, hc, hid⟩ := hslot
  obtain ⟨hmem, hslot⟩ := (inSlot_eq_some_iff h.records.slots_nodup).mp hc
  exact ⟨c, hmem, hslot, hid⟩

theorem functionCallArgumentsDelta (h : ResponsesFollows s l) (evt : Json)
    (hclear : l.AllClear (argumentsDelta evt)) :
    Settles (l.steps (argumentsDelta evt)) (Responses.functionCallArgumentsDelta evt s) := by
  rw [Responses.functionCallArgumentsDelta]
  rw [argumentsDelta] at hclear ⊢
  cases hdelta : nonEmptyStr (evt.index "delta") with
  | none => exact h.settles
  | some text =>
    rw [hdelta] at hclear
    cases hslot : responsesToolSlot evt with
    | none => exact settles_protocolError _ _ _
    | some index =>
      rw [hslot] at hclear
      dsimp only
      split
      · exact settles_protocolError _ _ _
      · next call hcall =>
          obtain ⟨⟨c, hc, rfl, hopen⟩, -⟩ := hclear
          obtain ⟨c', hc', hsame, hid⟩ := h.exists_call hcall
          obtain rfl := Ledger.eq_of_slot h.records.slots_nodup hc' hc hsame
          refine ResponsesFollows.settles ⟨?_, ?_, ?_, h.next⟩
          · show Records ((s.events ++ [_]) ++ [_]) _
            rw [append_assoc]
            exact h.records.delta hc hopen hid.symm rfl
          · intro slot
            show s.own.toolCalls[slot]?.map FunctionCall.id = _
            rw [h.calls slot]
            exact (Ledger.inSlot_addDelta l c'.slot text slot).symm
          · intro slot
            show slot ∈ s.own.completedToolCalls ↔ _
            rw [h.completed slot]
            constructor
            · rintro ⟨c₀, hc₀, hand⟩
              refine ⟨_, Ledger.mem_modify.mpr ⟨c₀, hc₀, rfl⟩, ?_⟩
              split
              · exact hand
              · exact hand
            · rintro ⟨c₁, hc₁, hand⟩
              obtain ⟨c₀, hc₀, rfl⟩ := Ledger.mem_modify.mp hc₁
              refine ⟨c₀, hc₀, ?_⟩
              split at hand
              · exact hand
              · exact hand

theorem functionCallArgumentsDone (h : ResponsesFollows s l) (evt : Json) :
    Settles (l.steps (argumentsDone evt)) (Responses.functionCallArgumentsDone evt s) := by
  rw [Responses.functionCallArgumentsDone, argumentsDone]
  cases hslot : responsesToolSlot evt with
  | none => exact settles_protocolError _ _ _
  | some index =>
    dsimp only
    cases hcall : s.own.toolCalls[index]? with
    | none => exact settles_protocolError _ _ _
    | some call =>
      cases harguments : (evt.index "arguments").asStr with
      | none => exact settles_protocolError _ _ _
      | some text =>
        obtain ⟨c, hc, rfl, hid⟩ := h.exists_call hcall
        dsimp only
        rw [← hid]
        exact (h.announceFunctionCallArguments hc text).settles

theorem responseCompleted (h : ResponsesFollows s l) (evt : Json)
    (hclear : l.AllClear ((Responses.outputCalls evt).flatMap itemCall)) :
    Settles (l.steps ((Responses.outputCalls evt).flatMap itemCall))
      (Responses.responseCompleted evt s) := by
  have hfinish := h.finishFunctionCalls _ hclear
  rw [Responses.responseCompleted]
  split
  · exact settles_protocolError _ _ _
  · next t hresult =>
      rw [hresult] at hfinish
      refine .inr ⟨nofun, ?_⟩
      exact (hfinish rfl).of_own (forall_mem_singleton.mpr (quiet_segmentClose _ _ _))
        rfl rfl rfl rfl

theorem outputTextDelta (h : ResponsesFollows s l) (evt : Json) :
    Settles l (Responses.outputTextDelta evt s) := by
  rw [Responses.outputTextDelta]
  split
  · exact h.settles
  · split
    · exact settles_protocolError _ _ _
    · exact ((h.emitItem _ rfl).push (quiet_delta _)).settles

theorem reasoningSummaryTextDelta (h : ResponsesFollows s l) (evt : Json) :
    Settles l (Responses.reasoningSummaryTextDelta evt s) := by
  rw [Responses.reasoningSummaryTextDelta]
  split
  · exact (h.streamSummaryPart _ _ rfl).settles
  · exact h.settles

theorem reasoningSummaryPartDone (h : ResponsesFollows s l) (evt : Json) :
    Settles l (Responses.reasoningSummaryPartDone evt s) := by
  rw [Responses.reasoningSummaryPartDone]
  split
  · exact (h.streamSummaryPart _ _ rfl).settles
  · exact h.settles

theorem event (h : ResponsesFollows s l) (evt : Json)
    (hclear : l.AllClear (responsesEventCalls evt)) :
    Settles (l.steps (responsesEventCalls evt)) (processResponsesEvent evt s) := by
  have hstart := (h.startSegment (announcedId evt)).push (quiet_raw evt)
  rw [processResponsesEvent]
  rw [responsesEventCalls] at hclear ⊢
  generalize (evt.index "type").asStr.getD "" = type at hclear ⊢
  split
  · exact hstart.outputItemAdded evt hclear
  · exact hstart.outputItemDone evt hclear
  · exact hstart.functionCallArgumentsDelta evt hclear
  · exact hstart.functionCallArgumentsDone evt
  · exact hstart.responseCompleted evt hclear
  · -- the other types say nothing of calls
    split
    · exact hstart.outputTextDelta evt
    · exact hstart.reasoningSummaryTextDelta evt
    · exact hstart.reasoningSummaryPartDone evt
    · contradiction
    · contradiction
    · contradiction
    · contradiction
    · contradiction
    · exact .inl ⟨rfl, hasError_push _ _⟩
    · exact .inl ⟨rfl, hasError_push _ _⟩
    · exact .inl ⟨rfl, hasError_push _ _⟩
    · exact hstart.settles

end ResponsesFollows

/-! ## The end of the stream -/

namespace Responses

theorem foldl_completeSlot_events (slots : List ℕ) (hnodup : slots.Nodup) (s : Responses) :
    (slots.foldl completeSlot s).events = s.events ++
      (slots.filter (· ∉ s.own.completedToolCalls)).map .toolCallComplete := by
  induction slots generalizing s with
  | nil => exact (append_nil _).symm
  | cons slot rest ih =>
    obtain ⟨hnot, hrest⟩ := nodup_cons.mp hnodup
    rw [foldl_cons, ih hrest, completeSlot]
    by_cases hmem : slot ∈ s.own.completedToolCalls
    · rw [if_pos hmem, filter_cons_of_neg (by simpa using hmem)]
    · have hfilter : rest.filter (· ∉ insert slot s.own.completedToolCalls) =
          rest.filter (· ∉ s.own.completedToolCalls) := by
        refine filter_congr fun other hother => ?_
        have hne : other ≠ slot := by
          rintro rfl
          exact hnot hother
        simp only [Finset.mem_insert, hne, false_or]
      rw [if_neg hmem, filter_cons_of_pos (by simpa using hmem), map_cons]
      show (s.events ++ [_]) ++ (rest.filter (· ∉ insert slot s.own.completedToolCalls)).map _ = _
      rw [hfilter, append_assoc]
      rfl

/-- A stream without an error was closed before its end. -/
theorem closeAtEnd_eq (s : Responses) (hok : ¬ HasError s.closeAtEnd.events) :
    s.closeAtEnd = s := by
  rw [closeAtEnd] at hok ⊢
  split
  · next hopen =>
      rw [if_pos hopen] at hok
      exact absurd (hasError_push _ _) hok
  · rfl

section Results

variable (evt : Json) (s : Responses)

theorem outputTextDelta_result : (outputTextDelta evt s).1 ≠ .completed := by
  rw [outputTextDelta]
  split
  · exact nofun
  · split <;> exact nofun

theorem reasoningSummaryTextDelta_result : (reasoningSummaryTextDelta evt s).1 ≠ .completed := by
  rw [reasoningSummaryTextDelta]
  split <;> exact nofun

theorem reasoningSummaryPartDone_result : (reasoningSummaryPartDone evt s).1 ≠ .completed := by
  rw [reasoningSummaryPartDone]
  split <;> exact nofun

theorem outputItemAdded_result : (outputItemAdded evt s).1 ≠ .completed := by
  rw [outputItemAdded]
  split
  · split
    · exact nofun
    · split <;> exact nofun
  · exact nofun

theorem outputItemDone_result : (outputItemDone evt s).1 ≠ .completed := by
  rw [outputItemDone]
  split
  · split <;> exact nofun
  · split <;> exact nofun
  · exact nofun

theorem functionCallArgumentsDelta_result :
    (functionCallArgumentsDelta evt s).1 ≠ .completed := by
  rw [functionCallArgumentsDelta]
  split
  · exact nofun
  · split
    · exact nofun
    · split <;> exact nofun

theorem functionCallArgumentsDone_result : (functionCallArgumentsDone evt s).1 ≠ .completed := by
  rw [functionCallArgumentsDone]
  split
  · exact nofun
  · split
    · exact nofun
    · split <;> exact nofun

theorem responseCompleted_result : (responseCompleted evt s).1 ≠ .events := by
  rw [responseCompleted]
  split <;> exact nofun

/-- Only `response.completed` completes a response. -/
theorem type_of_completed (h : (processResponsesEvent evt s).1 = .completed) :
    (evt.index "type").asStr = some "response.completed" := by
  rw [processResponsesEvent] at h
  cases htype : (evt.index "type").asStr with
  | none =>
    rw [htype] at h
    exact nomatch h
  | some type =>
    rw [htype] at h
    dsimp only [getD_some] at h
    split at h
    · exact absurd h (outputTextDelta_result _ _)
    · exact absurd h (reasoningSummaryTextDelta_result _ _)
    · exact absurd h (reasoningSummaryPartDone_result _ _)
    · exact absurd h (outputItemAdded_result _ _)
    · exact absurd h (outputItemDone_result _ _)
    · exact absurd h (functionCallArgumentsDelta_result _ _)
    · exact absurd h (functionCallArgumentsDone_result _ _)
    · rfl
    · exact nomatch h
    · exact nomatch h
    · exact nomatch h
    · exact nomatch h

/-- An event behind which more is read is not `response.completed`. -/
theorem type_of_events (h : (processResponsesEvent evt s).1 = .events) :
    (evt.index "type").asStr ≠ some "response.completed" := by
  intro htype
  rw [processResponsesEvent, htype] at h
  exact responseCompleted_result _ _ h

end Results

end Responses

namespace ResponsesFollows

variable {s : Responses} {l : Ledger}

theorem finalize (h : ResponsesFollows s l) (hok : ¬ HasError s.finalizeResponsesStream.events) :
    DeliversOnce l.calls s.finalizeResponsesStream.events := by
  have hclosed : s.completePending.closeAtEnd = s.completePending :=
    closeAtEnd_eq _ fun ⟨text, herror⟩ => hok ⟨text, mem_append_left _ herror⟩
  have hkeys := OrderedMap.nodup_map_fst_toList s.own.toolCalls
  have hevents : s.finalizeResponsesStream.events = s.events ++
      (((s.own.toolCalls.toList.map Prod.fst).filter (· ∉ s.own.completedToolCalls)).map
        .toolCallComplete ++ [.done s.completePending.segment.usage]) := by
    rw [finalizeResponsesStream, hclosed]
    show s.completePending.events ++ [_] = _
    rw [completePending, foldl_completeSlot_events _ hkeys, append_assoc]
  rw [hevents]
  refine h.records.complete (hkeys.filter _) ?_ (forall_mem_singleton.mpr (quiet_done _))
  intro slot
  rw [mem_filter, OrderedMap.mem_map_fst_toList, ← isSome_map (f := FunctionCall.id),
    h.calls slot, isSome_map, isSome_iff_exists, decide_eq_true_iff, h.completed]
  constructor
  · rintro ⟨⟨c, hc⟩, hpending⟩
    obtain ⟨hmem, hslot⟩ := (inSlot_eq_some_iff h.records.slots_nodup).mp hc
    refine ⟨c, hmem, hslot, ?_⟩
    rw [← not_isSome_iff_eq_none]
    exact fun hfinal => hpending ⟨c, hmem, hslot, hfinal⟩
  · rintro ⟨c, hmem, hslot, hfinal⟩
    refine ⟨⟨c, (inSlot_eq_some_iff h.records.slots_nodup).mpr ⟨hmem, hslot⟩⟩, ?_⟩
    rintro ⟨c', hmem', hslot', hfinal'⟩
    rw [eq_of_slot h.records.slots_nodup hmem' hmem (hslot'.trans hslot.symm), hfinal]
      at hfinal'
    exact absurd hfinal' Bool.false_ne_true

theorem run (parse : String → Except String Json) (ending : StreamEnd) (lines : List String)
    (h : ResponsesFollows s l) (hclear : l.AllClear (responsesCalls parse lines))
    (hok : ¬ HasError (responsesStream parse ending lines s).events) :
    DeliversOnce (l.steps (responsesCalls parse lines)).calls
      (responsesStream parse ending lines s).events := by
  induction lines generalizing s l with
  | nil =>
    cases ending with
    | eof => exact h.finalize hok
    | failed error => exact absurd (hasError_push _ error) hok
  | cons data rest ih =>
    rw [responsesStream, processResponsesSseLine] at hok ⊢
    rw [responsesCalls] at hclear ⊢
    by_cases hdata : data = "[DONE]"
    · rw [if_pos hdata] at hok ⊢
      rw [if_pos hdata]
      exact h.finalize hok
    · rw [if_neg hdata] at hok hclear ⊢
      rw [if_neg hdata]
      cases hparse : parse data with
      | error error =>
        rw [hparse] at hok
        exact absurd (hasError_fail _ _) hok
      | ok evt =>
        rw [hparse] at hok hclear
        rw [allClear_append] at hclear
        dsimp only at hok ⊢
        rw [steps_append]
        have hevent := h.event evt hclear.1
        cases hresult : processResponsesEvent evt s with
        | mk result t =>
          rw [hresult] at hok hevent
          obtain ⟨rfl, herror⟩ | ⟨hne, hfollows⟩ := hevent
          · exact absurd herror hok
          · cases result with
            | failed => exact absurd rfl hne
            | completed =>
              rw [if_pos (type_of_completed evt s (by rw [hresult]))]
              exact hfollows.finalize hok
            | events =>
              have htype := type_of_events evt s (by rw [hresult])
              rw [if_neg htype] at hclear ⊢
              exact ih hfollows hclear.2 hok

end ResponsesFollows

end Chelix.Providers
