import Chelix.Providers.CallLedger
import Chelix.Providers.Emission

/-!
# The calls of Chat Completions
-/

namespace Chelix.Providers

open Chelix.Agents.Model Chelix.Common Chelix.Library List Chelix.Providers.Chat Ledger

/-! ## What the data lines say of calls -/

/-- The opening of a call in a delta of Chat Completions: an identity and a name. -/
def openedBy (tc : Json) (index : ℕ) : List CallEvent :=
  match (tc.index "id").asStr, ((tc.index "function").index "name").asStr with
  | some id, some _ => [.opened id (some index)]
  | _, _ => []

def argumentsOf (tc : Json) (index : ℕ) : List CallEvent :=
  match ((tc.index "function").index "arguments").asStr.filter (· ≠ "") with
  | some text => [.delta index text]
  | none => []

def toolCallEvents (tc : Json) : List CallEvent :=
  match (tc.index "index").asNat with
  | some index => openedBy tc index ++ argumentsOf tc index
  | none => []

def chatEventCalls (evt : Json) : List CallEvent :=
  if (evt.get "error").any Json.isObject then []
  else
    ((((((evt.index "choices").indexAt 0).index "delta").index "tool_calls").asArray).getD
      []).flatMap toolCallEvents

def chatLineCalls (parse : String → Except String Json) (data : String) : List CallEvent :=
  match parse data with
  | .ok evt => chatEventCalls evt
  | .error _ => []

/-- The lines up to the end of the stream. -/
def chatCalls (parse : String → Except String Json) : List String → List CallEvent
  | [] => []
  | data :: rest => if data = "[DONE]" then [] else chatLineCalls parse data ++ chatCalls parse rest

/-! ## The slots and the ledger -/

/-- The slots of the adapter hold the calls of the ledger, none of which has a final text. -/
structure ChatFollows (s : Chat) (l : Ledger) : Prop where
  records : Records s.events l
  calls : ∀ slot, s.own.toolCalls[slot]?.map ToolCallBuffer.id =
    (l.inSlot slot).map ProviderCall.id
  unfinished : ∀ c ∈ l.calls, c.final = none

namespace ChatFollows

variable {s t : Chat} {l : Ledger}

theorem new (segmentId : ProviderSegmentId) : ChatFollows (new segmentId) .empty where
  records := Records.empty
  calls := fun slot => by
    show ((∅ : OrderedMap ℕ ToolCallBuffer)[slot]?).map _ = none
    simp
  unfinished := fun _ h => (nomatch h)

theorem of_own (h : ChatFollows s l) {tail : List StreamEvent} (htail : ∀ e ∈ tail, Quiet e)
    (hown : t.own.toolCalls = s.own.toolCalls) (hevents : t.events = s.events ++ tail) :
    ChatFollows t l where
  records := by
    rw [hevents]
    exact h.records.quiet htail
  calls := by
    rw [hown]
    exact h.calls
  unfinished := h.unfinished

theorem push (h : ChatFollows s l) {e : StreamEvent} (he : Quiet e) : ChatFollows (s.push e) l :=
  h.of_own (forall_mem_singleton.mpr he) rfl rfl

theorem emitItem (h : ChatFollows s l) (itemId : ProviderItemId)
    {payload : ProviderItemUpdatePayload} (hpayload : carriesArguments payload = false) :
    ChatFollows (s.emitItem itemId payload) l :=
  h.of_own (forall_mem_singleton.mpr (quiet_item hpayload)) rfl rfl

theorem emitsText (h : ChatFollows s l) (hemits : EmitsText s t) : ChatFollows t l := by
  refine hemits.invariant (I := fun t => ChatFollows t l) ?_ ?_ ?_ h
  · intro a x hx ha
    cases hx with
    | reasoning text => exact ha.emitItem _ rfl
    | visible text => exact (ha.emitItem _ rfl).push (quiet_delta _)
  · intro a o ho ha
    exact ha.of_own (forall_mem_nil _) ho.1 (append_nil _).symm
  · intro a u ha
    exact ha.of_own (forall_mem_nil _) rfl (append_nil _).symm

theorem toolCallStart (h : ChatFollows s l) (tc : Json) (index : ℕ)
    (hclear : l.AllClear (openedBy tc index)) :
    ChatFollows (Chat.toolCallStart tc index s) (l.steps (openedBy tc index)) := by
  rw [Chat.toolCallStart]
  rw [openedBy] at hclear ⊢
  cases hid : (tc.index "id").asStr with
  | none => exact h
  | some id =>
    cases hname : ((tc.index "function").index "name").asStr with
    | none => exact h
    | some name =>
      rw [hid, hname] at hclear
      obtain ⟨⟨hnew, hfree⟩, -⟩ := hclear
      replace hfree : index ∉ l.slots := hfree
      have hquiet : Quiet (.providerItemUpdate (s.nextUpdate id (.functionCallStart name))) :=
        quiet_item rfl
      refine ⟨?_, ?_, ?_⟩
      · exact (h.records.push hquiet).start hnew hfree
      · intro slot
        show ((s.own.toolCalls.insert index ⟨id, name, ""⟩)[slot]?).map ToolCallBuffer.id =
          ((l.add id index).inSlot slot).map ProviderCall.id
        rw [OrderedMap.get_insert, Ledger.inSlot_add hfree]
        by_cases heq : index = slot
        · rw [if_pos heq, if_pos heq.symm]
          rfl
        · rw [if_neg heq, if_neg (Ne.symm heq)]
          exact h.calls slot
      · intro c hc
        rcases mem_append.mp hc with hc | hc
        · exact h.unfinished c hc
        · rw [mem_singleton.mp hc]

theorem toolCallArguments (h : ChatFollows s l) (tc : Json) (index : ℕ)
    (hclear : l.AllClear (argumentsOf tc index)) :
    ChatFollows (Chat.toolCallArguments tc index s) (l.steps (argumentsOf tc index)) := by
  rw [Chat.toolCallArguments]
  rw [argumentsOf] at hclear ⊢
  cases hargs : ((tc.index "function").index "arguments").asStr.filter (· ≠ "") with
  | none => exact h
  | some text =>
    rw [hargs] at hclear
    obtain ⟨⟨c, hc, hslot, hopen⟩, -⟩ := hclear
    subst hslot
    have hcall := h.calls c.slot
    rw [(Ledger.inSlot_eq_some_iff h.records.slots_nodup).mpr ⟨hc, rfl⟩, Option.map_some,
      Option.map_eq_some_iff] at hcall
    obtain ⟨call, hcall, hid⟩ := hcall
    dsimp only
    rw [hcall]
    refine ⟨?_, ?_, ?_⟩
    · show Records ((s.events ++ [_]) ++ [_]) _
      rw [append_assoc]
      exact h.records.delta hc hopen hid rfl
    · intro slot
      show ((s.own.toolCalls.insert c.slot _)[slot]?).map ToolCallBuffer.id =
        ((l.addDelta c.slot text).inSlot slot).map ProviderCall.id
      rw [Ledger.inSlot_addDelta, ← h.calls slot, OrderedMap.get_insert]
      by_cases heq : c.slot = slot
      · subst heq
        rw [if_pos rfl, hcall]
        rfl
      · rw [if_neg heq]
    · intro c' hc'
      obtain ⟨c₀, hc₀, rfl⟩ := Ledger.mem_modify.mp hc'
      split
      · exact h.unfinished c₀ hc₀
      · exact h.unfinished c₀ hc₀

theorem toolCallDeltas (tcs : List Json) (h : ChatFollows s l)
    (hclear : l.AllClear (tcs.flatMap toolCallEvents)) :
    match toolCallDeltas tcs s with
    | (true, t) => ChatFollows t (l.steps (tcs.flatMap toolCallEvents))
    | (false, t) => HasError t.events := by
  induction tcs generalizing s l with
  | nil => exact h
  | cons tc rest ih =>
    rw [toolCallDeltas]
    rw [flatMap_cons, allClear_append] at hclear
    rw [flatMap_cons, steps_append]
    cases hindex : (tc.index "index").asNat with
    | none => exact hasError_fail s _
    | some index =>
      have hevents : toolCallEvents tc = openedBy tc index ++ argumentsOf tc index := by
        rw [toolCallEvents, hindex]
      rw [hevents] at hclear ⊢
      rw [allClear_append, steps_append] at hclear
      rw [steps_append]
      obtain ⟨⟨hopened, harguments⟩, hrest⟩ := hclear
      exact ih ((h.toolCallStart tc index hopened).toolCallArguments tc index harguments) hrest

theorem startSegment (h : ChatFollows s l) (announced : Option String) :
    ChatFollows (s.startSegment announced) l := by
  rw [Adapter.startSegment]
  split
  · exact h
  · exact h.of_own (forall_mem_singleton.mpr (quiet_segmentStart _)) rfl rfl

theorem finishReason (h : ChatFollows s l) (evt : Json)
    (hok : ¬ HasError (Chat.finishReason evt s).events) :
    ChatFollows (Chat.finishReason evt s) l := by
  have hmark : ChatFollows s.markTerminal l :=
    h.of_own (forall_mem_nil _) rfl (append_nil _).symm
  rw [Chat.finishReason] at hok ⊢
  split
  · exact h
  · next reason hreason =>
      rw [hreason] at hok
      split
      · exact hmark
      · next hbad =>
          exfalso
          apply hok
          dsimp only
          rw [if_neg hbad]
          exact hasError_push _ _

theorem processEvent (h : ChatFollows s l) (evt : Json) (hclear : l.AllClear (chatEventCalls evt))
    (hok : ¬ HasError (Chat.processEvent evt s).events) :
    ChatFollows (Chat.processEvent evt s) (l.steps (chatEventCalls evt)) := by
  rw [Chat.processEvent] at hok ⊢
  rw [chatEventCalls] at hclear ⊢
  have hstart := (h.push (quiet_raw evt)).startSegment ((evt.get "id").bind Json.asStr)
  split
  · next herror =>
      rw [if_pos herror] at hok
      exact absurd (hasError_fail _ _) hok
  · next herror =>
      rw [if_neg herror] at hok hclear
      have husage : ChatFollows (((s.push (.providerRaw evt)).startSegment
          ((evt.get "id").bind Json.asStr)).setUsage (parseOpenaiCompatUsageFromPayload evt)) l :=
        hstart.of_own (forall_mem_nil _) rfl (append_nil _).symm
      have htext := (husage.emitsText (Chat.emitsText_contentDelta
        (((evt.index "choices").indexAt 0).index "delta") _)).emitsText
        (Chat.emitsText_reasoningDelta (((evt.index "choices").indexAt 0).index "delta") _)
      have hdeltas := htext.toolCallDeltas _ hclear
      rw [Chat.processChoice] at hok ⊢
      split
      · next t hresult =>
          rw [hresult] at hok hdeltas
          exact hdeltas.finishReason evt hok
      · next t hresult =>
          rw [hresult] at hok hdeltas
          exact absurd hdeltas hok

theorem line (h : ChatFollows s l) (parse : String → Except String Json) {data : String}
    (hdata : data ≠ "[DONE]") (hclear : l.AllClear (chatLineCalls parse data))
    (hok : ¬ HasError (s.processOpenaiSseLine parse data).2.events) :
    ChatFollows (s.processOpenaiSseLine parse data).2 (l.steps (chatLineCalls parse data)) := by
  rw [processOpenaiSseLine, if_neg hdata] at hok ⊢
  rw [chatLineCalls] at hclear ⊢
  cases hparse : parse data with
  | error error =>
    rw [hparse] at hok
    exact absurd (hasError_fail _ _) hok
  | ok evt =>
    rw [hparse] at hok hclear
    exact h.processEvent evt hclear hok

theorem mem_keys (h : ChatFollows s l) (slot : ℕ) :
    slot ∈ s.own.toolCalls.toList.map Prod.fst ↔ ∃ c ∈ l.calls, c.slot = slot ∧ c.final = none := by
  rw [OrderedMap.mem_map_fst_toList, ← Option.isSome_map (f := ToolCallBuffer.id), h.calls slot,
    Option.isSome_map, Option.isSome_iff_exists]
  constructor
  · rintro ⟨c, hc⟩
    obtain ⟨hmem, hslot⟩ := (inSlot_eq_some_iff h.records.slots_nodup).mp hc
    exact ⟨c, hmem, hslot, h.unfinished c hmem⟩
  · rintro ⟨c, hmem, hslot, -⟩
    exact ⟨c, (inSlot_eq_some_iff h.records.slots_nodup).mpr ⟨hmem, hslot⟩⟩

/-- A stream without an error is closed without a word on calls. -/
theorem closeAtEnd_events (t : Chat) (hok : ¬ HasError t.closeAtEnd.events) :
    ∃ tail, t.closeAtEnd.events = t.events ++ tail ∧ ∀ e ∈ tail, Quiet e := by
  rw [closeAtEnd] at hok ⊢
  split
  · next hopen =>
      rw [if_pos hopen] at hok
      dsimp only at hok ⊢
      split
      · exact ⟨_, rfl, forall_mem_singleton.mpr (quiet_segmentClose _ _ _)⟩
      · next hseen =>
          rw [if_neg hseen] at hok
          exact absurd (hasError_push _ _) hok
  · exact ⟨[], (append_nil _).symm, forall_mem_nil _⟩

theorem finalize (h : ChatFollows s l) (hok : ¬ HasError s.finalizeStream.events) :
    DeliversOnce l.calls s.finalizeStream.events := by
  have hflush := h.emitsText s.emitsText_flushBuffer
  have hclosed : ¬ HasError s.flushBuffer.completeToolCalls.closeAtEnd.events :=
    fun ⟨text, herror⟩ => hok ⟨text, mem_append_left _ herror⟩
  obtain ⟨tail, htail, hquiet⟩ := closeAtEnd_events _ hclosed
  have hevents : s.finalizeStream.events = s.flushBuffer.events ++
      ((s.flushBuffer.own.toolCalls.toList.map Prod.fst).map .toolCallComplete ++
        (tail ++ [.done s.flushBuffer.completeToolCalls.closeAtEnd.segment.usage])) := by
    show s.flushBuffer.completeToolCalls.closeAtEnd.events ++ [_] = _
    rw [htail, map_map]
    simp only [completeToolCalls, append_assoc]
    rfl
  rw [hevents]
  refine hflush.records.complete (OrderedMap.nodup_map_fst_toList _) hflush.mem_keys ?_
  intro e he
  rcases mem_append.mp he with he | he
  · exact hquiet e he
  · rw [mem_singleton.mp he]
    exact quiet_done _

end ChatFollows

/-! ## A whole stream -/

theorem events_toolCallDeltas (tcs : List Json) (s : Chat) :
    s.events <+: (toolCallDeltas tcs s).2.events := by
  induction tcs generalizing s with
  | nil => exact prefix_refl _
  | cons tc rest ih =>
    rw [toolCallDeltas]
    split
    · exact events_fail s _
    · next index _ =>
        have hstart : Emits AnyOwn (fun _ => True) s (toolCallStart tc index s) :=
          emits_toolCallStart fun _ _ _ => ⟨trivial, trivial⟩
        have harguments : Emits AnyOwn (fun _ => True) (toolCallStart tc index s)
            (toolCallArguments tc index (toolCallStart tc index s)) :=
          emits_toolCallArguments fun _ => ⟨fun _ _ => trivial, trivial⟩
        exact (hstart.trans harguments).events_isPrefix.trans (ih _)

theorem events_finishReason (evt : Json) (s : Chat) :
    s.events <+: (finishReason evt s).events := by
  rw [finishReason]
  split
  · exact prefix_refl _
  · split
    · exact prefix_refl _
    · exact prefix_append ..

theorem events_processChoice (evt : Json) (s : Chat) :
    s.events <+: (processChoice evt s).events := by
  have htext := (emitsText_contentDelta
    (((evt.index "choices").indexAt 0).index "delta") s).trans
    (emitsText_reasoningDelta (((evt.index "choices").indexAt 0).index "delta") _)
  have hdeltas := events_toolCallDeltas
    ((((((evt.index "choices").indexAt 0).index "delta").index "tool_calls").asArray).getD [])
    (reasoningDelta (((evt.index "choices").indexAt 0).index "delta")
      (contentDelta (((evt.index "choices").indexAt 0).index "delta") s))
  rw [processChoice]
  refine htext.events_isPrefix.trans (hdeltas.trans ?_)
  split
  · next t hresult =>
      rw [hresult]
      exact events_finishReason evt t
  · next t hresult =>
      rw [hresult]

variable (parse : String → Except String Json)

theorem events_processOpenaiSseLine (data : String)
    (s : Chat) : s.events <+: (s.processOpenaiSseLine parse data).2.events := by
  rw [processOpenaiSseLine]
  split
  · exact prefix_refl _
  · split
    · exact events_fail s _
    · next evt _ =>
        show s.events <+: (processEvent evt s).events
        have hpush : s.events <+: (s.push (.providerRaw evt)).events := prefix_append ..
        rw [processEvent]
        refine (hpush.trans (events_startSegment _ ((evt.get "id").bind Json.asStr))).trans ?_
        split
        · exact events_fail _ _
        · exact events_processChoice evt (((s.push (.providerRaw evt)).startSegment
            ((evt.get "id").bind Json.asStr)).setUsage (parseOpenaiCompatUsageFromPayload evt))

theorem events_closeAtEnd (s : Chat) : s.events <+: s.closeAtEnd.events := by
  rw [closeAtEnd]
  split
  · dsimp only
    split
    · exact prefix_append ..
    · exact (prefix_append ..).trans (prefix_append ..)
  · exact prefix_refl _

theorem events_finalizeStream (s : Chat) : s.events <+: s.finalizeStream.events := by
  have hcomplete : s.flushBuffer.events <+: s.flushBuffer.completeToolCalls.events :=
    prefix_append ..
  have hdone : s.flushBuffer.completeToolCalls.closeAtEnd.events <+: s.finalizeStream.events :=
    prefix_append ..
  exact s.emitsText_flushBuffer.events_isPrefix.trans
    (hcomplete.trans ((events_closeAtEnd _).trans hdone))

theorem events_chatStream (ending : StreamEnd)
    (lines : List String) (s : Chat) : s.events <+: (chatStream parse ending lines s).events := by
  induction lines generalizing s with
  | nil =>
    cases ending with
    | eof => exact events_finalizeStream s
    | failed error =>
      show s.events <+: (s.closeOnTransportError.push (.error error)).events
      rw [Adapter.closeOnTransportError]
      split
      · exact (prefix_append ..).trans (prefix_append ..)
      · exact prefix_append ..
  | cons data rest ih =>
    have hline := events_processOpenaiSseLine parse data s
    rw [chatStream]
    split
    · next t hresult =>
        rw [hresult] at hline
        exact hline.trans (events_finalizeStream t)
    · next t hresult =>
        rw [hresult] at hline
        exact hline.trans (ih t)

namespace ChatFollows

variable {s : Chat} {l : Ledger}

theorem processOpenaiSseLine_done (s : Chat) :
    s.processOpenaiSseLine parse "[DONE]" = (.done, s.markTerminal) := by
  rw [processOpenaiSseLine, if_pos rfl]

theorem processOpenaiSseLine_result {data : String}
    (hdata : data ≠ "[DONE]") (s : Chat) : (s.processOpenaiSseLine parse data).1 = .events := by
  rw [processOpenaiSseLine, if_neg hdata]
  split <;> rfl

theorem run (ending : StreamEnd) (lines : List String)
    (h : ChatFollows s l) (hclear : l.AllClear (chatCalls parse lines))
    (hok : ¬ HasError (chatStream parse ending lines s).events) :
    DeliversOnce (l.steps (chatCalls parse lines)).calls
      (chatStream parse ending lines s).events := by
  induction lines generalizing s l with
  | nil =>
    cases ending with
    | eof => exact h.finalize hok
    | failed error => exact absurd (hasError_push _ error) hok
  | cons data rest ih =>
    rw [chatStream] at hok ⊢
    rw [chatCalls] at hclear ⊢
    by_cases hdata : data = "[DONE]"
    · subst hdata
      rw [processOpenaiSseLine_done] at hok ⊢
      have hmark : ChatFollows s.markTerminal l :=
        h.of_own (forall_mem_nil _) rfl (append_nil _).symm
      exact hmark.finalize hok
    · rw [if_neg hdata] at hclear ⊢
      rw [allClear_append] at hclear
      rw [steps_append]
      have hresult := processOpenaiSseLine_result parse hdata s
      have hstep := h.line parse hdata hclear.1
      split at hok
      · next t hline =>
          rw [hline] at hresult
          cases hresult
      · next t hline =>
          rw [hline] at hstep
          have hmid : ¬ HasError t.events := fun herror =>
            hok (herror.mono (events_chatStream parse ending rest t))
          exact ih (hstep hmid) hclear.2 hok

end ChatFollows

end Chelix.Providers
