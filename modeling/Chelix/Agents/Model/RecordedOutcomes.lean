import Chelix.Agents.Model.CallHistory

/-!
# Recorded outcomes of calls

The records of a call's life end with one that says how the call ended.  The request that is
rebuilt from the records should show the call with that outcome.
-/

namespace Chelix.Agents.Model

open Chelix.Library Chelix.Common List ChatReconstruction

/-- The call and the result text of a record that ends the life of a call. -/
def outcomeOf (value : Json) : Option (String × String) :=
  if role value = some "tool_lifecycle" then
    (decodeToolLifecycleEvent value).bind fun lifecycle =>
      (ChatReconstruction.terminalContent lifecycle.update).map fun content =>
        (lifecycle.toolCallId, content)
  else none

/-- A record that ends the life of a call, in its history. -/
structure Outcome where
  before : List (Json × ℕ)
  value : Json
  index : ℕ
  after : List (Json × ℕ)
  callId : String
  content : String

section Outcomes

variable (env : Environment) (values : List Json)

/-- The reconstruction after some of the records. -/
def rebuiltFrom (before : List (Json × ℕ)) :
    Except ChatMessageConversionError ChatReconstruction :=
  (ChatReconstruction.new true (assistantSegmentIds values)).pushAll env before

/-- An assistant message that issues the call was emitted. -/
def Issued (before : List (Json × ℕ)) (callId : String) : Prop :=
  ∃ r, rebuiltFrom env values before = .ok r ∧ ∃ m ∈ r.messages, callId ∈ m.callIds

/-- The first outcome that is recorded for a call after it was issued. -/
structure FirstOutcome (messages : List ChatMessage) (o : Outcome) : Prop where
  converts : valuesToChatMessages env values = .ok messages
  taken : orderedValues values = o.before ++ (o.value, o.index) :: o.after
  terminal : outcomeOf o.value = some (o.callId, o.content)
  issued : Issued env values o.before o.callId
  first : ∀ before' value' index' after', o.before = before' ++ (value', index') :: after' →
    (outcomeOf value').map Prod.fst = some o.callId → ¬Issued env values before' o.callId

/-- The record becomes the result message of its call, and in the rebuilt request nothing else is
said about the call between the messages before the record and that result. -/
def Shown (messages : List ChatMessage) (o : Outcome) : Prop :=
  ∃ r r' front back, rebuiltFrom env values o.before = .ok r ∧
    r.push env o.index o.value = .ok r' ∧
    r'.messages = r.messages ++ [.tool o.callId o.content] ∧
    messages = front ++ .tool o.callId o.content :: back ∧
    r.messages.Sublist front ∧ callWord o.callId front = callWord o.callId r.messages

/-- No recorded outcome is replaced by a synthetic one. -/
def KeepsOutcomes : Prop :=
  ∀ messages o, FirstOutcome env values messages o → Shown env values messages o

end Outcomes

/-! ## The repair keeps its messages -/

theorem sublist_repair (answered seen : List String) (messages : List ChatMessage) :
    messages.Sublist (repair answered seen messages) := by
  induction messages generalizing seen with
  | nil => exact List.Sublist.slnil
  | cons m messages ih =>
    rw [repair]
    exact ((ih _).trans (sublist_append_right _ _)).cons_cons m

theorem repair_append (answered seen : List String) (messages messages' : List ChatMessage) :
    ∃ seen', repair answered seen (messages ++ messages') =
      repair answered seen messages ++ repair answered seen' messages' := by
  induction messages generalizing seen with
  | nil => exact ⟨seen, rfl⟩
  | cons m messages ih =>
    obtain ⟨seen', hrest⟩ := ih (seen ++ newIds answered seen m.callIds)
    refine ⟨seen', ?_⟩
    rw [cons_append, repair, repair]
    simp only [hrest, cons_append, append_assoc]

theorem ensureToolCallResultsPresent_append_tool (messages rest : List ChatMessage)
    (callId content : String) :
    ∃ front back, ensureToolCallResultsPresent (messages ++ .tool callId content :: rest) =
        front ++ .tool callId content :: back ∧
      messages.Sublist front ∧ callWord callId front = callWord callId messages := by
  rw [ensureToolCallResultsPresent_eq_repair]
  generalize hanswered :
    (messages ++ .tool callId content :: rest).filterMap ChatMessage.answers = answered
  obtain ⟨seen', happend⟩ := repair_append answered [] messages (.tool callId content :: rest)
  have hknown : callId ∈ answered := by
    rw [← hanswered, filterMap_append]
    exact mem_append_right _ (mem_cons_self ..)
  have hnew : newIds answered seen' (ChatMessage.tool callId content).callIds = [] := rfl
  rw [happend, repair]
  refine ⟨repair answered [] messages, _, rfl, sublist_repair _ _ _, ?_⟩
  exact callWord_repair_of_known (.inl hknown) messages

/-! ## The reconstruction only appends -/

namespace ChatReconstruction

variable {env : Environment} {r r' : ChatReconstruction}

theorem prefix_emitResult (r : ChatReconstruction) (callId content : String) :
    r.messages <+: (r.emitResult callId content).messages := by
  unfold emitResult
  dsimp only
  split
  · exact prefix_rfl
  · exact prefix_append _ _

theorem prefix_flushReplayedSegment (r : ChatReconstruction) (segmentId : ProviderSegmentId) :
    r.messages <+: (r.flushReplayedSegment env segmentId).messages := by
  unfold flushReplayedSegment
  split
  · exact prefix_rfl
  · split
    · exact prefix_rfl
    · exact prefix_append _ _

theorem prefix_push {index : ℕ} {value : Json} (h : r.push env index value = .ok r') :
    r.messages <+: r'.messages := by
  have hemit (m : ChatMessage) : r.messages <+: (r.emit m).messages := prefix_append _ _
  unfold push at h
  split at h
  · cases h
    exact prefix_rfl
  · cases h
    exact hemit _
  · cases h
    exact hemit _
  · unfold pushAssistant at h
    simp only at h
    split at h
    · cases h
    · split at h
      · cases h
      · cases h
        exact hemit _
  · cases h
    exact prefix_emitResult r _ _
  · unfold pushToolLifecycle at h
    split at h
    · cases h
    · split at h
      · cases h
        exact prefix_emitResult r _ _
      · cases h
        exact prefix_rfl
  · cases h
    exact prefix_rfl
  · unfold pushProviderUpdate at h
    split at h
    · cases h
    · split at h
      · cases h
      · cases h
        exact prefix_rfl
  · unfold pushProviderClose at h
    split at h
    · cases h
    · rename_i close _
      split at h
      · cases h
      · rename_i segments _
        cases h
        exact @prefix_flushReplayedSegment env { r with providerSegments := segments }
          close.segmentId
  · cases h
    exact hemit _
  · cases h

theorem prefix_pushAll {entries : List (Json × ℕ)} (h : r.pushAll env entries = .ok r') :
    r.messages <+: r'.messages := by
  induction entries generalizing r with
  | nil =>
    cases h
    exact prefix_rfl
  | cons entry entries ih =>
    rw [pushAll] at h
    cases hone : r.push env entry.2 entry.1 with
    | error e =>
      rw [hone] at h
      cases h
    | ok next =>
      rw [hone] at h
      exact (prefix_push hone).trans (ih h)

theorem prefix_appendReplayedProviderSegments (r : ChatReconstruction) :
    r.messages <+: (r.appendReplayedProviderSegments env).messages := by
  unfold appendReplayedProviderSegments
  induction r.providerSegments generalizing r with
  | nil => exact prefix_rfl
  | cons m segments ih =>
    rw [foldl_cons]
    refine List.IsPrefix.trans ?_ (ih _)
    unfold appendReplayedSegment
    split
    · exact prefix_rfl
    · exact prefix_append _ _

theorem pushAll_append_eq (r : ChatReconstruction) (entries entries' : List (Json × ℕ)) :
    r.pushAll env (entries ++ entries') =
      match r.pushAll env entries with
      | .error e => .error e
      | .ok r' => r'.pushAll env entries' := by
  induction entries generalizing r with
  | nil => rfl
  | cons entry entries ih =>
    rw [cons_append, pushAll, pushAll]
    cases r.push env entry.2 entry.1 with
    | error e => rfl
    | ok next => exact ih next

theorem push_outcome {index : ℕ} {value : Json} {callId content : String}
    (h : outcomeOf value = some (callId, content)) :
    r.push env index value = .ok (r.emitResult callId content) := by
  unfold outcomeOf at h
  split at h
  · rename_i hrole
    obtain ⟨lifecycle, hdecode, hcontent⟩ := Option.bind_eq_some_iff.mp h
    obtain ⟨content', hterminal, heq⟩ := Option.map_eq_some_iff.mp hcontent
    cases heq
    unfold push pushToolLifecycle
    rw [hrole]
    simp only [Decoder.run, hdecode, hterminal]
  · cases h

/-- A result is emitted if and only if its call is pending. -/
theorem emitResult_messages_iff (hfilters : r.filterOrphanToolResults = true)
    (callId content : String) :
    (r.emitResult callId content).messages = r.messages ++ [.tool callId content] ↔
      callId ∈ r.pendingToolCallIds := by
  unfold emitResult
  by_cases hpending : callId ∈ r.pendingToolCallIds
  · simp [hpending, emit]
  · simp [hpending, hfilters]

end ChatReconstruction

/-! ## Outcomes -/

section Outcomes

variable {env : Environment} {values : List Json} {messages : List ChatMessage} {o : Outcome}

theorem FirstOutcome.exists_state (h : FirstOutcome env values messages o) :
    ∃ r final, rebuiltFrom env values o.before = .ok r ∧
      Follows env (assistantSegmentIds values) (o.before.map Prod.fst) r ∧
      (r.emitResult o.callId o.content).pushAll env o.after = .ok final ∧
      messages = final.finish env := by
  have hconverts := h.converts
  unfold valuesToChatMessages valuesToChatMessagesInner at hconverts
  rw [h.taken, pushAll_append_eq] at hconverts
  cases hbefore : (new true (assistantSegmentIds values)).pushAll env o.before
    with
  | error e =>
    rw [hbefore] at hconverts
    cases hconverts
  | ok r =>
    rw [hbefore] at hconverts
    simp only [pushAll, push_outcome h.terminal] at hconverts
    have hfollows := (follows_new env (assistantSegmentIds values)).pushAll hbefore
    cases hafter : (r.emitResult o.callId o.content).pushAll env o.after with
    | error e =>
      rw [hafter] at hconverts
      cases hconverts
    | ok final =>
      rw [hafter] at hconverts
      refine ⟨r, final, hbefore, ?_, hafter, (Except.ok.inj hconverts).symm⟩
      rw [nil_append] at hfollows
      exact hfollows

/-- **One outcome** is shown if and only if its call awaits a result. -/
theorem FirstOutcome.shown_iff (h : FirstOutcome env values messages o) :
    Shown env values messages o ↔
      awaitsResult env o.callId (o.before.map Prod.fst) = true := by
  obtain ⟨r, final, hbefore, hfollows, hafter, hmessages⟩ := h.exists_state
  have hpush : r.push env o.index o.value = .ok (r.emitResult o.callId o.content) :=
    push_outcome h.terminal
  have hemits := emitResult_messages_iff hfollows.filters o.callId o.content
  rw [← hfollows.pending, ← hemits]
  constructor
  · rintro ⟨r₁, r₂, front, back, hr₁, hr₂, hshown, -, -, -⟩
    cases hbefore.symm.trans hr₁
    cases hpush.symm.trans hr₂
    exact hshown
  · intro hshown
    obtain ⟨rest, hrest⟩ := (prefix_pushAll hafter).trans
      (@ChatReconstruction.prefix_appendReplayedProviderSegments env final)
    rw [hshown, append_assoc, singleton_append] at hrest
    obtain ⟨front, back, heq, hfront, hword⟩ :=
      ensureToolCallResultsPresent_append_tool r.messages rest o.callId o.content
    refine ⟨r, _, front, back, hbefore, hpush, hshown, ?_, hfront, hword⟩
    rw [hmessages, finish, ← hrest]
    exact heq

end Outcomes

/-- **When no recorded outcome is replaced by a synthetic one**: exactly when each call with a
recorded outcome was listed in the `tool_calls` of an assistant record, and no result record named
it since. -/
theorem keepsOutcomes_iff (env : Environment) (values : List Json) :
    KeepsOutcomes env values ↔ ∀ messages o, FirstOutcome env values messages o →
      awaitsResult env o.callId (o.before.map Prod.fst) = true := by
  unfold KeepsOutcomes
  refine forall_congr' fun messages => forall_congr' fun o => ?_
  constructor
  · intro h hfirst
    exact hfirst.shown_iff.mp (h hfirst)
  · intro h hfirst
    exact hfirst.shown_iff.mpr (h hfirst)

/-- A segment that issues a call. -/
def segmentRecords : List (Json × ℕ) :=
  [(.obj [("role", .str "provider_update"), ("segmentId", .str "seg-1"), ("itemId", .str "call_1"),
      ("position", .num (.posInt 0)), ("updateSeq", .num (.posInt 1)),
      ("payload", .obj [("update_type", .str "function_call_start"), ("name", .str "search")])], 0),
    (.obj [("role", .str "provider_segment_close"), ("segmentId", .str "seg-1"),
      ("outcome", .str "transport_error")], 1)]

def completedOutcome : Outcome where
  before := segmentRecords
  value := .obj [("role", .str "tool_lifecycle"), ("toolCallId", .str "call_1"),
    ("toolName", .str "search"), ("sequence", .num (.posInt 1)),
    ("emittedAtMs", .num (.posInt 0)), ("stage", .str "completed"), ("arguments", .obj []),
    ("success", .bool true), ("result", .str "done")]
  index := 2
  after := []
  callId := "call_1"
  content := "done"

/-- **The outcome of a call that only a replayed segment issues** is dropped, and the call is
reported as aborted. -/
theorem replayed_call_aborted :
    ∃ messages,
      FirstOutcome emptyObjectEnvironment (segmentRecords.map Prod.fst ++ [completedOutcome.value])
        messages completedOutcome ∧
      ¬KeepsOutcomes emptyObjectEnvironment
        (segmentRecords.map Prod.fst ++ [completedOutcome.value]) ∧
      .tool "call_1" "done" ∉ messages ∧ .tool "call_1" "aborted" ∈ messages := by
  have hconverts : ∃ m : ChatMessage, "call_1" ∈ m.callIds ∧
      valuesToChatMessages emptyObjectEnvironment
        (segmentRecords.map Prod.fst ++ [completedOutcome.value]) =
          .ok [m, .tool "call_1" "aborted"] ∧ m ≠ .tool "call_1" "done" ∧
      ∃ r, rebuiltFrom emptyObjectEnvironment
        (segmentRecords.map Prod.fst ++ [completedOutcome.value]) segmentRecords = .ok r ∧
          r.messages = [m] :=
    ⟨_, by decide, rfl, by decide, _, rfl, rfl⟩
  obtain ⟨m, hcall, hmessages, hne, r, hr, hrm⟩ := hconverts
  have hfirst : FirstOutcome emptyObjectEnvironment
      (segmentRecords.map Prod.fst ++ [completedOutcome.value]) [m, .tool "call_1" "aborted"]
      completedOutcome := by
    refine ⟨hmessages, rfl, rfl, ⟨r, hr, m, ?_, hcall⟩, ?_⟩
    · rw [hrm]
      exact List.mem_singleton_self m
    · intro before' value' index' after' heq houtcome
      have hmem : (value', index') ∈ segmentRecords := by
        have hbefore : segmentRecords = before' ++ (value', index') :: after' := heq
        rw [hbefore]
        exact List.mem_append_right _ (List.mem_cons_self ..)
      have hnone : ∀ entry ∈ segmentRecords, (outcomeOf entry.1).map Prod.fst = none := by
        intro entry hentry
        rcases List.mem_cons.mp hentry with rfl | hentry
        · rfl
        · rw [List.mem_singleton.mp hentry]
          rfl
      rw [hnone _ hmem] at houtcome
      cases houtcome
  refine ⟨_, hfirst, fun hkeeps => ?_, ?_, ?_⟩
  · have hawaits := hfirst.shown_iff.mp (hkeeps _ _ hfirst)
    exact absurd hawaits (by decide)
  · simp [Ne.symm hne]
  · simp

end Chelix.Agents.Model
