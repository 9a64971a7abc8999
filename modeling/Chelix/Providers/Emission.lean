import Chelix.Providers.ResponsesStream

/-!
# What the adapters do to a stream

While a segment is open an adapter emits updates of items and other events, and changes its own
state.  `Emits` closes these steps under composition, so that what each of them keeps is kept by
every function of an adapter.
-/

namespace Chelix.Providers

open Chelix.Agents.Model Chelix.Common Chelix.Library List

variable {σ : Type}

inductive Act where
  /-- An update of an item. -/
  | item (itemId : ProviderItemId) (payload : ProviderItemUpdatePayload)
  /-- Visible text, which is an update of a message and an event of its own. -/
  | message (itemId : ProviderItemId) (text : String)
  | event (event : StreamEvent)

def Adapter.act (a : Adapter σ) : Act → Adapter σ
  | .item itemId payload => a.emitItem itemId payload
  | .message itemId text => (a.emitItem itemId (.messageDelta text)).push (.delta text)
  | .event event => a.push event

/-- The second state comes from the first by acts that satisfy `P` and by changes of the own
state that `same` allows. -/
inductive Emits (same : σ → σ → Prop) (P : Act → Prop) (a : Adapter σ) : Adapter σ → Prop
  | refl : Emits same P a a
  | act {b : Adapter σ} {x : Act} (h : Emits same P a b) (hx : P x) : Emits same P a (b.act x)
  | own {b : Adapter σ} {o : σ} (h : Emits same P a b) (ho : same b.own o) :
      Emits same P a (b.setOwn o)
  | usage {b : Adapter σ} {u : Option Usage} (h : Emits same P a b) :
      Emits same P a (b.setUsage u)

namespace Emits

variable {same same' : σ → σ → Prop} {P Q : Act → Prop} {a b c : Adapter σ}

theorem trans (h : Emits same P a b) (h' : Emits same P b c) : Emits same P a c := by
  induction h' with
  | refl => exact h
  | act _ hx ih => exact .act ih hx
  | own _ ho ih => exact .own ih ho
  | usage _ ih => exact .usage ih

theorem one {x : Act} (hx : P x) : Emits same P a (a.act x) := .act .refl hx

theorem invariant {I : Adapter σ → Prop} (hact : ∀ a x, P x → I a → I (a.act x))
    (hown : ∀ a o, same a.own o → I a → I (a.setOwn o))
    (husage : ∀ a u, I a → I (a.setUsage u)) (h : Emits same P a b) (ha : I a) : I b := by
  induction h with
  | refl => exact ha
  | act _ hx ih => exact hact _ _ hx ih
  | own _ ho ih => exact hown _ _ ho ih
  | usage _ ih => exact husage _ _ ih

end Emits

/-- Any change of the own state is allowed. -/
abbrev AnyOwn (_ _ : σ) : Prop := True

theorem Adapter.events_act (a : Adapter σ) (x : Act) : a.events <+: (a.act x).events := by
  cases x with
  | item itemId payload | event event => exact prefix_append ..
  | message itemId text => exact (prefix_append ..).trans (prefix_append ..)

theorem Emits.events_isPrefix {same : σ → σ → Prop} {P : Act → Prop} {a b : Adapter σ}
    (h : Emits same P a b) : a.events <+: b.events :=
  h.invariant (I := fun b => a.events <+: b.events)
    (fun b x _ hb => hb.trans (b.events_act x)) (fun _ _ _ hb => hb) (fun _ _ hb => hb)
    (prefix_refl _)

/-! ## Errors -/

def HasError (events : List StreamEvent) : Prop := ∃ text, StreamEvent.error text ∈ events

def isError : StreamEvent → Bool
  | .error _ => true
  | _ => false

instance (events : List StreamEvent) : Decidable (HasError events) :=
  decidable_of_iff (events.any isError = true) <| by
    rw [List.any_eq_true]
    constructor
    · rintro ⟨e, he, herror⟩
      cases e with
      | error text => exact ⟨text, he⟩
      | _ => cases herror
    · rintro ⟨text, he⟩
      exact ⟨_, he, rfl⟩

theorem hasError_push {σ : Type} (a : Adapter σ) (text : String) :
    HasError (a.push (.error text)).events :=
  ⟨text, mem_append_right _ (mem_singleton_self _)⟩

theorem hasError_fail {σ : Type} (a : Adapter σ) (detail : String) :
    HasError (a.fail detail).events := by
  rw [Adapter.fail]
  split
  · exact hasError_push _ detail
  · exact hasError_push a detail

theorem HasError.mono {events events' : List StreamEvent} (h : HasError events)
    (hle : events <+: events') : HasError events' := by
  obtain ⟨text, herror⟩ := h
  exact ⟨text, hle.subset herror⟩

theorem events_startSegment {σ : Type} (a : Adapter σ) (announced : Option String) :
    a.events <+: (a.startSegment announced).events := by
  rw [Adapter.startSegment]
  split
  · exact prefix_refl _
  · exact prefix_append ..

theorem events_fail {σ : Type} (a : Adapter σ) (detail : String) :
    a.events <+: (a.fail detail).events := by
  rw [Adapter.fail]
  split
  · exact (prefix_append ..).trans (prefix_append ..)
  · exact prefix_append ..

/-! ## The text of a Chat Completions event -/

/-- The text is told apart without a look at the calls or at the end of the response. -/
def SameCalls (o o' : StreamingToolState) : Prop :=
  o'.toolCalls = o.toolCalls ∧ o'.terminalSeen = o.terminalSeen

/-- Text of the two items that the adapter synthesizes. -/
inductive ChatText : Act → Prop
  | reasoning (text : String) : ChatText (.item chatReasoningItemId (.reasoningTextDelta text))
  | visible (text : String) : ChatText (.message chatMessageItemId text)

/-- What a text does to the adapter of Chat Completions. -/
abbrev EmitsText (s t : Chat) : Prop := Emits SameCalls ChatText s t

namespace Chat

theorem emitsText_setOwn (s : Chat) {o : StreamingToolState} (h : SameCalls s.own o) :
    EmitsText s (s.setOwn o) := .own .refl h

theorem emitsText_emitReasoningText (s : Chat) (text : List Char) :
    EmitsText s (s.emitReasoningText text) :=
  Emits.one (ChatText.reasoning (String.ofList text))

theorem emitsText_emitVisibleText (s : Chat) (text : List Char) :
    EmitsText s (s.emitVisibleText text) :=
  Emits.one (ChatText.visible (String.ofList text))

theorem emitsText_emitReasoning (text : List Char) (s : Chat) :
    EmitsText s (emitReasoning text s) := by
  rw [emitReasoning]
  split
  · exact .refl
  · split
    · dsimp only
      split
      · exact .refl
      · refine Emits.trans ?_ (emitsText_emitReasoningText _ _)
        exact s.emitsText_setOwn ⟨rfl, rfl⟩
    · exact emitsText_emitReasoningText s text

theorem emitsText_emitVisible (text : List Char) (s : Chat) :
    EmitsText s (emitVisible text s) := by
  rw [emitVisible]
  split
  · exact .refl
  · split
    · dsimp only
      split
      · exact .refl
      · refine Emits.trans ?_ (emitsText_emitVisibleText _ _)
        exact s.emitsText_setOwn ⟨rfl, rfl⟩
    · exact emitsText_emitVisibleText s text

theorem emitsText_tagStep {s t : Chat} (h : s.tagStep = some t) : EmitsText s t := by
  rw [tagStep] at h
  split at h
  · split at h
    · cases h
      exact s.emitsText_setOwn ⟨rfl, rfl⟩
    · obtain ⟨pos, -, rfl⟩ := Option.map_eq_some_iff.mp h
      exact (emitsText_emitReasoning _ s).trans (emitsText_setOwn _ ⟨rfl, rfl⟩)
  · obtain ⟨found, -, rfl⟩ := Option.map_eq_some_iff.mp h
    exact (emitsText_emitVisible _ s).trans (emitsText_setOwn _ ⟨rfl, rfl⟩)

theorem emitsText_settle (s : Chat) : EmitsText s s.settle := by
  rw [settle]
  split
  · exact (emitsText_emitReasoning _ s).trans (emitsText_setOwn _ ⟨rfl, rfl⟩)
  · exact (emitsText_emitVisible _ s).trans (emitsText_setOwn _ ⟨rfl, rfl⟩)

theorem emitsText_processContentThinkTags (content : List Char) (s : Chat) :
    EmitsText s (processContentThinkTags content s) := by
  have hbuffer : EmitsText s (s.setBuffer (s.own.tagBuffer ++ content)) :=
    s.emitsText_setOwn ⟨rfl, rfl⟩
  rw [processContentThinkTags]
  refine Emits.trans ?_ (emitsText_settle _)
  exact loop_invariant (P := fun t => EmitsText s t)
    (fun _ _ h hstep => h.trans (emitsText_tagStep hstep)) _ hbuffer

theorem emitsText_contentDelta (delta : Json) (s : Chat) : EmitsText s (contentDelta delta s) := by
  rw [contentDelta]
  split
  · exact .refl
  · exact emitsText_processContentThinkTags _ s

theorem emitsText_reasoningDelta (delta : Json) (s : Chat) :
    EmitsText s (reasoningDelta delta s) := by
  rw [reasoningDelta]
  split
  · exact .refl
  · exact Emits.one (ChatText.reasoning _)

theorem emitsText_flushBuffer (s : Chat) : EmitsText s s.flushBuffer := by
  rw [flushBuffer]
  split
  · exact .refl
  · dsimp only
    split
    · refine Emits.trans ?_ (emitsText_emitReasoningText _ _)
      exact s.emitsText_setOwn ⟨rfl, rfl⟩
    · refine Emits.trans ?_ (emitsText_emitVisibleText _ _)
      exact s.emitsText_setOwn ⟨rfl, rfl⟩

/-! ## The calls of a Chat Completions event -/

section Calls

variable {P : Act → Prop} {s : Chat} {tc : Json} {index : ℕ}

theorem emits_toolCallStart
    (hP : ∀ id name, (tc.index "id").asStr = some id →
      P (.item id (.functionCallStart name)) ∧ P (.event (.toolCallStart id name index))) :
    Emits AnyOwn P s (toolCallStart tc index s) := by
  rw [toolCallStart]
  split
  · next id name hid _ =>
      obtain ⟨hitem, hevent⟩ := hP id name hid
      exact .act (.act (.own .refl trivial) hitem) hevent
  · exact .refl

theorem emits_toolCallArguments
    (hP : ∀ text, (∀ call, s.own.toolCalls[index]? = some call →
        P (.item call.id (.functionCallDelta text))) ∧
      P (.event (.toolCallArgumentsDelta index text))) :
    Emits AnyOwn P s (toolCallArguments tc index s) := by
  rw [toolCallArguments]
  split
  · exact .refl
  · next text _ =>
      obtain ⟨hitem, hevent⟩ := hP text
      dsimp only
      split
      · next call hcall => exact .act (.act (.own .refl trivial) (hitem call hcall)) hevent
      · exact .act .refl hevent

end Calls

end Chat

end Chelix.Providers
